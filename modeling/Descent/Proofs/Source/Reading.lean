import Descent.Proofs.Source.Passage

/-! # Texts and token lists as inputs

The elements of a text are the runes that it reads as, broken bytes included, and its offset counts
the bytes that they cover. The elements of a token list are its tokens, and its offset counts
them. -/

namespace Descent

namespace Utf8

theorem width_read_le (head : UInt8) (rest : Bytes) :
    (read head rest).width ≤ rest.length + 1 := by
  unfold read
  grind

theorem readingsFrom_eq (covered : Nat) (text : Bytes) :
    readingsFrom covered text = readings (text.drop covered) := by
  induction covered generalizing text with
  | zero => rfl
  | succ covered ih =>
    cases text with
    | nil => rfl
    | cons b rest => exact ih rest

theorem rest_read_eq_drop (b : UInt8) (rest : Bytes) :
    (read b rest).rest = rest.drop ((read b rest).width - 1) := by
  obtain ⟨width, hWidth⟩ : ∃ width, (read b rest).width = width + 1 :=
    ⟨(read b rest).width - 1, by have := width_read_pos b rest; omega⟩
  rw [rest_read, hWidth]
  rfl

theorem readings_cons (b : UInt8) (rest : Bytes) :
    readings (b :: rest) = read b rest :: readings (read b rest).rest := by
  rw [rest_read_eq_drop, ← readingsFrom_eq]
  rfl

/-- A byte of ASCII is read alone. -/
theorem read_of_lt {head : UInt8} (hHead : head < 0x80) (rest : Bytes) :
    read head rest = ⟨head, ⟨head.toNat⟩, 1, rest⟩ := by
  have hNat : head.toNat < 0x80 := hHead
  simp only [read, hNat, if_true]

theorem runes_of_lt {text : Bytes} (hText : ∀ b ∈ text, b < 0x80) :
    runes text = text.map fun b => ⟨b.toNat⟩ := by
  induction text with
  | nil => rfl
  | cons b rest ih =>
    rw [List.forall_mem_cons] at hText
    rw [runes, readings_cons, read_of_lt hText.1, List.map_cons, List.map_cons]
    exact congrArg _ (ih hText.2)

/-- How many bytes the first `count` runes of a text cover. -/
def byteOffset (text : Bytes) (count : Nat) : Nat :=
  ((readings text).take count).foldr (fun reading covered => reading.width + covered) 0

@[simp] theorem byteOffset_zero (text : Bytes) : byteOffset text 0 = 0 := rfl

theorem byteOffset_succ (b : UInt8) (rest : Bytes) (count : Nat) :
    byteOffset (b :: rest) (count + 1) =
      (read b rest).width + byteOffset (read b rest).rest count := by
  simp [byteOffset, readings_cons]

end Utf8

@[simp] theorem Position.offset_after (p : Position) (r : Rune) (width : Nat) :
    (p.after r width).offset = p.offset + width := by
  unfold Position.after
  split <;> rfl

open Source

namespace Text

@[simp] theorem rest_ofBytes (name src : Bytes) : (ofBytes name src).rest = src := rfl

@[simp] theorem offset_ofBytes (name src : Bytes) : (ofBytes name src).pos.offset = 0 := rfl

theorem next?_eq_some {t t' : Text} {r : Rune} (h : Source.next? t = some (r, t')) :
    ∃ b rest, t.rest = b :: rest ∧ r = (Utf8.read b rest).rune ∧
      t'.rest = (Utf8.read b rest).rest ∧
      t'.pos.offset = t.pos.offset + (Utf8.read b rest).width := by
  rw [next?_eq] at h
  split at h
  · cases h
  · rename_i b rest hRest
    cases h
    exact ⟨b, rest, hRest, rfl, rfl, Position.offset_after ..⟩

theorem next?_of_lt {t : Text} {b : UInt8} {rest : Bytes} (hRest : t.rest = b :: rest)
    (hb : b < 0x80) : Source.next? t = some (⟨b.toNat⟩, ⟨rest, t.pos.after ⟨b.toNat⟩ 1⟩) := by
  rw [next?_eq, hRest]
  simp only [Utf8.read_of_lt hb]

theorem rest_of_end {t : Text} (h : Source.next? t = none) : t.rest = [] := by
  rw [next?_eq] at h
  split at h
  · assumption
  · cases h

theorem next?_of_nil {t : Text} (hRest : t.rest = []) : Source.next? t = none := by
  rw [next?_eq, hRest]

/-- The step that fails gives back the text as it was. -/
theorem uncons_of_end {t : Text} (h : Source.next? t = none) : Source.uncons t = (none, t) := by
  change t.uncons = (none, t)
  rw [uncons, rest_of_end h]

theorem remaining_eq_runes (t : Text) : remaining t = Utf8.runes t.rest := by
  induction hSize : t.rest.length using Nat.strongRecOn generalizing t with
  | _ size ih =>
    cases hNext : Source.next? t with
    | none =>
      rw [remaining_of_end hNext, rest_of_end hNext]
      rfl
    | some next =>
      obtain ⟨r, t'⟩ := next
      have hLess : t'.rest.length < size := hSize ▸ Source.size_next hNext
      obtain ⟨b, rest, hRest, rfl, hRest', -⟩ := next?_eq_some hNext
      rw [remaining_of_next hNext, ih _ hLess t' rfl, hRest, hRest', Utf8.runes, Utf8.runes,
        Utf8.readings_cons, List.map_cons]

theorem offset_of_passes {t t' : Text} {passed : List Rune} (h : Passes t passed t') :
    t'.pos.offset = t.pos.offset + Utf8.byteOffset t.rest passed.length := by
  induction h with
  | stay t => simp
  | move hNext _ ih =>
    obtain ⟨b, rest, hRest, -, hRest', hOffset⟩ := next?_eq_some hNext
    rw [ih, hOffset, hRest, hRest', List.length_cons, Utf8.byteOffset_succ]
    omega

theorem rest_of_passes {t t' : Text} {passed : List Rune} (h : Passes t passed t') :
    t'.rest = t.rest.drop (Utf8.byteOffset t.rest passed.length) := by
  induction h with
  | stay t => rfl
  | move hNext _ ih =>
    obtain ⟨b, rest, hRest, -, hRest', -⟩ := next?_eq_some hNext
    rw [ih, hRest, hRest', List.length_cons, Utf8.byteOffset_succ, Utf8.rest_read, List.drop_drop]

/-- The offset counts the bytes that are no longer left. -/
theorem offset_add_length_of_passes {t t' : Text} {passed : List Rune} (h : Passes t passed t') :
    t'.pos.offset + t'.rest.length = t.pos.offset + t.rest.length := by
  induction h with
  | stay t => rfl
  | move hNext _ ih =>
    obtain ⟨b, rest, hRest, -, hRest', hOffset⟩ := next?_eq_some hNext
    have hWidth := Utf8.width_read_le b rest
    rw [ih, hOffset, hRest, hRest', Utf8.rest_read, List.length_drop, List.length_cons]
    omega

end Text

namespace Tokens

variable {τ : Type}

@[simp] theorem rest_ofList (name : Bytes) (items : List τ) : (ofList name items).rest = items :=
  rfl

@[simp] theorem offset_ofList (name : Bytes) (items : List τ) : (ofList name items).offset = 0 :=
  rfl

theorem next?_eq_some {t t' : Tokens τ} {item : τ} (h : Source.next? t = some (item, t')) :
    t.rest = item :: t'.rest ∧ t'.offset = t.offset + 1 := by
  rw [next?_eq] at h
  split at h
  · cases h
  · rename_i first rest hRest
    cases h
    exact ⟨hRest, rfl⟩

theorem remaining_eq_rest (t : Tokens τ) : remaining t = t.rest := by
  induction hRest : t.rest generalizing t with
  | nil =>
    have hNext : Source.next? t = none := by
      rw [next?_eq, hRest]
    exact remaining_of_end hNext
  | cons item rest ih =>
    have hNext : Source.next? t = some (item, ⟨t.name, t.offset + 1, rest⟩) := by
      rw [next?_eq, hRest]
    rw [remaining_of_next hNext, ih _ rfl]

theorem offset_of_passes {t t' : Tokens τ} {passed : List τ} (h : Passes t passed t') :
    t'.offset = t.offset + passed.length := by
  induction h with
  | stay t => rfl
  | move hNext _ ih =>
    obtain ⟨-, hOffset⟩ := next?_eq_some hNext
    rw [ih, hOffset, List.length_cons]
    omega

end Tokens

theorem Text.remaining_eq_tokens (name src : Bytes) :
    remaining (Text.ofBytes name src) = remaining (Tokens.ofList name (Utf8.runes src)) := by
  rw [Text.remaining_eq_runes, Tokens.remaining_eq_rest, Text.rest_ofBytes, Tokens.rest_ofList]

end Descent
