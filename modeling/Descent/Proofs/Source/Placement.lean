import Mathlib.Data.List.DropRight
import Descent.Proofs.Text.Encoding

/-! # Places in a text

A cursor that has passed over some runes of a text stands where a reader of those runes would say:
the offset counts the bytes that they cover, the line the line feeds among them, and the column the
runes since the last line feed. Whatever the bytes are, each of them is covered by exactly one step
on the way to the end. -/

namespace Descent

namespace Source

variable {σ τ : Type} [Source σ τ]

/-- After the elements `before`, the next step goes from at most the offset `i` to beyond it. -/
def StepsOver (s : σ) (i : Int) (before : List τ) : Prop :=
  ∃ a t b, Passes s before a ∧ next? a = some (t, b) ∧ (pos a).offset ≤ i ∧ i < (pos b).offset

theorem Passes.exists_stepsOver {s s' : σ} {passed : List τ} {i : Int} (h : Passes s passed s')
    (hLow : (pos s).offset ≤ i) (hHigh : i < (pos s').offset) : ∃ before, StepsOver s i before := by
  induction h with
  | stay s => exact absurd hLow (Int.not_le.mpr hHigh)
  | @move s next last t passed hNext hRest ih =>
    by_cases hHere : i < (pos next).offset
    · exact ⟨[], s, t, next, .stay s, hNext, hLow, hHere⟩
    · obtain ⟨before, a, u, b, hBefore, hOver⟩ := ih (Int.not_lt.mp hHere) hHigh
      exact ⟨t :: before, a, u, b, .move hNext hBefore, hOver⟩

/-- A later step starts where an earlier one has ended, or beyond. -/
theorem StepsOver.not_later [Advancing σ] {s : σ} {i : Int} {xs zs : List τ}
    (hx : StepsOver s i xs) (hLater : StepsOver s i (xs ++ zs)) : zs = [] := by
  obtain ⟨a, t, b, ha, hNext, -, hHigh⟩ := hx
  obtain ⟨c, u, d, hc, -, hLow, -⟩ := hLater
  rcases ha.comparable hc with ⟨ys, hEq, hBetween⟩ | ⟨ys, hEq, -⟩
  · obtain rfl : zs = ys := List.append_cancel_left hEq
    cases hBetween with
    | stay _ => rfl
    | move hNext' hRest =>
      rw [hNext] at hNext'
      cases hNext'
      have hReached := hRest.reaches.offset_le
      omega
  · rw [List.append_assoc, List.self_eq_append_right, List.append_eq_nil_iff] at hEq
    exact hEq.1

theorem StepsOver.unique [Advancing σ] {s : σ} {i : Int} {xs ys : List τ} (hx : StepsOver s i xs)
    (hy : StepsOver s i ys) : xs = ys := by
  have ⟨_, _, _, ha, _⟩ := hx
  have ⟨_, _, _, hb, _⟩ := hy
  rcases ha.comparable hb with ⟨zs, rfl, -⟩ | ⟨zs, rfl, -⟩
  · rw [hx.not_later hy, List.append_nil]
  · rw [hy.not_later hx, List.append_nil]

end Source

/-- The rune that starts a line. -/
def Rune.lineFeed : Rune := .ofChar '\n'

namespace Position

variable (p : Position) (r : Rune) (width : Nat)

@[simp] theorem name_after : (p.after r width).name = p.name := by
  unfold after
  split <;> rfl

theorem line_after : (p.after r width).line = p.line + if r = .lineFeed then 1 else 0 := by
  unfold after Rune.lineFeed
  split
  · rfl
  · exact (Int.add_zero _).symm

theorem column_after : (p.after r width).column = if r = .lineFeed then 1 else p.column + 1 := by
  unfold after Rune.lineFeed
  split <;> rfl

end Position

open Source

namespace Text

theorem pos_next {t t' : Text} {r : Rune} (h : Source.next? t = some (r, t')) :
    ∃ width, t'.pos = t.pos.after r width := by
  rw [next?_eq] at h
  split at h
  · cases h
  · cases h
    exact ⟨_, rfl⟩

/-- The runes of the line that is being read: those since the last line feed, or all of them. -/
def lineSoFar (passed : List Rune) : List Rune := passed.rtakeWhile (· ≠ .lineFeed)

/-- The cursor `t` stands behind the runes `passed` of the text `src`. -/
structure Placed (name src : Bytes) (passed : List Rune) (t : Text) : Prop where
  name_eq : t.pos.name = name
  offset_nonneg : 0 ≤ t.pos.offset
  offset_le : t.pos.offset ≤ src.length
  rest_eq : t.rest = src.drop t.pos.offset.toNat
  line_eq : t.pos.line = 1 + passed.count .lineFeed
  column_eq : t.pos.column = 1 + (lineSoFar passed).length

namespace Placed

variable {name src : Bytes} {passed : List Rune} {t t' : Text} {r : Rune}

theorem start (name src : Bytes) : Placed name src [] (.ofBytes name src) where
  name_eq := rfl
  offset_nonneg := Int.le_refl 0
  offset_le := Int.natCast_nonneg _
  rest_eq := rfl
  line_eq := rfl
  column_eq := rfl

theorem length_rest (h : Placed name src passed t) :
    t.pos.offset + t.rest.length = src.length := by
  have hLength := congrArg List.length h.rest_eq
  rw [List.length_drop] at hLength
  have hLow := h.offset_nonneg
  have hHigh := h.offset_le
  omega

theorem next (h : Placed name src passed t) (hNext : Source.next? t = some (r, t')) :
    Placed name src (passed ++ [r]) t' := by
  have hWhole := offset_add_length_of_passes (Passes.one hNext)
  have hLength := h.length_rest
  have hLow := h.offset_nonneg
  obtain ⟨b, rest, hRest, -, hRest', hOffset⟩ := next?_eq_some hNext
  obtain ⟨width, hPos⟩ := pos_next hNext
  constructor
  · rw [hPos, Position.name_after, h.name_eq]
  · omega
  · omega
  · have hSum : t'.pos.offset.toNat = t.pos.offset.toNat + (Utf8.read b rest).width := by omega
    rw [hRest', Utf8.rest_read, ← hRest, hSum, ← List.drop_drop, ← h.rest_eq]
  · rw [hPos, Position.line_after, h.line_eq, List.count_append, List.count_singleton]
    by_cases hFeed : r = .lineFeed
    · simp [hFeed, Int.add_assoc]
    · simp [hFeed]
  · rw [hPos, Position.column_after, h.column_eq, lineSoFar, lineSoFar, List.rtakeWhile_concat]
    by_cases hFeed : r = .lineFeed
    · simp [hFeed]
    · simp [hFeed, Int.add_assoc]

/-- What a step keeps, a run of steps keeps. -/
theorem passes (h : Placed name src passed t) {more : List Rune} (hPasses : Passes t more t') :
    Placed name src (passed ++ more) t' := by
  induction hPasses generalizing passed with
  | stay t => rwa [List.append_nil]
  | move hNext _ ih =>
    rw [List.append_cons]
    exact ih (h.next hNext)

theorem next?_eq_none_iff (h : Placed name src passed t) :
    Source.next? t = none ↔ t.pos.offset = src.length := by
  have hLength := h.length_rest
  constructor
  · intro hEnd
    rw [rest_of_end hEnd] at hLength
    simpa using hLength
  · intro hOffset
    exact next?_of_nil (List.eq_nil_of_length_eq_zero (by omega))

end Placed

theorem placed_of_passes {name src : Bytes} {passed : List Rune} {t : Text}
    (h : Passes (.ofBytes name src) passed t) : Placed name src passed t :=
  (Placed.start name src).passes h

/-- How the text `src` is read from its start to its end. -/
structure ReadExactly (name src : Bytes) : Prop where
  placed {passed : List Rune} {t : Text} : Passes (.ofBytes name src) passed t →
    Placed name src passed t
  advances {passed : List Rune} {t t' : Text} {r : Rune} : Passes (.ofBytes name src) passed t →
    Source.next? t = some (r, t') → t.pos.offset < t'.pos.offset
  /-- There is no next rune exactly where no byte is left, and there the text stays as it is. -/
  ends {passed : List Rune} {t : Text} : Passes (.ofBytes name src) passed t →
    (Source.next? t = none ↔ t.pos.offset = src.length) ∧
      (Source.next? t = none → Source.uncons t = (none, t))
  /-- No run is longer than the text, and one of them comes to the end. -/
  bounded {passed : List Rune} {t : Text} : Passes (.ofBytes name src) passed t →
    passed.length ≤ src.length
  completed : ∃ runes last, Passes (ofBytes name src) runes last ∧ Source.next? last = none
  covered (i : Nat) : i < src.length → ∃! before, StepsOver (Text.ofBytes name src) i before
  decoded {runes : List Rune} : (∀ r ∈ runes, r.isScalar = true) →
    src = runes.flatMap Rune.encode →
    ∃ last, Passes (ofBytes name src) runes last ∧ Source.next? last = none

/-- Texts are read exactly, well-formed or not. -/
theorem read_exactly (name src : Bytes) : ReadExactly name src where
  placed := placed_of_passes
  advances _ hNext := Advancing.offset_next hNext
  ends h := ⟨(placed_of_passes h).next?_eq_none_iff, uncons_of_end⟩
  bounded {passed t} h := by
    have hLength : 0 + (passed.length : Int) ≤ t.pos.offset := h.offset_add_length_le
    have hOffset := (placed_of_passes h).offset_le
    omega
  completed := ⟨_, _, passes_final _, next?_final _⟩
  covered i hi := by
    let start := Text.ofBytes name src
    have hWhole : Passes start (remaining start) (final start) := passes_final start
    have hEnd : (final start).pos.offset = src.length :=
      (placed_of_passes hWhole).next?_eq_none_iff.mp (next?_final start)
    have hHigh : (i : Int) < (final start).pos.offset := by omega
    obtain ⟨before, hBefore⟩ := hWhole.exists_stepsOver (Int.natCast_nonneg i) hHigh
    exact ⟨before, hBefore, fun _ hOther => hOther.unique hBefore⟩
  decoded {runes} hScalar hSrc := by
    have hRunes : remaining (Text.ofBytes name src) = runes := by
      rw [remaining_eq_runes, rest_ofBytes, hSrc, Utf8.runes_encode hScalar]
    refine ⟨final (.ofBytes name src), ?_, next?_final _⟩
    rw [← hRunes]
    exact passes_final _

/-- A lead byte without its tail, a line feed, a sequence of three bytes and one more byte. -/
theorem read_exactly_resuming :
    let src : Bytes := [0xC3, 0x0A, 0xE2, 0x82, 0xAC, 0x62]
    let sign : Rune := ⟨0x20AC⟩
    ∃ t t' : Text, Passes (ofBytes [] src) [.replacement, .lineFeed, sign] t ∧
      t.pos.line = 2 ∧ t.pos.column = 2 ∧ Source.next? t = some (⟨0x62⟩, t') ∧
      Source.next? t' = none ∧ t'.pos.offset = 6 ∧
      ∀ before, StepsOver (ofBytes [] src) 3 before ↔ before = [.replacement, .lineFeed] := by
  intro src sign
  have hRead := read_exactly [] src
  let s₂ : Text := ⟨[0xE2, 0x82, 0xAC, 0x62], ⟨[], 2, 2, 1⟩⟩
  let s₃ : Text := ⟨[0x62], ⟨[], 5, 2, 2⟩⟩
  have hStart : Passes (ofBytes [] src) [.replacement, .lineFeed] s₂ :=
    .move rfl (.move rfl (.stay _))
  have hSign : Source.next? s₂ = some (sign, s₃) := rfl
  have hPasses : Passes (ofBytes [] src) [.replacement, .lineFeed, sign] s₃ :=
    hStart.trans (.one hSign)
  have hPlaced := hRead.placed hPasses
  have hLast : Source.next? s₃ = some (⟨0x62⟩, ⟨[], ⟨[], 6, 2, 3⟩⟩) := rfl
  have hEnds := hRead.ends (hPasses.trans (.one hLast))
  refine ⟨s₃, _, hPasses, hPlaced.line_eq, hPlaced.column_eq, hLast, hEnds.1.mpr rfl, rfl, ?_⟩
  obtain ⟨before, -, hUnique⟩ := hRead.covered 3 (by decide)
  have hOver : StepsOver (ofBytes [] src) 3 [.replacement, .lineFeed] :=
    ⟨s₂, sign, s₃, hStart, hSign, by decide, by decide⟩
  intro other
  constructor
  · intro h
    rw [hUnique other h, hUnique _ hOver]
  · rintro rfl
    exact hOver

end Text

end Descent
