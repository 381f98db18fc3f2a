import Descent.Proofs.Hint.Merge
import Descent.Proofs.Parser.Contract
import Descent.Proofs.Parser.Observation

/-! # Parsers of elements seen from outside

Where the input stands decides what a parser of elements replies, and no effect is involved: for
each of them one equation says what is seen where it accepts, and one what is seen where it
refuses. -/

namespace Descent

open Source

/-- The longest list that both lists start with. -/
def commonPrefix {α : Type} [DecidableEq α] : List α → List α → List α
  | x :: xs, y :: ys => if x = y then x :: commonPrefix xs ys else []
  | _, _ => []

section

variable {α : Type} [DecidableEq α]

theorem isPrefix_commonPrefix_iff {xs ys zs : List α} :
    zs <+: commonPrefix xs ys ↔ zs <+: xs ∧ zs <+: ys := by
  induction xs generalizing ys zs with
  | nil => cases zs <;> simp [commonPrefix]
  | cons x xs ih =>
    cases ys with
    | nil => cases zs <;> simp [commonPrefix]
    | cons y ys =>
      cases zs with
      | nil => simp
      | cons z zs =>
        rw [commonPrefix]
        split
        · simp only [List.cons_prefix_cons, ih]
          grind
        · simp only [List.cons_prefix_cons]
          grind

theorem commonPrefix_eq_left_iff {xs ys : List α} : commonPrefix xs ys = xs ↔ xs <+: ys := by
  obtain ⟨hLeft, hRight⟩ := isPrefix_commonPrefix_iff.mp (List.prefix_rfl (l := commonPrefix xs ys))
  constructor
  · intro h
    rwa [h] at hRight
  · intro h
    have hBoth := isPrefix_commonPrefix_iff.mpr ⟨List.prefix_rfl, h⟩
    exact hLeft.eq_of_length (Nat.le_antisymm hLeft.length_le hBoth.length_le)

theorem commonPrefix_singleton {x : α} {ys : List α} (h : ¬ [x] <+: ys) :
    commonPrefix [x] ys = [] := by
  cases ys with
  | nil => rfl
  | cons y ys =>
    have hOther : x ≠ y := by
      rintro rfl
      exact h (List.cons_prefix_cons.mpr ⟨rfl, List.nil_prefix⟩)
    rw [commonPrefix, if_neg hOther]

end

namespace Parser

variable {m n : Type → Type} [Computation m] [Computation n] [LawfulMonad n] (φ : Transfer m n)
  {σ τ υ α : Type} [Source σ τ] [Shown τ] {s : State σ υ}

theorem view_of_reply {p : Parser m σ υ α} {consumed : Bool} {r : Reply σ υ α}
    (h : p s = reply consumed r) : p.view φ s = pure ⟨consumed, r⟩ := by
  rw [view_eq, h]
  simp only [reply, φ.carry_pure, pure_bind]

theorem met_eq_head? (cursor : σ) :
    met cursor = ⟨.met, ((remaining cursor).head?.map Shown.describe).getD []⟩ := by
  rw [head?_remaining, met]
  cases next? cursor <;> rfl

theorem view_satisfy_of_next {test : τ → Bool} {t : τ} {rest : σ}
    (h : next? s.input = some (t, rest)) (ht : test t = true) :
    (satisfy test).view φ s =
      pure ⟨true, .ok t (s.withInput rest) (.unknown (pos rest))⟩ := by
  apply view_of_reply
  simp only [satisfy, h, ht, if_true]

theorem view_satisfy_of_refused {test : τ → Bool}
    (h : ∀ t rest, next? s.input = some (t, rest) → test t = false) :
    (satisfy test).view φ s = pure ⟨false, .error ⟨s.pos, [met s.input]⟩⟩ := by
  apply view_of_reply
  cases hNext : next? s.input with
  | none => simp only [satisfy, hNext]
  | some x => simp only [satisfy, hNext, h x.1 x.2 hNext, Bool.false_eq_true, if_false]

theorem view_eof_of_end (h : next? s.input = none) :
    eof.view φ s = pure ⟨false, .ok () s (.unknown s.pos)⟩ := by
  apply view_of_reply
  simp only [eof, h]

theorem view_eof_of_next {t : τ} {rest : σ} (h : next? s.input = some (t, rest)) :
    eof.view φ s = pure ⟨false, .error ⟨s.pos,
      [⟨.unexpected, Shown.describe t⟩, ⟨.expected, utf8 "end of input"⟩]⟩⟩ := by
  apply view_of_reply
  simp only [eof, h]

section Runes

variable {σ : Type} [Source σ Rune] {s : State σ υ}

theorem follow_of_isPrefix {word : List Rune} {input : σ} (moved : Bool)
    (h : word <+: remaining input) : ∃ rest, follow moved input word = .ok rest := by
  induction word generalizing moved input with
  | nil => exact ⟨input, rfl⟩
  | cons want word ih =>
    cases hNext : next? input with
    | none =>
      rw [remaining_of_end hNext] at h
      cases List.prefix_nil.mp h
    | some x =>
      rw [remaining_of_next hNext] at h
      obtain ⟨rfl, hWord⟩ := List.cons_prefix_cons.mp h
      obtain ⟨rest, hRest⟩ := ih true hWord
      exact ⟨rest, by rw [follow, hNext]; simpa using hRest⟩

theorem follow_of_not_isPrefix {word : List Rune} {input : σ} (moved : Bool)
    (h : ¬ word <+: remaining input) :
    ∃ cursor, Passes input (commonPrefix word (remaining input)) cursor ∧
      follow moved input word =
        .error (moved || !(commonPrefix word (remaining input)).isEmpty, cursor) := by
  induction word generalizing moved input with
  | nil => exact absurd List.nil_prefix h
  | cons want word ih =>
    cases hNext : next? input with
    | none =>
      rw [remaining_of_end hNext]
      exact ⟨input, .stay input, by simp [follow, hNext, commonPrefix]⟩
    | some x =>
      rw [remaining_of_next hNext] at h ⊢
      by_cases hWant : want = x.1
      · subst hWant
        have hRest : ¬ word <+: remaining x.2 :=
          fun hWord => h (List.cons_prefix_cons.mpr ⟨rfl, hWord⟩)
        obtain ⟨cursor, hPasses, hFollow⟩ := ih true hRest
        rw [commonPrefix, if_pos rfl]
        exact ⟨cursor, .move hNext hPasses, by simpa [follow, hNext] using hFollow⟩
      · rw [commonPrefix, if_neg hWant]
        exact ⟨input, .stay input, by simp [follow, hNext, Ne.symm hWant]⟩

variable [CharacterClasses]

theorem view_char_of_next {c : Rune} {rest : σ} (h : next? s.input = some (c, rest)) :
    (char c).view φ s = pure ⟨true, .ok c (s.withInput rest) (.unknown (pos rest))⟩ := by
  rw [char, view_label, view_satisfy_of_next φ h (decide_eq_true rfl), map_pure]
  rfl

/-- Where another rune stands, or none, the rune is expected. -/
theorem view_char_of_refused {c : Rune} (h : ∀ rest, next? s.input ≠ some (c, rest)) :
    ∃ hint, (char c).view φ s = pure ⟨false, .error hint⟩ ∧ hint.pos = s.pos ∧
      c.quoted ∈ hint.expected := by
  have hTest (t : Rune) (rest : σ) (hNext : next? s.input = some (t, rest)) :
      decide (t = c) = false := by
    rw [decide_eq_false_iff_not]
    rintro rfl
    exact h rest hNext
  refine ⟨Hint.relabel ⟨s.pos, [met s.input]⟩ c.quoted, ?_, rfl, ?_⟩
  · rw [char, view_label, view_satisfy_of_refused φ hTest, map_pure]
    rfl
  · have hQuoted : c.quoted ≠ [] :=
      List.append_ne_nil_of_left_ne_nil (List.append_ne_nil_of_left_ne_nil (by decide) _) _
    rw [Hint.mem_expected, Hint.relabel, if_neg hQuoted]
    exact ⟨hQuoted, List.mem_append_right _ (List.mem_singleton_self _)⟩

theorem literal_of_isPrefix {text : Bytes} (h : Utf8.runes text <+: remaining s.input) :
    ∃ cursor, Passes s.input (Utf8.runes text) cursor ∧
      ∀ (m : Type → Type) [Computation m], (literal text : Parser m σ υ Bytes) s =
        reply (!(Utf8.runes text).isEmpty)
          (.ok text (s.withInput cursor) (.unknown (pos cursor))) := by
  obtain ⟨cursor, hFollow⟩ := follow_of_isPrefix false h
  refine ⟨cursor, follow_eq_ok hFollow, fun m _ => ?_⟩
  simp only [literal, hFollow]

theorem literal_of_not_isPrefix {text : Bytes} (h : ¬ Utf8.runes text <+: remaining s.input) :
    ∃ cursor, Passes s.input (commonPrefix (Utf8.runes text) (remaining s.input)) cursor ∧
      ∀ (m : Type → Type) [Computation m], (literal text : Parser m σ υ Bytes) s =
        reply (!(commonPrefix (Utf8.runes text) (remaining s.input)).isEmpty)
          (.error ⟨s.pos, [met cursor, ⟨.expected, quoted text⟩]⟩) := by
  obtain ⟨cursor, hPasses, hFollow⟩ := follow_of_not_isPrefix false h
  refine ⟨cursor, hPasses, fun m _ => ?_⟩
  simp only [literal, hFollow, Bool.false_or]

theorem view_literal_of_isPrefix {text : Bytes} (h : Utf8.runes text <+: remaining s.input) :
    ∃ rest, Passes s.input (Utf8.runes text) rest ∧ (literal text).view φ s =
      pure ⟨!(Utf8.runes text).isEmpty,
        .ok text (s.withInput rest) (.unknown (pos rest))⟩ := by
  obtain ⟨rest, hPasses, hLiteral⟩ := literal_of_isPrefix h
  exact ⟨rest, hPasses, view_of_reply φ (hLiteral m)⟩

theorem view_literal_of_not_isPrefix {text : Bytes}
    (h : ¬ Utf8.runes text <+: remaining s.input) :
    ∃ messages, (literal text).view φ s =
      pure ⟨!(commonPrefix (Utf8.runes text) (remaining s.input)).isEmpty,
        .error ⟨s.pos, messages⟩⟩ := by
  obtain ⟨cursor, -, hLiteral⟩ := literal_of_not_isPrefix h
  exact ⟨_, view_of_reply φ (hLiteral m)⟩

end Runes

end Parser

end Descent
