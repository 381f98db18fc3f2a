import Descent.Source

/-! # Passing over an input

Which cursors are reached from a cursor, and over which elements. The elements passed and the
elements left make up the input. Where every element moves the offset on, the offset of a reached
cursor determines the cursor, and with it the whole position. -/

namespace Descent

namespace Source

variable {σ τ : Type} [Source σ τ]

/-- The elements in the list lead from the first cursor to the second. -/
inductive Passes : σ → List τ → σ → Prop where
  | stay (s : σ) : Passes s [] s
  | move {s s' s'' : σ} {t : τ} {passed : List τ} :
      next? s = some (t, s') → Passes s' passed s'' → Passes s (t :: passed) s''

def Reaches (s s' : σ) : Prop := ∃ passed, Passes s passed s'

namespace Passes

theorem one {s s' : σ} {t : τ} (h : next? s = some (t, s')) : Passes s [t] s' :=
  .move h (.stay s')

theorem trans {a b c : σ} {xs ys : List τ} (hab : Passes a xs b) (hbc : Passes b ys c) :
    Passes a (xs ++ ys) c := by
  induction hab with
  | stay _ => exact hbc
  | move hNext _ ih => exact .move hNext (ih hbc)

theorem reaches {a b : σ} {passed : List τ} (h : Passes a passed b) : Reaches a b := ⟨passed, h⟩

theorem comparable {a b c : σ} {xs ys : List τ} (hb : Passes a xs b) (hc : Passes a ys c) :
    (∃ zs, ys = xs ++ zs ∧ Passes b zs c) ∨ (∃ zs, xs = ys ++ zs ∧ Passes c zs b) := by
  induction hb generalizing ys with
  | stay a => exact .inl ⟨ys, rfl, hc⟩
  | move hNext hRest ih =>
    cases hc with
    | stay _ => exact .inr ⟨_, rfl, .move hNext hRest⟩
    | move hNext' hRest' =>
      rw [hNext] at hNext'
      cases hNext'
      rcases ih hRest' with ⟨zs, rfl, h⟩ | ⟨zs, rfl, h⟩
      · exact .inl ⟨zs, rfl, h⟩
      · exact .inr ⟨zs, rfl, h⟩

theorem unique {s a b : σ} {passed : List τ} (ha : Passes s passed a) (hb : Passes s passed b) :
    a = b := by
  induction ha with
  | stay s =>
    cases hb
    rfl
  | move hNext _ ih =>
    cases hb with
    | move hNext' hRest =>
      rw [hNext] at hNext'
      cases hNext'
      exact ih hRest

end Passes

namespace Reaches

theorem refl (s : σ) : Reaches s s := ⟨[], .stay s⟩

theorem trans {a b c : σ} (hab : Reaches a b) (hbc : Reaches b c) : Reaches a c := by
  obtain ⟨xs, hab⟩ := hab
  obtain ⟨ys, hbc⟩ := hbc
  exact ⟨xs ++ ys, hab.trans hbc⟩

theorem comparable {a b c : σ} (hb : Reaches a b) (hc : Reaches a c) :
    Reaches b c ∨ Reaches c b := by
  obtain ⟨xs, hb⟩ := hb
  obtain ⟨ys, hc⟩ := hc
  rcases hb.comparable hc with ⟨zs, _, h⟩ | ⟨zs, _, h⟩
  · exact .inl h.reaches
  · exact .inr h.reaches

end Reaches

/-! ## The elements left -/

theorem spanAfter_of_next {test : τ → Bool} {before : List τ} {s rest : σ} {t : τ}
    (h : next? s = some (t, rest)) :
    spanAfter test before s =
      if test t then spanAfter test (t :: before) rest else (before.reverse, s) := by
  rw [spanAfter]
  split
  · rename_i h'
    rw [h] at h'
    cases h'
    rfl
  · rename_i h'
    rw [h] at h'
    cases h'

theorem spanAfter_of_end {test : τ → Bool} {before : List τ} {s : σ} (h : next? s = none) :
    spanAfter test before s = (before.reverse, s) := by
  rw [spanAfter]
  split
  · rename_i h'
    rw [h] at h'
    cases h'
  · rfl

theorem spanAfter_eq (test : τ → Bool) (before : List τ) (s : σ) :
    ∃ passed rest, spanAfter test before s = (before.reverse ++ passed, rest) ∧
      Passes s passed rest ∧ (∀ t ∈ passed, test t = true) ∧
      ∀ t s', next? rest = some (t, s') → test t = false := by
  fun_induction spanAfter test before s with
  | case1 before s t rest hNext hTest ih =>
    obtain ⟨passed, last, hSpan, hPasses, hAll, hStop⟩ := ih
    refine ⟨t :: passed, last, ?_, .move hNext hPasses, ?_, hStop⟩
    · rw [hSpan, List.reverse_cons, List.append_assoc]
      rfl
    · intro u hu
      rcases List.mem_cons.mp hu with rfl | hu
      · exact hTest
      · exact hAll u hu
  | case2 before s t rest hNext hTest =>
    refine ⟨[], s, by rw [List.append_nil], .stay s, by simp, ?_⟩
    intro u s' hu
    rw [hNext] at hu
    cases hu
    exact Bool.eq_false_iff.mpr hTest
  | case3 before s hNext =>
    refine ⟨[], s, by rw [List.append_nil], .stay s, by simp, ?_⟩
    intro u s' hu
    rw [hNext] at hu
    cases hu

theorem passes_span (test : τ → Bool) (s : σ) : Passes s (span test s).1 (span test s).2 := by
  obtain ⟨passed, rest, hSpan, hPasses, _⟩ := spanAfter_eq test [] s
  rw [span, hSpan]
  exact hPasses

/-- All elements from a cursor on. -/
def remaining (s : σ) : List τ := (span (fun _ => true) s).1

/-- The cursor at the end of the input. -/
def final (s : σ) : σ := (span (fun _ => true) s).2

theorem passes_final (s : σ) : Passes s (remaining s) (final s) := passes_span _ s

theorem next?_final (s : σ) : next? (final s) = none := by
  obtain ⟨passed, rest, hSpan, _, _, hStop⟩ := spanAfter_eq (fun _ : τ => true) [] s
  rw [final, span, hSpan]
  cases hNext : next? rest with
  | none => rfl
  | some next => cases hStop next.1 next.2 hNext

theorem Passes.eq_of_final {s s' : σ} {passed : List τ} (h : Passes s passed s')
    (hEnd : next? s = none) : passed = [] ∧ s' = s := by
  cases h with
  | stay _ => exact ⟨rfl, rfl⟩
  | move hNext _ =>
    rw [hEnd] at hNext
    cases hNext

theorem Passes.remaining_eq {s s' : σ} {passed : List τ} (h : Passes s passed s') :
    remaining s = passed ++ remaining s' ∧ final s = final s' := by
  have hWhole : Passes s (passed ++ remaining s') (final s') := h.trans (passes_final s')
  rcases (passes_final s).comparable hWhole with ⟨zs, hEq, hEnd⟩ | ⟨zs, hEq, hEnd⟩
  · obtain ⟨rfl, hFinal⟩ := hEnd.eq_of_final (next?_final s)
    exact ⟨by rw [hEq, List.append_nil], hFinal.symm⟩
  · obtain ⟨rfl, hFinal⟩ := hEnd.eq_of_final (next?_final s')
    exact ⟨by rw [hEq, List.append_nil], hFinal⟩

theorem remaining_of_next {s s' : σ} {t : τ} (h : next? s = some (t, s')) :
    remaining s = t :: remaining s' :=
  (Passes.one h).remaining_eq.1

theorem remaining_of_end {s : σ} (h : next? s = none) : remaining s = [] :=
  ((passes_final s).eq_of_final h).1

theorem head?_remaining (s : σ) : (remaining s).head? = (next? s).map Prod.fst := by
  cases hNext : next? s with
  | none => rw [remaining_of_end hNext]; rfl
  | some x => rw [remaining_of_next hNext]; rfl

theorem span_eq_takeWhile (test : τ → Bool) (s : σ) :
    (span test s).1 = (remaining s).takeWhile test := by
  obtain ⟨passed, rest, hSpan, hPasses, hAll, hStop⟩ := spanAfter_eq test [] s
  have hNoMore : (remaining rest).takeWhile test = [] := by
    cases hNext : next? rest with
    | none => rw [remaining_of_end hNext, List.takeWhile_nil]
    | some x =>
      rw [remaining_of_next hNext, List.takeWhile_cons_of_neg]
      rw [hStop x.1 x.2 hNext]
      exact Bool.false_ne_true
  rw [span, hSpan, hPasses.remaining_eq.1, List.takeWhile_append_of_pos hAll, hNoMore,
    List.append_nil]
  rfl

theorem next?_span {test : τ → Bool} {s rest : σ} {t : τ}
    (h : next? (span test s).2 = some (t, rest)) : test t = false := by
  obtain ⟨passed, last, hSpan, -, -, hStop⟩ := spanAfter_eq test [] s
  rw [span, hSpan] at h
  exact hStop t rest h

/-! ## Offsets -/

/-- Inputs whose offset grows with every element. -/
class Advancing (σ : Type) {τ : Type} [Source σ τ] : Prop where
  offset_next {s s' : σ} {t : τ} : next? s = some (t, s') → (pos s).offset < (pos s').offset

section Advancing

variable [Advancing σ]

theorem Passes.offset_add_length_le {s s' : σ} {passed : List τ} (h : Passes s passed s') :
    (pos s).offset + passed.length ≤ (pos s').offset := by
  induction h with
  | stay _ => simp
  | move hNext _ ih =>
    have hStep := Advancing.offset_next hNext
    rw [List.length_cons]
    omega

/-- From one start, offsets are ordered as the numbers of elements passed. -/
theorem Passes.offset_lt_iff {s a b : σ} {xs ys : List τ} (ha : Passes s xs a)
    (hb : Passes s ys b) : (pos a).offset < (pos b).offset ↔ xs.length < ys.length := by
  rcases ha.comparable hb with ⟨zs, rfl, h⟩ | ⟨zs, rfl, h⟩
  · have hOffset := h.offset_add_length_le
    cases h with
    | stay _ => simp
    | move _ _ =>
      rw [List.length_cons] at hOffset
      rw [List.length_append, List.length_cons]
      omega
  · have hOffset := h.offset_add_length_le
    rw [List.length_append]
    omega

theorem Reaches.offset_le {s s' : σ} (h : Reaches s s') : (pos s).offset ≤ (pos s').offset := by
  obtain ⟨passed, h⟩ := h
  have hOffset := h.offset_add_length_le
  omega

theorem Reaches.eq_of_offset_le {s s' : σ} (h : Reaches s s')
    (hOffset : (pos s').offset ≤ (pos s).offset) : s = s' := by
  obtain ⟨passed, h⟩ := h
  cases h with
  | stay _ => rfl
  | move hNext hRest =>
    have hLength := (Passes.move hNext hRest).offset_add_length_le
    rw [List.length_cons] at hLength
    omega

/-- Among the cursors reached from one, the offset determines the cursor. -/
theorem Reaches.eq_of_offset_eq {s a b : σ} (ha : Reaches s a) (hb : Reaches s b)
    (hOffset : (pos a).offset = (pos b).offset) : a = b := by
  rcases ha.comparable hb with h | h
  · exact h.eq_of_offset_le (Int.le_of_eq hOffset.symm)
  · exact (h.eq_of_offset_le (Int.le_of_eq hOffset)).symm

theorem Reaches.offset_le_final {s s' : σ} (h : Reaches s s') :
    (pos s').offset ≤ (pos (final s)).offset := by
  obtain ⟨passed, h⟩ := h
  rw [h.remaining_eq.2]
  exact (passes_final s').reaches.offset_le

end Advancing

end Source

instance : Source.Advancing Text where
  offset_next {s s' t} hNext := by
    rw [Text.next?_eq] at hNext
    change s.pos.offset < s'.pos.offset
    split at hNext
    · cases hNext
    · rename_i b rest hRest
      cases hNext
      have hWidth := Utf8.width_read_pos b rest
      dsimp only
      unfold Position.after
      split <;> dsimp only <;> omega

instance {τ : Type} : Source.Advancing (Tokens τ) where
  offset_next {s s' t} hNext := by
    rw [Tokens.next?_eq] at hNext
    change s.pos.offset < s'.pos.offset
    split at hNext
    · cases hNext
    · cases hNext
      unfold Tokens.pos
      dsimp only
      omega

instance : Source.Advancing Sealed where
  offset_next hNext := nomatch hNext

end Descent
