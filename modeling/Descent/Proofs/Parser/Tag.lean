import Descent.Computation.Effect
import Descent.Proofs.Computation.Bases
import Descent.Proofs.Parser.Contract

/-! # The tag tells the truth

A success tagged as empty leaves the input where it was, and a success tagged as consumed stands
behind at least one element. This is a closed contract, so it holds of every grammar, with effects,
recursion and repetition, in every uniform base computation. Failures carry no state, and nothing is
claimed of their tags. -/

namespace Descent

open Source

variable {σ τ υ : Type} [Source σ τ]

/-- Where a success with a tag stands. -/
def Moved (before : σ) (consumed : Bool) (after : σ) : Prop :=
  if consumed then ∃ passed, passed ≠ [] ∧ Passes before passed after else after = before

theorem moved_false {before after : σ} : Moved before false after ↔ after = before := by
  simp [Moved]

theorem moved_true {before after : σ} :
    Moved before true after ↔ ∃ passed, passed ≠ [] ∧ Passes before passed after := by
  simp [Moved]

namespace Moved

theorem reaches {before after : σ} {consumed : Bool} (h : Moved before consumed after) :
    Reaches before after := by
  cases consumed with
  | false =>
    rw [moved_false.mp h]
    exact .refl before
  | true =>
    obtain ⟨passed, _, hPasses⟩ := moved_true.mp h
    exact hPasses.reaches

theorem trans {a b c : σ} {consumed consumed' : Bool} (hab : Moved a consumed b)
    (hbc : Moved b consumed' c) : Moved a (consumed || consumed') c := by
  cases consumed with
  | false =>
    rw [moved_false.mp hab] at hbc
    exact hbc
  | true =>
    obtain ⟨xs, hNonempty, hPasses⟩ := moved_true.mp hab
    obtain ⟨ys, hRest⟩ := hbc.reaches
    exact moved_true.mpr ⟨xs ++ ys, List.append_ne_nil_of_left_ne_nil hNonempty ys,
      hPasses.trans hRest⟩

end Moved

/-- Successes stand where their tag says; failures are free. -/
def Contract.tag : Contract σ υ where
  ok s consumed s' _ := Moved s.input consumed s'.input
  error _ _ _ := True

theorem Contract.tag_closed : (Contract.tag : Contract σ υ).Closed where
  stay hInput := moved_false.mpr hInput
  pass hNonempty hPasses := moved_true.mpr ⟨_, hNonempty, hPasses⟩
  refuse _ := trivial
  follow {α s s' consumed consumed' h r} hFirst hRest := by
    rcases r with ⟨a, s'', h'⟩ | h'
    · have hMoved : Moved s.input (consumed || consumed') s''.input := hFirst.trans hRest
      cases consumed' <;> exact hMoved
    · cases consumed' <;> trivial
  replace {α s h r} _ hr := by
    cases r <;> exact hr
  halt hOk _ := hOk
  attempt _ := trivial
  relabel _ _ := trivial

variable [Shown τ] {ε ρ : Type → Type} {m : Type → Type} [Computation m] [UniformComputation m]

theorem observe_tag_sound (perform : {α : Type} → ε α → m α) (bound : Nat)
    (rules : {α : Type} → ρ α → Grammar τ υ ε ρ α) {α : Type} (g : Grammar τ υ ε ρ α)
    (s : State σ υ) :
    Delivers
      (fun t => ∀ a s' h, t.value = .ok a s' h →
        (t.consumed = false → s'.input = s.input) ∧
        (t.consumed = true → ∃ passed, passed ≠ [] ∧ Passes s.input passed s'.input ∧
          remaining s.input = passed ++ remaining s'.input))
      ((Rulebook.parser perform bound (Rulebook.ofGrammars rules) g).observe s) := by
  apply ((Rulebook.parser_keeps Contract.tag_closed perform bound rules g).observe s).mono
  rintro ⟨consumed, r⟩ hAllowed a s' h rfl
  constructor
  · rintro rfl
    exact moved_false.mp hAllowed
  · rintro rfl
    obtain ⟨passed, hNonempty, hPasses⟩ := moved_true.mp hAllowed
    exact ⟨passed, hNonempty, hPasses, hPasses.remaining_eq.1⟩

/-- On `ab`, one rune is read or none, and both outcomes are followed. -/
theorem observe_tag_sound_branching :
    let g : Grammar Rune Unit (Effect Unit) (fun _ => Empty) Unit :=
      (Grammar.lift (.among [true, false])).bind fun more =>
        if more then Grammar.anyToken.map fun _ => () else .pure ()
    let p : Parser Nondet Text Unit Unit :=
      Rulebook.parser Performs.perform 1 (Rulebook.ofGrammars nofun) g
    let start : Text := .ofBytes [] [97, 98]
    ∃ behind : Text,
      p.observe ⟨start, ()⟩ =
        .ok [⟨true, .ok () ⟨behind, ()⟩ (.unknown behind.pos)⟩,
          ⟨false, .ok () ⟨start, ()⟩ (.unknown start.pos)⟩] ∧
      ∃ passed, passed ≠ [] ∧ Passes start passed behind := by
  intro g p start
  have hSound := observe_tag_sound (m := Nondet) Performs.perform 1 nofun g ⟨start, ()⟩
  refine ⟨⟨[98], ⟨[], 1, 1, 2⟩⟩, rfl, ?_⟩
  obtain ⟨passed, hNonempty, hPasses, _⟩ :=
    (Nondet.delivers_iff.mp hSound _ rfl _ (.head _) _ _ _ rfl).2 rfl
  exact ⟨passed, hNonempty, hPasses⟩

end Descent
