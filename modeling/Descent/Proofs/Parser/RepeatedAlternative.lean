import Descent.Proofs.Hint.Rendering
import Descent.Proofs.Parser.Alternatives
import Descent.Proofs.Parser.EffectFree

/-! # An alternative tried again

Where no effect is involved, trying the first alternative once more behind the second changes
nothing that a user sees: it is refused again, with the same hint, and the messages that this adds
have all been said before. -/

namespace Descent

variable {σ τ υ α : Type}

/-- What a user gets to see of a tagged reply: of its hint the position, the expectations and the
line. -/
structure Display (σ υ α : Type) where
  consumed : Bool
  isOk : Bool
  value : Option α
  state : Option (State σ υ)
  pos : Position
  expected : List Bytes
  line : Bytes

def Tagged.display (t : Tagged (Reply σ υ α)) : Display σ υ α where
  consumed := t.consumed
  isOk := t.value.isOk
  value := t.value.value?
  state := t.value.state?
  pos := t.value.hint.pos
  expected := t.value.hint.expected
  line := t.value.hint.render

theorem Computation.ofPlain_self (x : Plain α) : Computation.ofPlain x = x := by
  cases x <;> rfl

theorem Hint.Alike.display_error_eq {a b : Hint} (h : Alike a b) (consumed : Bool) :
    (⟨consumed, .error a⟩ : Tagged (Reply σ υ α)).display =
      Tagged.display ⟨consumed, .error b⟩ := by
  simp only [Tagged.display, Reply.hint, h.pos, h.expected_eq, h.render_eq]
  rfl

namespace Parser

theorem display_fallback_again (x y : Plain (Tagged (Reply σ υ α))) :
    Tagged.display <$> (x >>= fallback (y >>= fallback x)) =
      Tagged.display <$> (x >>= fallback y) := by
  cases x with
  | error f => rfl
  | ok t =>
    change Tagged.display <$> fallback (y >>= fallback (.ok t)) t = Tagged.display <$> fallback y t
    cases hFirst : t.refused? with
    | none => simp only [fallback, hFirst]
    | some h =>
      simp only [fallback, hFirst]
      cases y with
      | error f => rfl
      | ok t' =>
        change Tagged.display <$> Tagged.follow false h <$> fallback (Except.ok t) t' = _
        cases hSecond : t'.refused? with
        | none =>
          simp only [fallback, hSecond]
          rfl
        | some h' =>
          -- Both are refused: the hint of the first counts once more behind that of the second.
          simp only [fallback, hSecond]
          rw [Tagged.eq_of_refused? hFirst, Tagged.eq_of_refused? hSecond]
          exact congrArg Except.ok ((Hint.merge_again_alike h h').display_error_eq false)

/-- Nothing is asked of the parsers: plain evaluation has no effects. -/
theorem display_orElse_again (p q : Parser Plain σ υ α) (s : State σ υ) :
    Tagged.display <$> (p.orElse (q.orElse p)).observe s =
      Tagged.display <$> (p.orElse q).observe s := by
  change Tagged.display <$> (p.orElse (q.orElse p)).view (.refl Plain) s =
    Tagged.display <$> (p.orElse q).view (.refl Plain) s
  rw [view_orElse_eq, view_orElse_eq, view_orElse_eq]
  exact display_fallback_again _ _

end Parser

variable [Source σ τ] [Shown τ] {ε ρ : Type → Type} {rules : {α : Type} → ρ α → Grammar τ υ ε ρ α}

/-- Whichever base computation runs the grammar, it comes to the outcome and does nothing else. -/
structure Grammar.ComesTo (rules : {α : Type} → ρ α → Grammar τ υ ε ρ α) (bound : Nat)
    (g : Grammar τ υ ε ρ α) (s : State σ υ) (outcome : Plain (Tagged (Reply σ υ α))) : Prop where
  conservative (m : Type → Type) [Computation m] [Conservative m]
    (perform : {α : Type} → ε α → m α) :
    (Rulebook.parser perform bound (Rulebook.ofGrammars rules) g).observe s =
      Computation.ofPlain outcome
  byContinuation (ν ω : Type) (perform : {α : Type} → ε α → Cont ν ω α) :
    ((Rulebook.parser perform bound (Rulebook.ofGrammars rules) g).observe s).IsPlain outcome

theorem Grammar.EffectFree.comesTo {g : Grammar τ υ ε ρ α} (hg : g.EffectFree)
    (hRules : ∀ {α : Type} (name : ρ α), (rules name).EffectFree)
    (perform : {α : Type} → ε α → Plain α) (bound : Nat) (s : State σ υ) :
    Grammar.ComesTo rules bound g s
      ((Rulebook.parser perform bound (Rulebook.ofGrammars rules) g).observe s) where
  conservative m _ _ perform' :=
    ((Rulebook.related_of_effectFree (S := .ofPlain m) perform perform' rfl hRules hg).observe
      s).eq_ofPlain
  byContinuation ν ω perform' :=
    Cont.Follows.isPlain ((Rulebook.related_of_effectFree (S := .byContinuation ν ω) perform
      perform' rfl hRules hg).observe s)

/-- Conservative bases are the lawful ones, plain evaluation and evaluation with aborts among them,
and the one that records a trace. -/
theorem repeated_alternative_invisible :
    (∀ a b : Hint, (a.merge (b.merge a)).pos = (a.merge b).pos ∧
      (a.merge (b.merge a)).expected = (a.merge b).expected ∧
      (a.merge (b.merge a)).render = (a.merge b).render) ∧
    (∀ (p q : Parser Plain σ υ α) (s : State σ υ),
      Tagged.display <$> (p.orElse (q.orElse p)).observe s =
        Tagged.display <$> (p.orElse q).observe s) ∧
    ∀ (rules : {α : Type} → ρ α → Grammar τ υ ε ρ α)
      (_ : ∀ {α : Type} (name : ρ α), (rules name).EffectFree) (p q : Grammar τ υ ε ρ α)
      (_ : p.EffectFree) (_ : q.EffectFree) (bound : Nat) (s : State σ υ),
      ∃ again once : Plain (Tagged (Reply σ υ α)),
        Tagged.display <$> again = Tagged.display <$> once ∧
        (p.orElse (q.orElse p)).ComesTo rules bound s again ∧
        (p.orElse q).ComesTo rules bound s once := by
  refine ⟨fun a b => ?_, Parser.display_orElse_again, ?_⟩
  · have hAlike := Hint.merge_again_alike a b
    exact ⟨hAlike.pos, hAlike.expected_eq, hAlike.render_eq⟩
  · intro rules hRules p q hp hq bound s
    let perform : {α : Type} → ε α → Plain α := fun _ => .error .unsupported
    have hAgain : (p.orElse (q.orElse p)).EffectFree := ⟨hp, hq, hp⟩
    have hOnce : (p.orElse q).EffectFree := ⟨hp, hq⟩
    exact ⟨_, _, Parser.display_orElse_again _ _ s, hAgain.comesTo hRules perform bound s,
      hOnce.comesTo hRules perform bound s⟩

/-- At `c` an `a` is missed and an unnamed thing declared unexpected: the `c` met and the `a` are
named once, though the messages of the `a` are there twice. -/
theorem repeated_alternative_invisible_refused :
    let p : Grammar Rune Unit (fun _ => Empty) (fun _ => Empty) Rune := .char (.ofChar 'a')
    let q : Grammar Rune Unit (fun _ => Empty) (fun _ => Empty) Rune := .unexpected []
    let run (g : Grammar Rune Unit (fun _ => Empty) (fun _ => Empty) Rune) :
        Plain (Tagged (Reply Text Unit Rune)) :=
      (Rulebook.parser nofun 1 (Rulebook.ofGrammars nofun) g).observe ⟨.ofBytes [] [99], ()⟩
    ∃ h h', run (p.orElse (q.orElse p)) = .ok ⟨false, .error h⟩ ∧
      run (p.orElse q) = .ok ⟨false, .error h'⟩ ∧ h.messages.length = 5 ∧ h'.messages.length = 3 ∧
      h.pos = h'.pos ∧ h.expected = h'.expected ∧ h.render = h'.render := by
  intro p q run
  have hAgain : run (p.orElse (q.orElse p)) = .ok ⟨false, .error _⟩ := rfl
  have hOnce : run (p.orElse q) = .ok ⟨false, .error _⟩ := rfl
  obtain ⟨-, -, hGrammars⟩ :=
    repeated_alternative_invisible (σ := Text) (τ := Rune) (υ := Unit) (α := Rune)
      (ε := fun _ => Empty) (ρ := fun _ => Empty)
  obtain ⟨again, once, hDisplay, hComesToAgain, hComesToOnce⟩ :=
    hGrammars nofun nofun p q trivial trivial 1 ⟨.ofBytes [] [99], ()⟩
  have hRunAgain : run (p.orElse (q.orElse p)) = again :=
    (hComesToAgain.conservative Plain nofun).trans (Computation.ofPlain_self again)
  have hRunOnce : run (p.orElse q) = once :=
    (hComesToOnce.conservative Plain nofun).trans (Computation.ofPlain_self once)
  rw [← hRunAgain, ← hRunOnce, hAgain, hOnce] at hDisplay
  have hSeen := Except.ok.inj hDisplay
  exact ⟨_, _, hAgain, hOnce, by decide, by decide, congrArg Display.pos hSeen,
    congrArg Display.expected hSeen, congrArg Display.line hSeen⟩

end Descent
