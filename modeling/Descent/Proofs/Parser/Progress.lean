import Descent.Grammar.Parser
import Descent.Proofs.Computation.Safety

/-! # Progress

A parser advances on some of its values when every success with one of them has consumed input. The
combinators keep this, and they keep any safety as long as no round of a repetition is empty. The
two go together, since a repetition is safe because its rounds advance. On a failure nothing is
asked. -/

namespace Descent

variable {σ τ υ α β : Type}

namespace Reply

/-- A success with a value in `P` is tagged as consumed. -/
def Advanced (P : α → Prop) (consumed : Bool) : Reply σ υ α → Prop
  | ok a _ _ => P a → consumed = true
  | error _ => True

variable {P : α → Prop} {Q : β → Prop} {consumed : Bool} {r : Reply σ υ α}

theorem advanced_of_consumed (r : Reply σ υ α) : r.Advanced P true := by
  cases r with
  | ok a s h => exact fun _ => rfl
  | error h => trivial

theorem Advanced.consumed_eq_true (hr : r.Advanced P consumed) (h : ∀ a, P a)
    (hOk : r.isOk = true) : consumed = true := by
  cases r with
  | ok a s hint => exact hr (h a)
  | error hint => cases hOk

theorem Advanced.mono {P' : α → Prop} (hr : r.Advanced P consumed) (h : ∀ a, P' a → P a) :
    r.Advanced P' consumed := by
  cases r with
  | ok a s hint => exact fun ha => hr (h a ha)
  | error hint => trivial

theorem Advanced.map {f : α → β} (hr : r.Advanced P consumed) (h : ∀ a, Q (f a) → P a) :
    (r.map f).Advanced Q consumed := by
  cases r with
  | ok a s hint => exact fun ha => hr (h a ha)
  | error hint => trivial

theorem Advanced.after (hr : r.Advanced P consumed) (earlier : Hint) :
    (r.after earlier).Advanced P consumed := by
  cases r <;> exact hr

end Reply

/-- One condition for a value, another for the end. -/
def Yield.All (C E : Prop) : Yield α → Prop
  | .value _ => C
  | .over => E

namespace Parser

variable {m : Type → Type} [Computation m] (G : Safety m)

def Ahead (P : α → Prop) (t : Tagged (m (Reply σ υ α))) : Prop :=
  G.holds (Reply.Advanced P t.consumed) t.value

/-- The parser is safe, and its successes with values in `P` consume input. -/
def Advances (P : α → Prop) (p : Parser m σ υ α) : Prop := ∀ s, G.holds (Ahead G P) (p s)

namespace Advances

variable {G} {P : α → Prop} {Q : β → Prop}

theorem reply {consumed : Bool} {r : Reply σ υ α} (h : r.Advanced P consumed) :
    G.holds (Ahead G P) (Parser.reply consumed r : m (Tagged (m (Reply σ υ α)))) :=
  G.pure (G.pure h)

theorem observe {p : Parser m σ υ α} (hp : Advances G P p) (s : State σ υ) :
    G.holds (fun t => t.value.Advanced P t.consumed) (p.observe s) :=
  G.bind (hp s) fun _ ht => G.bind ht fun _ hr => G.pure hr

theorem run {p : Parser m σ υ α} (hp : Advances G P p) (s : State σ υ) :
    G.holds (fun _ => True) (p.run s) :=
  G.bind (hp s) fun _ ht => G.mono ht fun _ _ => trivial

theorem mono {P' : α → Prop} {p : Parser m σ υ α} (hp : Advances G P p) (h : ∀ a, P' a → P a) :
    Advances G P' p :=
  fun s => G.mono (hp s) fun _ ht => G.mono ht fun _ hr => hr.mono h

theorem map {p : Parser m σ υ α} (hp : Advances G P p) {f : α → β} (h : ∀ a, Q (f a) → P a) :
    Advances G Q (p.map f) := fun s =>
  G.bind (hp s) fun _ ht => G.pure (G.bind ht fun _ hr => G.pure (hr.map h))

theorem afterHint {next : m (Tagged (m (Reply σ υ α)))} (hNext : G.holds (Ahead G P) next)
    (h : Hint) : G.holds (Ahead G P) (Parser.afterHint h next) := by
  apply G.bind hNext
  rintro ⟨consumed, inner⟩ hInner
  cases consumed with
  | true => exact G.pure hInner
  | false => exact G.pure (G.bind hInner fun r hr => G.pure (hr.after h))

theorem joined {next : m (Tagged (m (Reply σ υ α)))} (hNext : G.holds (Ahead G P) next)
    (h : Hint) : G.holds (fun _ => True) (Parser.joined h next) := by
  apply G.bind hNext
  rintro ⟨consumed, inner⟩ hInner
  cases consumed with
  | true => exact G.mono hInner fun _ _ => trivial
  | false => exact G.bind hInner fun _ _ => G.pure trivial

/-- Either of the two consumes input on every way to a success in `R`. -/
theorem bind {p : Parser m σ υ α} {f : α → Parser m σ υ β} {Q : α → β → Prop} {R : β → Prop}
    (hp : Advances G P p) (hf : ∀ a, Advances G (Q a) (f a)) (h : ∀ a b, R b → P a ∨ Q a b) :
    Advances G R (p.bind f) := by
  intro s
  apply G.bind (hp s)
  rintro ⟨consumed, inner⟩ hInner
  apply G.bind hInner
  rintro (⟨a, s', hint⟩ | hint) hr
  · cases consumed with
    | true =>
      have hJoined := joined (hf a s') hint
      exact G.pure (G.mono hJoined fun r _ => r.advanced_of_consumed)
    | false =>
      have hIdle : ¬P a := fun ha => Bool.false_ne_true (hr ha)
      have hNext := (hf a).mono fun b hb => (h a b hb).resolve_left hIdle
      exact afterHint (hNext s') hint
  · exact reply trivial

theorem orElse {p q : Parser m σ υ α} (hp : Advances G P p) (hq : Advances G P q) :
    Advances G P (p.orElse q) := by
  intro s
  apply G.bind (hp s)
  rintro ⟨consumed, inner⟩ hInner
  cases consumed with
  | true => exact G.pure hInner
  | false =>
    apply G.bind hInner
    rintro (⟨a, s', hint⟩ | hint) hr
    · exact reply hr
    · exact afterHint (hq s) hint

theorem attempt {p : Parser m σ υ α} (hp : Advances G P p) : Advances G P p.attempt := by
  intro s
  apply G.bind (hp s)
  rintro ⟨consumed, inner⟩ hInner
  cases consumed with
  | true =>
    apply G.bind hInner
    rintro (⟨a, s', hint⟩ | hint) hr
    · exact reply hr
    · exact reply trivial
  | false => exact G.pure hInner

theorem label {p : Parser m σ υ α} (hp : Advances G P p) (name : Bytes) :
    Advances G P (p.label name) := by
  intro s
  apply G.bind (hp s)
  rintro ⟨consumed, inner⟩ hInner
  cases consumed with
  | true => exact G.pure hInner
  | false =>
    apply G.pure
    apply G.bind hInner
    rintro (⟨a, s', hint⟩ | hint) hr
    · exact G.pure hr
    · exact G.pure trivial

theorem lookAhead {p : Parser m σ υ α} [Source σ τ] (hp : Advances G P p) :
    Advances G (fun _ => False) p.lookAhead := by
  intro s
  apply G.bind (hp s)
  rintro ⟨consumed, inner⟩ hInner
  apply G.bind hInner
  rintro (⟨a, s', hint⟩ | hint) hr
  · exact reply False.elim
  · exact reply trivial

theorem traced [Source σ τ] {p : Parser m σ υ α} (hp : Advances G P p) (name : Bytes) :
    Advances G P (p.traced name) := by
  unfold Parser.traced
  have hTell := G.tell
  generalize (Computation.tell? : Option (Event → m Unit)) = tell? at hTell ⊢
  cases tell? with
  | none => exact hp
  | some tell =>
    intro s
    apply G.bind (hTell tell rfl _)
    intro _ _
    apply G.bind (hp s)
    intro t ht
    apply G.pure
    apply G.bind ht
    intro r hr
    exact G.bind (hTell tell rfl _) fun _ _ => G.pure hr

/-! ## Repetition -/

section

variable {C E D : Prop} {rule : Repetition} {p : Parser m σ υ (Yield α)}

/-- Whatever ends a repetition with a success has to consume input if the whole is to advance. A
failure that is forgiven never does. -/
theorem turned_absorb (hMust : rule.mustConsume = true → G.tolerant ∨ C)
    (hEnd : D → rule.forgiving = false ∧ E ∧ (rule.enough ≠ none → C)) (g : Gathered σ υ α)
    {consumed : Bool} {r : Reply σ υ (Yield α)} (hr : r.Advanced (Yield.All C E) consumed) :
    G.holds (Turn.All (fun _ => True) (Reply.Advanced (fun _ => D) consumed))
      (turned (rule.absorb g consumed r)) := by
  unfold Repetition.absorb
  rcases r with ⟨a | _, s', hint⟩ | hint
  · dsimp only
    generalize (if consumed = true then hint else g.hint.merge hint) = hint
    split
    · rename_i hIdle
      rw [Bool.and_eq_true, Bool.not_eq_true'] at hIdle
      apply G.fault
      intro _
      refine (hMust hIdle.1).resolve_right fun hC => ?_
      exact Bool.false_ne_true (hIdle.2.symm.trans (hr hC))
    · split
      · rename_i hEnough
        exact G.pure fun hD => hr ((hEnd hD).2.2 (by simp [hEnough]))
      · exact G.pure trivial
  · exact G.pure fun hD => hr (hEnd hD).2.1
  · dsimp only
    split
    · exact G.pure trivial
    · split
      · rename_i hForgiving
        exact G.pure fun hD => absurd ((hEnd hD).1.symm.trans hForgiving) Bool.false_ne_true
      · exact G.pure trivial

variable (hMust : rule.mustConsume = true → G.tolerant ∨ C)
  (hp : Advances G (Yield.All C E) p)

include hMust hp

theorem innerRound (g : Gathered σ υ α) :
    G.holds (Turn.All (fun _ => True) (fun _ => True)) (Parser.innerRound rule p g) := by
  apply G.bind (hp g.state)
  intro t ht
  apply G.bind ht
  intro r hr
  apply G.mono (turned_absorb hMust False.elim g hr)
  rintro (_ | _) _ <;> trivial

theorem innerRounds (rounds : Nat) (g : Gathered σ υ α) (r : Reply σ υ (Yield α)) :
    G.holds (fun _ => True) (Parser.innerRounds rounds rule p g r) := by
  apply G.bind (turned_absorb (E := E) hMust False.elim g r.advanced_of_consumed)
  rintro (g' | final) _
  · exact G.loop (fun g _ => innerRound hMust hp g) rounds trivial
  · exact G.pure trivial

theorem outerRound (hEnd : D → rule.forgiving = false ∧ E ∧ (rule.enough ≠ none → C))
    (rounds : Nat) (g : Gathered σ υ α) :
    G.holds (Turn.All (fun _ => True) (Ahead G fun _ => D))
      (Parser.outerRound rounds rule p g) := by
  apply G.bind (hp g.state)
  rintro ⟨consumed, inner⟩ hInner
  cases consumed with
  | true =>
    apply G.pure
    apply G.bind hInner
    intro r _
    exact G.mono (innerRounds hMust hp rounds g r) fun r _ => r.advanced_of_consumed
  | false =>
    apply G.bind hInner
    intro r hr
    apply G.bind (turned_absorb hMust hEnd g hr)
    rintro (g' | final) hTurn
    · exact G.pure trivial
    · exact G.pure (G.pure hTurn)

theorem gather [Source σ τ] (hEnd : D → rule.forgiving = false ∧ E ∧ (rule.enough ≠ none → C))
    (rounds : Nat) : Advances G (fun _ => D) (Parser.gather rounds rule p) :=
  fun _ => G.loop (fun g _ => outerRound hMust hp hEnd rounds g) rounds trivial

end

variable [Source σ τ] {p : Parser m σ υ α} {C : Prop} (hp : Advances G (fun _ => C) p)

include hp

theorem values (E : Prop) : Advances G (Yield.All C E) (p.map Yield.value) :=
  hp.map fun _ h => h

theorem many (hMust : G.tolerant ∨ C) (rounds : Nat) :
    Advances G (fun _ => False) (Parser.many rounds p) :=
  gather (fun _ => hMust) (hp.values True) False.elim rounds

theorem count (rounds n : Nat) : Advances G (fun _ => n ≠ 0 ∧ C) (Parser.count rounds n p) := by
  unfold Parser.count
  split
  · rename_i hn
    exact fun _ => reply fun h => absurd hn h.1
  · exact gather (fun h => absurd h Bool.false_ne_true) (hp.values True)
      (fun h => ⟨rfl, trivial, fun _ => h.2⟩) rounds

theorem manyTill {stop : Parser m σ υ β} {E : Prop} (hStop : Advances G (fun _ => E) stop)
    (hMust : G.tolerant ∨ C) (rounds : Nat) :
    Advances G (fun _ => E) (Parser.manyTill rounds p stop) := by
  have hOver : Advances G (Yield.All C E) (stop.map fun _ => (.over : Yield α)) :=
    hStop.map fun _ h => h
  exact gather (fun _ => hMust) (hOver.orElse (hp.values E))
    (fun hE => ⟨rfl, hE, fun h => absurd rfl h⟩) rounds

end Advances

end Parser

end Descent
