import Descent.Parser.Repetition
import Descent.Parser.Traced
import Descent.Proofs.Computation.Lawful

/-! # The combinators seen from outside

Once both layers of a parser have run, what is left of it is a computation of a tagged reply. In a
lawful base computation the combinators can be told by these computations alone: for each of them an
equation gives what is seen of the whole in terms of what is seen of the parts, although the
combinators themselves distribute effects over the layers in different ways. Repetition too is told
that way, with its rounds before and after the first consumption. -/

namespace Descent

variable {σ τ υ α β : Type}

namespace Tagged

/-- A reply that follows a success: the tags add up, and the hint of the success counts where
nothing more was consumed. -/
def follow (consumed : Bool) (earlier : Hint) (t : Tagged (Reply σ υ α)) : Tagged (Reply σ υ α) :=
  ⟨consumed || t.consumed, if t.consumed then t.value else t.value.after earlier⟩

def refused? : Tagged (Reply σ υ α) → Option Hint
  | ⟨false, .error h⟩ => some h
  | _ => none

def attempt (t : Tagged (Reply σ υ α)) : Tagged (Reply σ υ α) :=
  ⟨t.consumed && t.value.isOk, t.value⟩

def label (name : Bytes) : Tagged (Reply σ υ α) → Tagged (Reply σ υ α)
  | ⟨false, .error h⟩ => ⟨false, .error (h.relabel name)⟩
  | t => t

def lookAhead [Source σ τ] (s : State σ υ) : Tagged (Reply σ υ α) → Tagged (Reply σ υ α)
  | ⟨_, .ok a _ _⟩ => ⟨false, .ok a s (.unknown s.pos)⟩
  | ⟨consumed, .error h⟩ => ⟨consumed, .error h⟩

end Tagged

namespace Parser

variable {m n : Type → Type} [Computation m] [Computation n] (φ : Transfer m n)

/-- What is seen of a parser from a state, through a transfer. -/
def view (p : Parser m σ υ α) (s : State σ υ) : n (Tagged (Reply σ υ α)) := φ.carry (p.observe s)

theorem view_eq (p : Parser m σ υ α) (s : State σ υ) :
    p.view φ s =
      φ.carry (p s) >>= fun t => φ.carry t.value >>= fun r => pure ⟨t.consumed, r⟩ := by
  simp only [view, observe, φ.carry_bind, φ.carry_pure]

theorem carry_turned (outcome : Except Fault (Turn α β)) :
    φ.carry (turned outcome) = turned outcome := by
  cases outcome with
  | error f => exact φ.carry_fault f
  | ok turn => exact φ.carry_pure turn

/-- What a reply is followed by, seen from outside. -/
def sequel (f : α → Parser m σ υ β) : Tagged (Reply σ υ α) → n (Tagged (Reply σ υ β))
  | ⟨consumed, .error h⟩ => pure ⟨consumed, .error h⟩
  | ⟨consumed, .ok a s h⟩ => Tagged.follow consumed h <$> (f a).view φ s

@[simp] theorem sequel_error (f : α → Parser m σ υ β) (consumed : Bool) (h : Hint) :
    sequel φ f ⟨consumed, .error h⟩ = pure ⟨consumed, .error h⟩ := rfl

@[simp] theorem sequel_ok (f : α → Parser m σ υ β) (consumed : Bool) (a : α) (s : State σ υ)
    (h : Hint) :
    sequel φ f ⟨consumed, .ok a s h⟩ = Tagged.follow consumed h <$> (f a).view φ s := rfl

section

variable [LawfulMonad n]

/-- Whatever follows the two layers of a parser follows what is seen of it. -/
theorem view_bind_eq (p : Parser m σ υ α) (s : State σ υ) (k : Tagged (Reply σ υ α) → n β) :
    p.view φ s >>= k =
      φ.carry (p s) >>= fun t => φ.carry t.value >>= fun r => k ⟨t.consumed, r⟩ := by
  simp only [view, observe, φ.carry_bind, φ.carry_pure, bind_assoc, pure_bind]

theorem carry_run (p : Parser m σ υ α) (s : State σ υ) :
    φ.carry (p.run s) = Tagged.value <$> p.view φ s := by
  rw [map_eq_pure_bind, view_bind_eq, run]
  simp only [φ.carry_bind, bind_pure]

theorem view_reply (consumed : Bool) (f : State σ υ → Reply σ υ α) (s : State σ υ) :
    view φ (fun s => reply consumed (f s) : Parser m σ υ α) s = pure ⟨consumed, f s⟩ := by
  simp only [view_eq, reply, φ.carry_pure, pure_bind]

theorem view_pure [Source σ τ] (a : α) (s : State σ υ) :
    (Parser.pure a : Parser m σ υ α).view φ s = pure ⟨false, .ok a s (.unknown s.pos)⟩ :=
  view_reply φ false (fun s => .ok a s (.unknown s.pos)) s

theorem view_lift [Source σ τ] (x : m α) (s : State σ υ) :
    (lift x : Parser m σ υ α).view φ s =
      (fun a => ⟨false, .ok a s (.unknown s.pos)⟩) <$> φ.carry x := by
  rw [map_eq_pure_bind, view_eq, lift]
  simp only [reply, φ.carry_bind, φ.carry_pure, bind_assoc, pure_bind]

theorem view_map (f : α → β) (p : Parser m σ υ α) (s : State σ υ) :
    (p.map f).view φ s = Tagged.map (Reply.map f) <$> p.view φ s := by
  rw [map_eq_pure_bind, view_bind_eq, view_eq, Parser.map]
  simp only [φ.carry_bind, φ.carry_pure, bind_assoc, pure_bind, Tagged.consumed_map,
    Tagged.value_map]
  rfl

theorem carry_afterHint (earlier : Hint) (p : Parser m σ υ α) (s : State σ υ) :
    (φ.carry (afterHint earlier (p s)) >>= fun t =>
        φ.carry t.value >>= fun r => pure ⟨t.consumed, r⟩) =
      Tagged.follow false earlier <$> p.view φ s := by
  rw [map_eq_pure_bind, view_bind_eq, afterHint, φ.carry_bind, bind_assoc]
  congr 1
  funext t
  obtain ⟨consumed, inner⟩ := t
  cases consumed with
  | true => simp [Tagged.follow]
  | false => simp [Tagged.follow]

theorem carry_joined (earlier : Hint) (p : Parser m σ υ α) (s : State σ υ) :
    (φ.carry (joined earlier (p s)) >>= fun r => pure ⟨true, r⟩) =
      Tagged.follow true earlier <$> p.view φ s := by
  rw [map_eq_pure_bind, view_bind_eq, joined, φ.carry_bind, bind_assoc]
  congr 1
  funext t
  obtain ⟨consumed, inner⟩ := t
  cases consumed with
  | true => simp [Tagged.follow]
  | false => simp [Tagged.follow]

theorem view_bind (p : Parser m σ υ α) (f : α → Parser m σ υ β) (s : State σ υ) :
    (p.bind f).view φ s = p.view φ s >>= sequel φ f := by
  rw [view_bind_eq, view_eq, Parser.bind, φ.carry_bind, bind_assoc]
  congr 1
  funext t
  rw [φ.carry_bind, bind_assoc]
  congr 1
  funext r
  obtain ⟨consumed, inner⟩ := t
  cases r with
  | error h => simp [reply]
  | ok a s' h =>
    cases consumed with
    | true => simpa using carry_joined φ h (f a) s'
    | false => exact carry_afterHint φ h (f a) s'

theorem view_skip_of_ok {p : Parser m σ υ α} {s s' : State σ υ} {consumed : Bool} {a : α} {h : Hint}
    (hp : p.view φ s = pure ⟨consumed, .ok a s' h⟩) (q : Parser m σ υ β) :
    (p.skip q).view φ s =
      (fun t => (t.map (Reply.map fun _ => a)).follow consumed h) <$> q.view φ s' := by
  rw [skip, view_bind, hp, pure_bind, sequel_ok, view_map, Functor.map_map]

theorem view_orElse (p q : Parser m σ υ α) (s : State σ υ) :
    (p.orElse q).view φ s = p.view φ s >>= fun t =>
      match t.refused? with
      | some h => Tagged.follow false h <$> q.view φ s
      | none => pure t := by
  rw [view_bind_eq, view_eq, Parser.orElse, φ.carry_bind, bind_assoc]
  congr 1
  funext t
  obtain ⟨consumed, inner⟩ := t
  cases consumed with
  | true => simp [Tagged.refused?]
  | false =>
    rw [if_neg Bool.false_ne_true, φ.carry_bind, bind_assoc]
    congr 1
    funext r
    cases r with
    | error h => exact carry_afterHint φ h q s
    | ok a s' h => simp [reply, Tagged.refused?]

theorem view_attempt (p : Parser m σ υ α) (s : State σ υ) :
    p.attempt.view φ s = Tagged.attempt <$> p.view φ s := by
  rw [map_eq_pure_bind, view_bind_eq, view_eq, Parser.attempt, φ.carry_bind, bind_assoc]
  congr 1
  funext t
  obtain ⟨consumed, inner⟩ := t
  cases consumed with
  | true => simp [reply, Tagged.attempt]
  | false => simp [Tagged.attempt]

theorem view_label (p : Parser m σ υ α) (name : Bytes) (s : State σ υ) :
    (p.label name).view φ s = Tagged.label name <$> p.view φ s := by
  rw [map_eq_pure_bind, view_bind_eq, view_eq, Parser.label, φ.carry_bind, bind_assoc]
  congr 1
  funext t
  obtain ⟨consumed, inner⟩ := t
  cases consumed with
  | true => simp [Tagged.label]
  | false =>
    rw [if_neg Bool.false_ne_true, φ.carry_pure, pure_bind, φ.carry_bind, bind_assoc]
    congr 1
    funext r
    cases r <;> simp [Tagged.label]

theorem view_lookAhead [Source σ τ] (p : Parser m σ υ α) (s : State σ υ) :
    p.lookAhead.view φ s = Tagged.lookAhead s <$> p.view φ s := by
  rw [map_eq_pure_bind, view_bind_eq, view_eq, Parser.lookAhead, φ.carry_bind, bind_assoc]
  congr 1
  funext t
  rw [φ.carry_bind, bind_assoc]
  congr 1
  funext r
  cases r <;> simp [reply, Tagged.lookAhead]

theorem view_traced [Source σ τ] (name : Bytes) (p : Parser m σ υ α) (s : State σ υ) :
    (p.traced name).view φ s =
      match (Computation.tell? : Option (Event → m Unit)) with
      | none => p.view φ s
      | some tell =>
        φ.carry (tell (.enter name s.pos)) >>= fun _ => p.view φ s >>= fun t =>
          φ.carry (tell (exitEvent name t.consumed t.value)) >>= fun _ => pure t := by
  unfold Parser.traced
  cases (Computation.tell? : Option (Event → m Unit)) with
  | none => rfl
  | some tell =>
    dsimp only
    rw [view_eq, φ.carry_bind, bind_assoc]
    congr 1
    funext _
    rw [view_bind_eq]
    simp only [φ.carry_bind, φ.carry_pure, bind_assoc, pure_bind]

end

/-! ## Repetition -/

variable [LawfulComputation n]

def roundView (rule : Repetition) (seen : State σ υ → n (Tagged (Reply σ υ (Yield α))))
    (g : Gathered σ υ α) : n (Turn (Gathered σ υ α) (Reply σ υ (List α))) := do
  let t ← seen g.state
  turned (rule.absorb g t.consumed t.value)

/-- The rounds up to the first that consumes input, and all rounds after it. -/
def gatherView (rounds : Nat) (rule : Repetition)
    (seen : State σ υ → n (Tagged (Reply σ υ (Yield α)))) :
    Nat → Gathered σ υ α → n (Tagged (Reply σ υ (List α)))
  | 0, _ => Computation.fault .exhausted
  | left + 1, g => do
    let t ← seen g.state
    match ← turned (rule.absorb g t.consumed t.value) with
    | .done final => pure ⟨t.consumed, final⟩
    | .next g =>
      if t.consumed then Tagged.mk true <$> Computation.loop rounds (roundView rule seen) g
      else gatherView rounds rule seen left g

theorem carry_innerRound (rule : Repetition) (p : Parser m σ υ (Yield α)) (g : Gathered σ υ α) :
    φ.carry (innerRound rule p g) = roundView rule (p.view φ) g := by
  rw [roundView, view_bind_eq, innerRound]
  simp only [φ.carry_bind, carry_turned]

theorem carry_innerRounds (rounds : Nat) (rule : Repetition) (p : Parser m σ υ (Yield α))
    (g : Gathered σ υ α) (r : Reply σ υ (Yield α)) :
    φ.carry (innerRounds rounds rule p g r) =
      turned (rule.absorb g true r) >>= fun turn =>
        match turn with
        | .done final => pure final
        | .next g => Computation.loop rounds (roundView rule (p.view φ)) g := by
  rw [innerRounds, φ.carry_bind, carry_turned]
  congr 1
  funext turn
  cases turn with
  | done final => exact φ.carry_pure final
  | next g =>
    dsimp only
    rw [φ.carry_loop, funext (carry_innerRound φ rule p)]

theorem carry_outerRound (rounds : Nat) (rule : Repetition) (p : Parser m σ υ (Yield α))
    (g : Gathered σ υ α) (k : Gathered σ υ α → n (Tagged (m (Reply σ υ (List α))))) :
    ((φ.carry (outerRound rounds rule p g) >>= fun turn =>
        match turn with
        | .next g => k g
        | .done t => pure t) >>= fun t => φ.carry t.value >>= fun r => pure ⟨t.consumed, r⟩) =
      p.view φ g.state >>= fun t =>
        turned (rule.absorb g t.consumed t.value) >>= fun turn =>
          match turn with
          | .done final => pure ⟨t.consumed, final⟩
          | .next g =>
            if t.consumed then
              Tagged.mk true <$> Computation.loop rounds (roundView rule (p.view φ)) g
            else k g >>= fun t => φ.carry t.value >>= fun r => pure ⟨t.consumed, r⟩ := by
  rw [view_bind_eq, outerRound, φ.carry_bind, bind_assoc, bind_assoc]
  congr 1
  funext t
  obtain ⟨consumed, inner⟩ := t
  cases consumed with
  | true =>
    simp only [if_true, φ.carry_pure, pure_bind, φ.carry_bind, carry_innerRounds, bind_assoc]
    congr 1
    funext r
    congr 1
    funext turn
    cases turn <;> simp
  | false =>
    simp only [Bool.false_eq_true, if_false, φ.carry_bind, carry_turned, bind_assoc]
    congr 1
    funext r
    congr 1
    funext turn
    cases turn <;> simp

theorem view_gather [Source σ τ] (rounds : Nat) (rule : Repetition) (p : Parser m σ υ (Yield α))
    (s : State σ υ) :
    (gather rounds rule p).view φ s = gatherView rounds rule (p.view φ) rounds (.start s) := by
  rw [view_eq, gather, φ.carry_loop]
  -- The bound inside a round stays; the bound of the outer loop is the one counted down.
  suffices h : ∀ (left : Nat) (g : Gathered σ υ α),
      (Computation.loop left (fun g => φ.carry (outerRound rounds rule p g)) g >>= fun t =>
        φ.carry t.value >>= fun r => pure ⟨t.consumed, r⟩) =
      gatherView rounds rule (p.view φ) left g from h rounds (.start s)
  intro left
  induction left with
  | zero =>
    intro g
    rw [LawfulComputation.loop_zero, fault_bind, gatherView]
  | succ left ih =>
    intro g
    rw [LawfulComputation.loop_succ, gatherView]
    have hRound := carry_outerRound φ rounds rule p g
      (Computation.loop left fun g => φ.carry (outerRound rounds rule p g))
    simp only [ih] at hRound
    refine Eq.trans ?_ hRound
    congr 2
    funext turn
    cases turn <;> rfl

end Parser

end Descent
