import Descent.Proofs.Computation.SingleCall
import Descent.Proofs.Parser.Simulation

/-! # Aborts

A grammar whose only effect besides values is an abort is run in four base computations: with a
reason on the left, finding nothing, escaping with the reason, and keeping a journal of the effects
performed. All of them come to the same, and the journal shows that nothing follows an abort. -/

namespace Descent

variable {α α' β β' ν ω : Type}

/-- A request for a value, or for an end of the run with a reason. -/
inductive Aborting (ν α : Type) where
  | deliver (value : α)
  | abort (reason : ν)

/-! ## The effects performed -/

/-- What a run comes to, behind the effects that it has performed: a reason for each abort, none for
a value. -/
structure Journal (ν α : Type) where
  steps : List (Option ν)
  outcome : Either ν α

namespace Journal

protected def bind (x : Journal ν α) (f : α → Journal ν β) : Journal ν β :=
  match x.outcome with
  | .ok (.ok a) => ⟨x.steps ++ (f a).steps, (f a).outcome⟩
  | .ok (.error reason) => ⟨x.steps, .left reason⟩
  | .error fault => ⟨x.steps, .error fault⟩

instance : Monad (Journal ν) where
  pure a := ⟨[], .right a⟩
  bind := Journal.bind

instance : Computation (Journal ν) where
  fault f := ⟨[], .error f⟩
  loop rounds step seed := unrolled ⟨[], .error .exhausted⟩ step rounds seed
  tell? := none

/-- The journal of an evaluation with aborts: values only, and an abort last where it ends in
one. -/
inductive Follows (r : α → α' → Prop) : Journal ν α → Either ν α' → Prop where
  | right (delivered : Nat) {a : α} {a' : α'} :
      r a a' → Follows r ⟨List.replicate delivered none, .right a⟩ (.right a')
  | left (delivered : Nat) (reason : ν) :
      Follows r ⟨List.replicate delivered none ++ [some reason], .left reason⟩ (.left reason)
  | error (delivered : Nat) (f : Fault) :
      Follows r ⟨List.replicate delivered none, .error f⟩ (.error f)

namespace Follows

variable {r : α → α' → Prop} {q : β → β' → Prop}

theorem bind {x : Journal ν α} {y : Either ν α'} {f : α → Journal ν β} {g : α' → Either ν β'}
    (hx : Follows r x y) (hf : ∀ a a', r a a' → Follows q (f a) (g a')) :
    Follows q (x >>= f) (y >>= g) := by
  cases hx with
  | error delivered fault => exact .error delivered fault
  | left delivered reason => exact .left delivered reason
  | @right delivered a a' h =>
    change Follows q ⟨List.replicate delivered none ++ (f a).steps, (f a).outcome⟩ (g a')
    have hNext := hf a a' h
    generalize f a = next at hNext
    generalize g a' = next' at hNext
    cases hNext with
    | error more fault =>
      rw [List.replicate_append_replicate]
      exact .error (delivered + more) fault
    | left more reason =>
      rw [← List.append_assoc, List.replicate_append_replicate]
      exact .left (delivered + more) reason
    | right more hResult =>
      rw [List.replicate_append_replicate]
      exact .right (delivered + more) hResult

theorem loop {step : β → Journal ν (Turn β α)} {step' : β' → Either ν (Turn β' α')}
    (hStep : ∀ b b', q b b' → Follows (Turn.Related q r) (step b) (step' b')) (rounds : Nat) {b : β}
    {b' : β'} (hSeed : q b b') :
    Follows r (Computation.loop rounds step b) (Computation.loop rounds step' b') := by
  change Follows r _ (Either.loop rounds step' b')
  rw [Either.loop_eq_unrolled]
  induction rounds generalizing b b' with
  | zero => exact .error 0 .exhausted
  | succ rounds ih =>
    apply bind (hStep b b' hSeed)
    intro turn turn' hTurn
    cases hTurn with
    | next hSeed => exact ih hSeed
    | done hResult => exact .right 0 hResult

end Follows

end Journal

def Simulation.journal (ν : Type) : Simulation (Journal ν) (Either ν) where
  rel := Journal.Follows
  bounds := Eq
  pure h := .right 0 h
  bind := .bind
  fault f := .error 0 f
  loop {_ _ _ _ _ _ _ _ rounds _} hRounds hStep _ _ hSeed := hRounds ▸ .loop hStep rounds hSeed

/-! ## Without reasons -/

namespace Either

def toMaybe (x : Either ν α) : Maybe α :=
  match x with
  | .error f => .error f
  | .ok (.error _) => .nothing
  | .ok (.ok a) => .just a

def abort? (x : Either ν α) : Option ν :=
  match x with
  | .ok (.error reason) => some reason
  | _ => none

theorem toMaybe_loop (rounds : Nat) (step : β → Either ν (Turn β α)) (seed : β) :
    (loop rounds step seed).toMaybe = Maybe.loop rounds (fun b => (step b).toMaybe) seed := by
  induction rounds generalizing seed with
  | zero => rfl
  | succ rounds ih =>
    rw [loop, Maybe.loop]
    rcases step seed with f | reason | next | result
    · rfl
    · rfl
    · exact ih next
    · rfl

end Either

def Transfer.reasonless (ν : Type) : Transfer (Either ν) Maybe where
  carry := Either.toMaybe
  carry_pure _ := rfl
  carry_bind x f := by rcases x with f | reason | a <;> rfl
  carry_fault _ := rfl
  carry_loop := Either.toMaybe_loop

/-! ## One grammar in all of them -/

namespace Aborting

def either : Aborting ν α → Either ν α
  | deliver a => .right a
  | abort reason => .left reason

def maybe : Aborting ν α → Maybe α
  | deliver a => .just a
  | abort _ => .nothing

def cont : Aborting ν α → Cont ν ω α
  | deliver a => pure a
  | abort reason => .escape reason

def journal : Aborting ν α → Journal ν α
  | deliver a => ⟨[none], .right a⟩
  | abort reason => ⟨[some reason], .left reason⟩

theorem follows_cont (e : Aborting ν α) : Cont.Follows Eq e.either (e.cont : Cont ν ω α) := by
  cases e with
  | deliver a => exact .right rfl (Cont.calls_pure a)
  | abort reason => exact .left (Cont.escapes_escape reason)

theorem follows_journal (e : Aborting ν α) : Journal.Follows Eq e.journal e.either := by
  cases e with
  | deliver a => exact .right 1 rfl
  | abort reason => exact .left 0 reason

theorem coupled_maybe (e : Aborting ν α) : Coupled Eq e.either.toMaybe e.maybe := by
  cases e with
  | deliver a => exact .refl _
  | abort reason => exact .refl _

end Aborting

variable {σ τ υ : Type} [Source σ τ] [Shown τ] {ρ : Type → Type}

/-- The journal says what was performed: any number of values, and at most one abort, after which
nothing is performed and which the run then comes to. -/
theorem aborts_agree (rules : {α : Type} → ρ α → Grammar τ υ (Aborting ν) ρ α) {α : Type}
    (g : Grammar τ υ (Aborting ν) ρ α) (bound : Nat) (s : State σ υ) :
    let observed (m : Type → Type) [Computation m] (perform : {α : Type} → Aborting ν α → m α) :
        m (Tagged (Reply σ υ α)) :=
      (Rulebook.parser perform bound (Rulebook.ofGrammars rules) g).observe s
    let either := observed (Either ν) Aborting.either
    let maybe := observed Maybe Aborting.maybe
    let cont (ω : Type) := observed (Cont ν ω) Aborting.cont
    let journal := observed (Journal ν) Aborting.journal
    (∀ reason, either = .left reason → maybe = .nothing ∧ ∀ ω, (cont ω).Escapes reason) ∧
    (∀ t, either = .right t → maybe = .just t ∧ ∀ ω, (cont ω).Calls t) ∧
    (∀ f, either = .error f → maybe = .error f ∧ ∀ ω, (cont ω).Faults f) ∧
    journal.outcome = either ∧
      ∃ delivered, journal.steps =
        List.replicate delivered none ++ (either.abort?.map some).toList := by
  intro observed either maybe cont journal
  have hRelated {m n : Type → Type} [Computation m] [Computation n] (S : Simulation m n)
      (perform : {α : Type} → Aborting ν α → m α) (perform' : {α : Type} → Aborting ν α → n α)
      (hPerform : ∀ {α : Type} (e : Aborting ν α), S.rel Eq (perform e) (perform' e))
      (hTell : S.Tells) (hBound : S.bounds bound bound) :
      S.rel Eq (observed m perform) (observed n perform') :=
    (Rulebook.parser_related (fun e (_ : True) => hPerform e) (fun _ : True => hTell) hBound
      (fun name => (rules name).asks_anything) g g.asks_anything).observe s
  have hMaybe : either.toMaybe = maybe :=
    (hRelated (.through (.reasonless ν) (.refl Maybe)) Aborting.either Aborting.maybe
      Aborting.coupled_maybe .none rfl).eq
  have hCont (ω : Type) : Cont.Follows Eq either (cont ω) :=
    hRelated (.escaping ν ω) Aborting.either Aborting.cont Aborting.follows_cont .none rfl
  have hJournal : Journal.Follows Eq journal either :=
    hRelated (.journal ν) Aborting.journal Aborting.either Aborting.follows_journal .none rfl
  refine ⟨fun reason hLeft => ?_, fun t hRight => ?_, fun f hFault => ?_, ?_⟩
  · rw [hLeft] at hMaybe hCont
    refine ⟨hMaybe.symm, fun ω => ?_⟩
    cases hCont ω with
    | left hEscape => exact hEscape
  · rw [hRight] at hMaybe hCont
    refine ⟨hMaybe.symm, fun ω => ?_⟩
    cases hCont ω with
    | right h hCalls => exact h ▸ hCalls
  · rw [hFault] at hMaybe hCont
    refine ⟨hMaybe.symm, fun ω => ?_⟩
    cases hCont ω with
    | error hFault => exact hFault
  · generalize journal = written at hJournal ⊢
    generalize either = outcome at hJournal ⊢
    cases hJournal with
    | right delivered h => exact ⟨congrArg Either.right h, delivered, (List.append_nil _).symm⟩
    | left delivered reason => exact ⟨rfl, delivered, rfl⟩
    | error delivered f => exact ⟨rfl, delivered, (List.append_nil _).symm⟩

/-- Letters are read with a way out by backtracking, which a `b` does not take: it aborts. A
repetition of nothing stops everywhere at its first round. -/
theorem aborts_agree_repeated :
    let letter : Grammar Rune Unit (Aborting Nat) (fun _ => Empty) Rune :=
      Grammar.anyToken.bind fun t => .lift (if t.code = 98 then .abort 7 else .deliver t)
    let letters : Grammar Rune Unit (Aborting Nat) (fun _ => Empty) (List Rune) :=
      (letter.attempt.orElse Grammar.anyToken).many
    let idle : Grammar Rune Unit (Aborting Nat) (fun _ => Empty) (List Unit) :=
      (Grammar.pure ()).many
    let observed (m : Type → Type) [Computation m] (perform : {α : Type} → Aborting Nat α → m α)
        {α : Type} (g : Grammar Rune Unit (Aborting Nat) (fun _ => Empty) α) (text : Bytes) :
        m (Tagged (Reply Text Unit α)) :=
      (Rulebook.parser perform 5 (Rulebook.ofGrammars nofun) g).observe ⟨.ofBytes [] text, ()⟩
    (observed Maybe Aborting.maybe letters [97, 98, 97] = .nothing ∧
      (observed (Cont Nat Unit) Aborting.cont letters [97, 98, 97]).Escapes 7 ∧
      (observed (Journal Nat) Aborting.journal letters [97, 98, 97]).steps = [none, some 7]) ∧
    (∃ t, observed Maybe Aborting.maybe letters [97, 97] = .just t ∧
      (observed (Cont Nat Unit) Aborting.cont letters [97, 97]).Calls t) ∧
    observed Maybe Aborting.maybe idle [97] = .error .emptyRound ∧
      (observed (Cont Nat Unit) Aborting.cont idle [97]).Faults .emptyRound := by
  intro letter letters idle observed
  obtain ⟨hAborted, -⟩ := aborts_agree (σ := Text) nofun letters 5 ⟨.ofBytes [] [97, 98, 97], ()⟩
  obtain ⟨-, hDelivered, -⟩ := aborts_agree (σ := Text) nofun letters 5 ⟨.ofBytes [] [97, 97], ()⟩
  obtain ⟨-, -, hFaulted, -⟩ := aborts_agree (σ := Text) nofun idle 5 ⟨.ofBytes [] [97], ()⟩
  obtain ⟨hNothing, hEscapes⟩ := hAborted 7 rfl
  obtain ⟨hJust, hCalls⟩ := hDelivered _ rfl
  obtain ⟨hError, hFaults⟩ := hFaulted .emptyRound rfl
  have hSteps : (observed (Journal Nat) Aborting.journal letters [97, 98, 97]).steps =
      [none, some 7] := by
    decide +kernel
  exact ⟨⟨hNothing, hEscapes Unit, hSteps⟩, ⟨_, hJust, hCalls Unit⟩, hError, hFaults Unit⟩

end Descent
