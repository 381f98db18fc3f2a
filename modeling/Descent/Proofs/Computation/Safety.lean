import Descent.Computation.Effect
import Descent.Proofs.Computation.Bases

/-! # Safety

A safety is a condition that a program meets if its parts do: all values that a computation delivers
have some property, and none of its runs goes wrong. Faults do not count as going wrong, save the
fault of an empty round, about which a safety decides. To deliver only values with a property is a
safety of every uniform base, and tolerates empty rounds. Never to end in an empty round is another;
how a run ends differs from base to base, and with continuations the runs that are resumed later
count as well. -/

namespace Descent

variable {α β : Type}

/-- A condition on computations that the operations of a base respect. -/
structure Safety (m : Type → Type) [Computation m] where
  holds {α : Type} : (α → Prop) → m α → Prop
  /-- A run may end in an empty round. -/
  tolerant : Prop
  mono {α : Type} {P Q : α → Prop} {x : m α} : holds P x → (∀ a, P a → Q a) → holds Q x
  pure {α : Type} {P : α → Prop} {a : α} : P a → holds P (pure a)
  bind {α β : Type} {P : α → Prop} {Q : β → Prop} {x : m α} {f : α → m β} :
    holds P x → (∀ a, P a → holds Q (f a)) → holds Q (x >>= f)
  fault {α : Type} {P : α → Prop} {f : Fault} : (f = .emptyRound → tolerant) →
    holds P (Computation.fault f)
  tell : ∀ tell ∈ (Computation.tell? : Option (Event → m Unit)), ∀ e,
    holds (fun _ => True) (tell e)
  loop {α β : Type} {I : β → Prop} {P : α → Prop} {step : β → m (Turn β α)} :
    (∀ b, I b → holds (Turn.All I P) (step b)) → ∀ (rounds : Nat) {seed : β}, I seed →
    holds P (Computation.loop rounds step seed)

namespace Safety

variable {m n : Type → Type} [Computation m] [Computation n]

theorem exhausted (G : Safety m) {P : α → Prop} : G.holds P (Computation.fault .exhausted) :=
  G.fault nofun

def delivery (m : Type → Type) [Computation m] [UniformComputation m] : Safety m where
  holds := Delivers
  tolerant := True
  mono := .mono
  pure := .pure
  bind := .bind
  fault _ := .fault _
  tell _ _ _ := .anything _
  loop hStep rounds _ hSeed := .loop hStep rounds hSeed

def along (φ : Transfer m n) (G : Safety n)
    (hTell : ∀ tell ∈ (Computation.tell? : Option (Event → m Unit)), ∀ e,
      G.holds (fun _ => True) (φ.carry (tell e))) : Safety m where
  holds P x := G.holds P (φ.carry x)
  tolerant := G.tolerant
  mono := G.mono
  pure h := by
    rw [φ.carry_pure]
    exact G.pure h
  bind hx hf := by
    rw [φ.carry_bind]
    exact G.bind hx hf
  fault h := by
    rw [φ.carry_fault]
    exact G.fault h
  tell := hTell
  loop hStep rounds _ hSeed := by
    rw [φ.carry_loop]
    exact G.loop hStep rounds hSeed

end Safety

/-! ## Evaluation -/

/-- The evaluation comes to results with `P`, or to a fault other than that of an empty round. -/
inductive Shielded (P : α → Prop) : Nondet α → Prop
  | error {f : Fault} : f ≠ .emptyRound → Shielded P (.error f)
  | ok {results : List α} : (∀ a ∈ results, P a) → Shielded P (.ok results)

namespace Shielded

variable {P : α → Prop} {Q : β → Prop}

theorem one {a : α} (h : P a) : Shielded P (.ok [a]) := .ok (List.forall_mem_singleton.mpr h)

theorem mono {P Q : α → Prop} {x : Nondet α} (hx : Shielded P x) (h : ∀ a, P a → Q a) :
    Shielded Q x := by
  cases hx with
  | error hf => exact .error hf
  | ok hResults => exact .ok fun a ha => h a (hResults a ha)

theorem follow {f : α → Nondet β} (hf : ∀ a, P a → Shielded Q (f a)) {xs : List α}
    (hxs : ∀ a ∈ xs, P a) : Shielded Q (Nondet.follow f xs) := by
  induction xs with
  | nil => exact .ok nofun
  | cons a rest ih =>
    rw [List.forall_mem_cons] at hxs
    have hHere := hf a hxs.1
    have hThere := ih hxs.2
    rw [Nondet.follow]
    generalize f a = here at hHere
    generalize Nondet.follow f rest = there at hThere
    cases hHere with
    | error hFault => exact .error hFault
    | ok hHere =>
      cases hThere with
      | error hFault => exact .error hFault
      | ok hThere => exact .ok (List.forall_mem_append.mpr ⟨hHere, hThere⟩)

theorem bind {x : Nondet α} {f : α → Nondet β} (hx : Shielded P x)
    (hf : ∀ a, P a → Shielded Q (f a)) : Shielded Q (x.bind f) := by
  cases hx with
  | error hFault => exact .error hFault
  | ok hResults => exact follow hf hResults

end Shielded

theorem Nondet.bind_one (a : α) (f : α → Nondet β) : Nondet.bind (.ok [a]) f = f a := by
  change Nondet.follow f [a] = f a
  rw [Nondet.follow, Nondet.follow]
  rcases f a with fault | results
  · rfl
  · exact congrArg Except.ok (List.append_nil results)

namespace Safety

/-- Never to end in an empty round, in a base whose computations come to a list of results. -/
def evaluation {m : Type → Type} [Computation m] (results : {α : Type} → m α → Nondet α)
    (hPure : ∀ {α : Type} (a : α), results (Pure.pure a) = .ok [a])
    (hBind : ∀ {α β : Type} (x : m α) (f : α → m β),
      results (x >>= f) = (results x).bind fun a => results (f a))
    (hFault : ∀ {α : Type} (f : Fault), results (Computation.fault f : m α) = .error f)
    (hTell : ∀ tell ∈ (Computation.tell? : Option (Event → m Unit)), ∀ e,
      results (tell e) = .ok [()])
    (hLoop : ∀ {α β : Type} (rounds : Nat) (step : β → m (Turn β α)) (seed : β),
      Computation.loop rounds step seed =
        unrolled (Computation.fault .exhausted) step rounds seed) : Safety m where
  holds P x := Shielded P (results x)
  tolerant := False
  mono := .mono
  pure h := by
    rw [hPure]
    exact .one h
  bind hx hf := by
    rw [hBind]
    exact hx.bind hf
  fault h := by
    rw [hFault]
    exact .error h
  tell tell hMem e := by
    rw [hTell tell hMem]
    exact .one trivial
  loop {_ _ I _ step} hStep rounds seed hSeed := by
    rw [hLoop]
    induction rounds generalizing seed with
    | zero =>
      rw [unrolled, hFault]
      exact .error nofun
    | succ rounds ih =>
      rw [unrolled, hBind]
      apply (hStep seed hSeed).bind
      rintro (next | result) hTurn
      · exact ih next hTurn
      · rw [hPure]
        exact .one hTurn

def plain : Safety Plain :=
  evaluation (fun x => x.map fun a => [a]) (fun _ => rfl)
    (fun x f => by
      rcases x with fault | a
      · rfl
      · exact (Nondet.bind_one a fun a => Except.map _ (f a)).symm)
    (fun _ => rfl) nofun Plain.loop_eq_unrolled

def maybe : Safety Maybe :=
  evaluation (fun x => x.map Option.toList) (fun _ => rfl)
    (fun x f => by
      rcases x with fault | _ | a
      · rfl
      · rfl
      · exact (Nondet.bind_one a fun a => Except.map _ (f a)).symm)
    (fun _ => rfl) nofun Maybe.loop_eq_unrolled

def either (ε : Type) : Safety (Either ε) :=
  evaluation (fun x => x.map fun outcome => outcome.toOption.toList) (fun _ => rfl)
    (fun x f => by
      rcases x with fault | reason | a
      · rfl
      · rfl
      · exact (Nondet.bind_one a fun a => Except.map _ (f a)).symm)
    (fun _ => rfl) nofun Either.loop_eq_unrolled

def nondet : Safety Nondet :=
  evaluation (fun x => x) (fun _ => rfl) (fun _ _ => rfl) (fun _ => rfl) nofun fun _ _ _ => rfl

def writer : Safety Writer :=
  evaluation (fun x => x.map fun outcome => [outcome.1]) (fun _ => rfl)
    (fun x f => by
      rcases x with fault | ⟨a, before⟩
      · rfl
      · change Except.map _ (Writer.bind _ f) = _
        rw [Writer.bind]
        refine Eq.trans ?_ (Nondet.bind_one a _).symm
        rcases f a with fault | ⟨b, after⟩ <;> rfl)
    (fun _ => rfl) (by rintro _ ⟨⟩ e; rfl) fun _ _ _ => rfl

def trace : Safety Trace :=
  writer.along Transfer.events (by rintro _ ⟨⟩ e; exact writer.tell _ rfl e)

end Safety

/-! ## Continuations -/

section

variable {ν ω : Type}

mutual

/-- Neither the signal nor what it hands out ends in an empty round, however it is resumed. -/
inductive Signal.Shielded : Signal ν ω → Prop
  | answer {a : Answer ν ω} : Answer.Shielded a → Signal.Shielded (.answer a)
  | rewind {rest : Course ν ω} (target : Nat) :
      (∀ l, Signal.Shielded (rest l).1) → Signal.Shielded (.rewind target rest)
  | fault {f : Fault} : f ≠ .emptyRound → Signal.Shielded (.fault f)

inductive Answer.Shielded : Answer ν ω → Prop
  | final (result : ω) : Answer.Shielded (.final result)
  | escaped (value : ν) : Answer.Shielded (.escaped value)
  | branches {parts : List (Answer ν ω)} :
      (∀ a ∈ parts, Answer.Shielded a) → Answer.Shielded (.branches parts)
  | layered {a : Answer ν ω} (consumed : Bool) :
      Answer.Shielded a → Answer.Shielded (.layered consumed a)
  | suspended {resume : ν → Course ν ω} (tag : ν) :
      (∀ v l, Signal.Shielded (resume v l).1) → Answer.Shielded (.suspended tag resume)

end

def Course.Shielded (c : Course ν ω) : Prop := ∀ l, (c l).1.Shielded

namespace Cont

def Shields (P : α → Prop) (x : Cont ν ω α) : Prop :=
  ∀ ⦃k : α → Course ν ω⦄, (∀ a, P a → (k a).Shielded) → Course.Shielded (x k)

theorem shielded_drive (rounds : Nat) {c : Course ν ω} (hc : c.Shielded) :
    (drive rounds c).Shielded := by
  intro l
  induction rounds generalizing c l with
  | zero => exact .fault nofun
  | succ rounds ih =>
    rw [drive_succ]
    have hSignal := hc l
    generalize (c l).1 = signal at hSignal
    cases hSignal with
    | answer ha => exact .answer ha
    | fault hf => exact .fault hf
    | rewind target hRest =>
      rw [land]
      split
      · exact ih hRest _
      · exact .rewind target hRest

section Loop

variable {I : β → Prop} {P : α → Prop} {step : β → Cont ν ω (Turn β α)} {k : α → Course ν ω}

theorem shielded_continuation (hk : ∀ a, P a → (k a).Shielded) {rest : β → Course ν ω}
    (hRest : ∀ b, I b → (rest b).Shielded) (rounds number : Nat) (turn : Turn β α)
    (hTurn : turn.All I P) : (continuation rest k rounds number turn).Shielded := by
  intro l
  unfold continuation
  split
  · exact .fault nofun
  · cases turn with
    | done result => exact hk result hTurn _
    | next seed =>
      dsimp only
      split
      · exact .rewind number (hRest seed hTurn)
      · exact shielded_drive rounds (hRest seed hTurn) _

theorem shielded_round (hStep : ∀ b, I b → (step b).Shields (Turn.All I P))
    (hk : ∀ a, P a → (k a).Shielded) (rounds : Nat) (seed : β) (hSeed : I seed) :
    (round step k rounds seed).Shielded := by
  induction rounds generalizing seed with
  | zero => exact fun _ => .fault nofun
  | succ rounds ih =>
    intro l
    rw [round_succ]
    exact hStep seed hSeed (shielded_continuation hk ih rounds l.size) l.start

end Loop

theorem shields_branch (values : List α) : (branch values : Cont ν ω α).Shields fun _ => True := by
  intro k hk
  suffices h : ∀ (unwound : Option (Nat × Course ν ω)) (parts : List (Answer ν ω)),
      (∀ target rest, unwound = some (target, rest) → rest.Shielded) →
      (∀ a ∈ parts, a.Shielded) → (branchFrom k unwound parts values).Shielded from
    h none [] nofun nofun
  induction values with
  | nil =>
    intro unwound parts hUnwound hParts l
    cases unwound with
    | none => exact .answer (.branches fun a ha => hParts a (List.mem_reverse.mp ha))
    | some unwound => exact .rewind unwound.1 (hUnwound _ _ rfl)
  | cons a values ih =>
    intro unwound parts hUnwound hParts l
    have hSignal := hk a trivial l
    rw [branchFrom]
    generalize k a l = result at hSignal
    obtain ⟨signal, l'⟩ := result
    cases hSignal with
    | fault hf => exact .fault hf
    | answer ha =>
      apply ih unwound _ hUnwound
      rw [List.forall_mem_cons]
      exact ⟨ha, hParts⟩
    | @rewind rest target hRest =>
      apply ih (unwound.or (some (target, rest))) parts _ hParts
      intro target' rest' hOr
      rcases Option.or_eq_some_iff.mp hOr with hEarlier | ⟨-, hHere⟩
      · exact hUnwound target' rest' hEarlier
      · cases hHere
        exact hRest

theorem shields_escape (value : ν) : (escape value : Cont ν ω α).Shields fun _ => True :=
  fun _ _ _ => .answer (.escaped value)

theorem shields_suspend (tag : ν) (receive : ν → α) :
    (suspend tag receive : Cont ν ω α).Shields fun _ => True :=
  fun _ hk _ => .answer (.suspended tag fun v => hk (receive v) trivial)

end Cont

def Safety.cont (ν ω : Type) : Safety (Cont ν ω) where
  holds := Cont.Shields
  tolerant := False
  mono hx h _ hk := hx fun a ha => hk a (h a ha)
  pure h _ hk := hk _ h
  bind hx hf _ hk := hx fun a ha => hf a ha hk
  fault h _ _ _ := .fault h
  tell := nofun
  loop hStep rounds _ hSeed _ hk :=
    Cont.shielded_drive rounds (Cont.shielded_round hStep hk rounds _ hSeed)

theorem Session.run_ne_emptyRound (S : Session ν ω) {c : Course ν ω} (hc : c.Shielded) :
    (S.run c).1 ≠ .error .emptyRound := by
  have hSignal := hc S.ledger
  rw [run]
  generalize c S.ledger = outcome at hSignal
  obtain ⟨signal, ledger⟩ := outcome
  cases hSignal with
  | answer ha => exact nofun
  | rewind target hRest => exact nofun
  | fault hf => exact fun h => hf (Except.error.inj h)

end

/-! ## Effects

No base comes to an empty round by performing an effect, whether it is one of its own or not. -/

namespace Safety

variable {ν : Type}

theorem plain_perform (e : Effect ν α) :
    plain.holds (fun _ => True) (Performs.perform e : Plain α) := by
  cases e with
  | deliver a => exact plain.pure trivial
  | _ => exact plain.fault nofun

theorem maybe_perform (e : Effect ν α) :
    maybe.holds (fun _ => True) (Performs.perform e : Maybe α) := by
  cases e with
  | deliver a => exact maybe.pure trivial
  | nothing => exact .ok nofun
  | _ => exact maybe.fault nofun

theorem either_perform (e : Effect ν α) :
    (either Bytes).holds (fun _ => True) (Performs.perform e : Either Bytes α) := by
  cases e with
  | deliver a => exact (either Bytes).pure trivial
  | abort reason => exact .ok nofun
  | _ => exact (either Bytes).fault nofun

theorem nondet_perform (e : Effect ν α) :
    nondet.holds (fun _ => True) (Performs.perform e : Nondet α) := by
  cases e with
  | deliver a => exact nondet.pure trivial
  | among values => exact .ok fun _ _ => trivial
  | _ => exact nondet.fault nofun

theorem recordAll {m : Type → Type} [Computation m] (G : Safety m) {tell : Event → m Unit}
    (hTell : tell ∈ (Computation.tell? : Option (Event → m Unit))) (names : List Bytes) :
    G.holds (fun _ => True) (Descent.recordAll tell names) := by
  induction names with
  | nil => exact G.pure trivial
  | cons name names ih => exact G.bind (G.tell tell hTell _) fun _ _ => ih

theorem writer_perform (e : Effect ν α) :
    writer.holds (fun _ => True) (Performs.perform e : Writer α) := by
  cases e with
  | deliver a => exact writer.pure trivial
  | record names a => exact writer.bind (writer.recordAll rfl names) fun _ _ => writer.pure trivial
  | _ => exact writer.fault nofun

theorem trace_perform (e : Effect ν α) :
    trace.holds (fun _ => True) (Performs.perform e : Trace α) := by
  cases e with
  | deliver a => exact trace.pure trivial
  | record names a => exact trace.bind (trace.recordAll rfl names) fun _ _ => trace.pure trivial
  | _ => exact trace.fault nofun

theorem cont_perform {ω : Type} (e : Effect ν α) :
    (cont ν ω).holds (fun _ => True) (Performs.perform e : Cont ν ω α) := by
  cases e with
  | deliver a => exact (cont ν ω).pure trivial
  | escape value => exact Cont.shields_escape value
  | branch values => exact Cont.shields_branch values
  | suspend tag receive => exact Cont.shields_suspend tag receive
  | _ => exact (cont ν ω).fault nofun

end Safety

end Descent
