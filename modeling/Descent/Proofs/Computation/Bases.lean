import Descent.Computation.Cont
import Descent.Computation.Nondet
import Descent.Computation.Plain
import Descent.Computation.Recording
import Descent.Proofs.Computation.Lawful

/-! # The laws of the base computations at hand

Evaluation with and without aborts and the writer of event lists are lawful. Evaluation with several
results is lawful up to which of several faults comes first, and the writer of event trees up to how
its log was joined; each is carried to a computation that does not remember this. The continuation
computation is uniform and obeys the monad laws, but its loop is not its unrolling, since a round is
continued only once. The lawful ones report empty rounds.
For each computation at hand it is said what `Delivers` comes to. -/

namespace Descent

variable {α β γ : Type}

namespace Plain

theorem loop_eq_unrolled (rounds : Nat) (step : β → Plain (Turn β α)) (seed : β) :
    loop rounds step seed = unrolled (Computation.fault .exhausted) step rounds seed := by
  induction rounds generalizing seed with
  | zero => rfl
  | succ rounds ih =>
    rw [loop, unrolled]
    rcases step seed with f | next | result
    · rfl
    · exact ih next
    · rfl

instance : LawfulComputation Plain where
  fault_bind _ _ := rfl
  loop_eq_unrolled := loop_eq_unrolled

theorem delivers_iff {P : α → Prop} {x : Plain α} : Delivers P x ↔ ∀ a, x = .ok a → P a := by
  constructor
  · rintro ⟨y, rfl⟩ a ha
    cases y with
    | error f => cases ha
    | ok known =>
      cases ha
      exact known.property
  · intro h
    cases x with
    | error f => exact ⟨.error f, rfl⟩
    | ok a => exact ⟨.ok ⟨a, h a rfl⟩, rfl⟩

instance : ReportingComputation Plain where
  delivers_of_bind hQuiet := delivers_iff.mpr fun a hx hFault => by
    subst hx
    exact hQuiet hFault

end Plain

namespace Maybe

theorem loop_eq_unrolled (rounds : Nat) (step : β → Maybe (Turn β α)) (seed : β) :
    loop rounds step seed = unrolled (Computation.fault .exhausted) step rounds seed := by
  induction rounds generalizing seed with
  | zero => rfl
  | succ rounds ih =>
    rw [loop, unrolled]
    rcases step seed with f | _ | next | result
    · rfl
    · rfl
    · exact ih next
    · rfl

instance : LawfulMonad Maybe :=
  LawfulMonad.mk' Maybe
    (fun x => by rcases x with f | _ | a <;> rfl)
    (fun _ _ => rfl)
    (fun x _ _ => by rcases x with f | _ | a <;> rfl)

instance : LawfulComputation Maybe where
  fault_bind _ _ := rfl
  loop_eq_unrolled := loop_eq_unrolled

theorem delivers_iff {P : α → Prop} {x : Maybe α} : Delivers P x ↔ ∀ a, x = .just a → P a := by
  constructor
  · rintro ⟨y, rfl⟩ a ha
    rcases y with f | _ | known
    · cases ha
    · cases ha
    · cases ha
      exact known.property
  · intro h
    rcases x with f | _ | a
    · exact ⟨.error f, rfl⟩
    · exact ⟨.nothing, rfl⟩
    · exact ⟨.just ⟨a, h a rfl⟩, rfl⟩

instance : ReportingComputation Maybe where
  delivers_of_bind hQuiet := delivers_iff.mpr fun a hx hFault => by
    subst hx
    exact hQuiet hFault

end Maybe

namespace Either

variable {ε : Type}

theorem loop_eq_unrolled (rounds : Nat) (step : β → Either ε (Turn β α)) (seed : β) :
    loop rounds step seed = unrolled (Computation.fault .exhausted) step rounds seed := by
  induction rounds generalizing seed with
  | zero => rfl
  | succ rounds ih =>
    rw [loop, unrolled]
    rcases step seed with f | reason | next | result
    · rfl
    · rfl
    · exact ih next
    · rfl

instance : LawfulMonad (Either ε) :=
  LawfulMonad.mk' (Either ε)
    (fun x => by rcases x with f | reason | a <;> rfl)
    (fun _ _ => rfl)
    (fun x _ _ => by rcases x with f | reason | a <;> rfl)

instance : LawfulComputation (Either ε) where
  fault_bind _ _ := rfl
  loop_eq_unrolled := loop_eq_unrolled

theorem delivers_iff {P : α → Prop} {x : Either ε α} :
    Delivers P x ↔ ∀ a, x = .right a → P a := by
  constructor
  · rintro ⟨y, rfl⟩ a ha
    rcases y with f | reason | known
    · cases ha
    · cases ha
    · cases ha
      exact known.property
  · intro h
    rcases x with f | reason | a
    · exact ⟨.error f, rfl⟩
    · exact ⟨.left reason, rfl⟩
    · exact ⟨.right ⟨a, h a rfl⟩, rfl⟩

instance : ReportingComputation (Either ε) where
  delivers_of_bind hQuiet := delivers_iff.mpr fun a hx hFault => by
    subst hx
    exact hQuiet hFault

end Either

namespace Nondet

theorem follow_pure (g : α → β) (xs : List α) :
    follow (fun a => pure (g a)) xs = .ok (xs.map g) := by
  induction xs with
  | nil => rfl
  | cons x xs ih =>
    rw [follow, ih]
    rfl

theorem follow_map (g : α → β) (f : β → Nondet γ) (xs : List α) :
    follow f (xs.map g) = follow (fun a => f (g a)) xs := by
  induction xs with
  | nil => rfl
  | cons x xs ih => rw [List.map_cons, follow, follow, ih]

theorem map_ok (g : α → β) (xs : List α) :
    @Functor.map Nondet _ α β g (.ok xs) = .ok (xs.map g) :=
  follow_pure g xs

theorem map_follow (g : β → γ) (f : α → Nondet β) (xs : List α) :
    g <$> follow f xs = follow (fun a => g <$> f a) xs := by
  induction xs with
  | nil => rfl
  | cons x xs ih =>
    rw [follow, follow, ← ih]
    rcases f x with fault | here
    · rfl
    rw [map_ok]
    rcases follow f xs with fault | there
    · rfl
    rw [map_ok, map_ok, List.map_append]

-- Associativity holds only up to the choice among several faults, so this is all.
instance : UniformSequencing Nondet where
  map_const := rfl
  id_map x := by
    rcases x with f | xs
    · rfl
    · rw [map_ok, List.map_id]
  comp_map g h x := by
    rcases x with f | xs
    · rfl
    · rw [map_ok, map_ok, map_ok, List.map_map]
  map_pure _ _ := rfl
  map_bind g x f := by
    rcases x with fault | xs
    · rfl
    · exact map_follow g f xs
  bind_map_left g x f := by
    rcases x with fault | xs
    · rfl
    · rw [map_ok]
      exact follow_map g f xs
  map_fault _ _ := rfl

instance : UniformComputation Nondet where
  map_loop hStep rounds seed := map_unrolled hStep rounds seed

theorem delivers_iff {P : α → Prop} {x : Nondet α} :
    Delivers P x ↔ ∀ results, x = .ok results → ∀ a ∈ results, P a := by
  constructor
  · rintro ⟨y, rfl⟩ results hResults a ha
    rcases y with f | known
    · cases hResults
    · rw [map_ok] at hResults
      cases hResults
      obtain ⟨b, _, rfl⟩ := List.mem_map.mp ha
      exact b.property
  · intro h
    rcases x with f | xs
    · exact ⟨.error f, rfl⟩
    · refine ⟨.ok (xs.attach.map fun a => ⟨a.val, h xs rfl a.val a.property⟩), ?_⟩
      rw [map_ok, List.map_map]
      exact congrArg Except.ok (List.attach_map_subtype_val xs)

end Nondet

/-- Several results in order, with nothing said of a fault but that there is one. -/
def Results (α : Type) := Option (List α)

namespace Results

def join : Results α → Results α → Results α
  | some here, some there => some (here ++ there)
  | _, _ => none

def follow (f : α → Results β) : List α → Results β
  | [] => some []
  | a :: rest => join (f a) (follow f rest)

instance : Monad Results where
  pure a := some [a]
  bind x f := Option.elim x none (follow f)

instance : Computation Results where
  fault _ := none
  loop rounds step seed := unrolled none step rounds seed
  tell? := none

theorem join_nil (x : Results α) : join x (some []) = x := by
  rcases x with _ | xs
  · rfl
  · exact congrArg some (List.append_nil xs)

theorem nil_join (x : Results α) : join (some []) x = x := by
  cases x <;> rfl

theorem join_none (x : Results α) : join x none = none := by
  cases x <;> rfl

theorem join_assoc (x y z : Results α) : join (join x y) z = join x (join y z) := by
  rcases x with _ | xs
  · rfl
  rcases y with _ | ys
  · rfl
  rcases z with _ | zs
  · rfl
  exact congrArg some (List.append_assoc xs ys zs)

theorem follow_append (f : α → Results β) (xs ys : List α) :
    follow f (xs ++ ys) = join (follow f xs) (follow f ys) := by
  induction xs with
  | nil => exact (nil_join _).symm
  | cons x xs ih => rw [List.cons_append, follow, follow, ih, join_assoc]

theorem join_bind (x y : Results α) (f : α → Results β) :
    join x y >>= f = join (x >>= f) (y >>= f) := by
  rcases x with _ | xs
  · rfl
  rcases y with _ | ys
  · exact (join_none (follow f xs)).symm
  · exact follow_append f xs ys

theorem follow_bind (f : α → Results β) (g : β → Results γ) (xs : List α) :
    follow f xs >>= g = follow (fun a => f a >>= g) xs := by
  induction xs with
  | nil => rfl
  | cons x xs ih => rw [follow, follow, join_bind, ih]

theorem follow_pure (xs : List α) : follow pure xs = some xs := by
  induction xs with
  | nil => rfl
  | cons x xs ih =>
    rw [follow, ih]
    rfl

instance : LawfulMonad Results :=
  LawfulMonad.mk' Results
    (fun x => by
      rcases x with _ | xs
      · rfl
      · exact follow_pure xs)
    (fun a f => join_nil (f a))
    (fun x f g => by
      rcases x with _ | xs
      · rfl
      · exact follow_bind f g xs)

instance : LawfulComputation Results where
  fault_bind _ _ := rfl
  loop_eq_unrolled _ _ _ := rfl

theorem ne_none_of_follow {f : α → Results β} {xs : List α} (h : follow f xs ≠ none) :
    ∀ a ∈ xs, f a ≠ none := by
  induction xs with
  | nil => nofun
  | cons x xs ih =>
    rw [follow] at h
    rw [List.forall_mem_cons]
    constructor
    · intro hHere
      rw [hHere] at h
      exact h rfl
    · apply ih
      intro hThere
      rw [hThere, join_none] at h
      exact h rfl

theorem map_some (g : α → β) (xs : List α) :
    (Functor.map g (some xs : Results α) : Results β) = some (xs.map g) := by
  change follow (fun a => (pure (g a) : Results β)) xs = some (xs.map g)
  induction xs with
  | nil => rfl
  | cons x xs ih =>
    rw [follow, ih]
    rfl

instance : ReportingComputation Results where
  delivers_of_bind {_ _ x f} hQuiet := by
    rcases x with _ | xs
    · exact ⟨none, rfl⟩
    · have hEach := ne_none_of_follow hQuiet
      refine ⟨some (xs.attach.map fun a => ⟨a.val, hEach a.val a.property⟩), ?_⟩
      rw [map_some, List.map_map]
      exact congrArg some (List.attach_map_subtype_val xs)

end Results

namespace Nondet

def toResults (x : Nondet α) : Results α := Except.toOption x

theorem toResults_follow (f : α → Nondet β) (xs : List α) :
    toResults (follow f xs) = Results.follow (fun a => toResults (f a)) xs := by
  induction xs with
  | nil => rfl
  | cons x xs ih =>
    rw [follow, Results.follow, ← ih]
    rcases f x with fault | here
    · rfl
    rcases follow f xs with fault | there <;> rfl

theorem toResults_bind (x : Nondet α) (f : α → Nondet β) :
    toResults (x >>= f) = toResults x >>= fun a => toResults (f a) := by
  rcases x with fault | xs
  · rfl
  · exact toResults_follow f xs

theorem toResults_unrolled (step : β → Nondet (Turn β α)) (rounds : Nat) (seed : β) :
    toResults (unrolled (Computation.fault .exhausted) step rounds seed) =
      unrolled (Computation.fault .exhausted) (fun b => toResults (step b)) rounds seed := by
  induction rounds generalizing seed with
  | zero => rfl
  | succ rounds ih =>
    rw [unrolled, unrolled, toResults_bind]
    congr 1
    funext turn
    cases turn with
    | next seed => exact ih seed
    | done result => rfl

end Nondet

/-- Several results are carried over without telling faults apart. -/
def Transfer.results : Transfer Nondet Results where
  carry := Nondet.toResults
  carry_pure _ := rfl
  carry_bind := Nondet.toResults_bind
  carry_fault _ := rfl
  carry_loop rounds step seed := Nondet.toResults_unrolled step rounds seed

namespace Writer

def after (events : List Event) (x : Writer α) : Writer α :=
  match x with
  | .error fault => .error fault
  | .ok (a, more) => .ok (a, events ++ more)

theorem after_nil (x : Writer α) : after [] x = x := by
  rcases x with f | ⟨a, events⟩ <;> rfl

theorem after_append (xs ys : List Event) (x : Writer α) :
    after (xs ++ ys) x = after xs (after ys x) := by
  rcases x with f | ⟨a, events⟩
  · rfl
  · exact congrArg (fun events => Except.ok (a, events)) (List.append_assoc xs ys events)

theorem after_bind (events : List Event) (x : Writer α) (f : α → Writer β) :
    after events x >>= f = after events (x >>= f) := by
  rcases x with g | ⟨a, more⟩
  · rfl
  · exact after_append events more (f a)

instance : LawfulMonad Writer :=
  LawfulMonad.mk' Writer
    (fun x => by
      rcases x with f | ⟨a, events⟩
      · rfl
      · exact congrArg (fun events => Except.ok (a, events)) (List.append_nil events))
    (fun a f => after_nil (f a))
    (fun x f g => by
      rcases x with h | ⟨a, events⟩
      · rfl
      · exact after_bind events (f a) g)

instance : LawfulComputation Writer where
  fault_bind _ _ := rfl
  loop_eq_unrolled _ _ _ := rfl

instance : ReportingComputation Writer where
  delivers_of_bind {_ _ x f} hQuiet := by
    rcases x with fault | ⟨a, events⟩
    · exact ⟨.error fault, rfl⟩
    · have hLater : f a ≠ Computation.fault .emptyRound := by
        intro hFault
        apply hQuiet
        change after events (f a) = _
        rw [hFault]
        rfl
      exact ⟨.ok (⟨a, hLater⟩, events),
        congrArg (fun events => Except.ok (a, events)) (List.append_nil events)⟩

end Writer

namespace Trace

theorem map_ok (g : α → β) (a : α) (log : EventLog) :
    @Functor.map Trace _ α β g (.ok (a, log)) = .ok (g a, log) :=
  congrArg (fun log => Except.ok (g a, log)) log.append_empty

-- Joined trees are associative only up to their events, so this is all.
instance : UniformSequencing Trace where
  map_const := rfl
  id_map x := by
    rcases x with f | ⟨a, log⟩
    · rfl
    · exact map_ok id a log
  comp_map g h x := by
    rcases x with f | ⟨a, log⟩
    · rfl
    · rw [map_ok, map_ok, map_ok, Function.comp]
  map_pure g a := map_ok g a .empty
  map_bind g x f := by
    rcases x with fault | ⟨a, before⟩
    · rfl
    change g <$> Trace.bind (.ok (a, before)) f = Trace.bind (.ok (a, before)) fun a => g <$> f a
    unfold Trace.bind
    dsimp only
    rcases f a with fault | ⟨b, after⟩
    · rfl
    · rw [map_ok, map_ok]
  bind_map_left g x f := by
    rcases x with fault | ⟨a, log⟩
    · rfl
    · rw [map_ok]
      rfl
  map_fault _ _ := rfl

theorem map_loopAfter {α' β' : Type} {f : β → β'} {g : α → α'} {step : β → Trace (Turn β α)}
    {step' : β' → Trace (Turn β' α')} (hStep : ∀ b, step' (f b) = Turn.map f g <$> step b)
    (rounds : Nat) (log : EventLog) (seed : β) :
    g <$> loopAfter step rounds log seed = loopAfter step' rounds log (f seed) := by
  induction rounds generalizing log seed with
  | zero => rfl
  | succ rounds ih =>
    rw [loopAfter, loopAfter, hStep]
    rcases step seed with fault | ⟨next | result, more⟩
    · rfl
    · rw [map_ok]
      exact ih (log ++ more) next
    · rw [map_ok, map_ok]
      rfl

instance : UniformComputation Trace where
  map_loop hStep rounds seed := map_loopAfter hStep rounds .empty seed

theorem delivers_iff {P : α → Prop} {x : Trace α} :
    Delivers P x ↔ ∀ a log, x = .ok (a, log) → P a := by
  constructor
  · rintro ⟨y, rfl⟩ a log hx
    rcases y with f | ⟨known, log'⟩
    · cases hx
    · rw [map_ok] at hx
      cases hx
      exact known.property
  · intro h
    rcases x with f | ⟨a, log⟩
    · exact ⟨.error f, rfl⟩
    · exact ⟨.ok (⟨a, h a log rfl⟩, log), map_ok Subtype.val _ log⟩

def toWriter (x : Trace α) : Writer α :=
  match x with
  | .error fault => .error fault
  | .ok (a, log) => .ok (a, log.toList)

theorem toWriter_bind (x : Trace α) (f : α → Trace β) :
    toWriter (x >>= f) = toWriter x >>= fun a => toWriter (f a) := by
  rcases x with fault | ⟨a, before⟩
  · rfl
  change toWriter (Trace.bind (.ok (a, before)) f) = Writer.after before.toList (toWriter (f a))
  unfold Trace.bind
  dsimp only
  rcases f a with fault | ⟨b, after⟩
  · rfl
  · exact congrArg (fun events => Except.ok (b, events)) (EventLog.toList_append before after)

/-- The rounds of a loop behind a log are the unrolled rounds behind its events. -/
theorem toWriter_loopAfter (step : β → Trace (Turn β α)) (rounds : Nat) (log : EventLog)
    (seed : β) :
    toWriter (loopAfter step rounds log seed) =
      Writer.after log.toList
        (unrolled (Computation.fault .exhausted) (fun b => toWriter (step b)) rounds seed) := by
  induction rounds generalizing log seed with
  | zero => rfl
  | succ rounds ih =>
    rw [loopAfter, unrolled]
    rcases step seed with fault | ⟨next | result, more⟩
    · rfl
    · rw [ih (log ++ more) next, EventLog.toList_append, Writer.after_append]
      rfl
    · have hEvents : (log ++ more).toList = log.toList ++ (more.toList ++ []) := by
        rw [EventLog.toList_append, List.append_nil]
      exact congrArg (fun events => Except.ok (result, events)) hEvents

end Trace

/-- A trace is carried to the writer of lists by reading its log. -/
def Transfer.events : Transfer Trace Writer where
  carry := Trace.toWriter
  carry_pure _ := rfl
  carry_bind := Trace.toWriter_bind
  carry_fault _ := rfl
  carry_loop rounds step seed :=
    (Trace.toWriter_loopAfter step rounds .empty seed).trans (Writer.after_nil _)

namespace Cont

variable {ν ω : Type}

instance : UniformSequencing (Cont ν ω) where
  map_const := rfl
  id_map _ := rfl
  comp_map _ _ _ := rfl
  map_pure _ _ := rfl
  map_bind _ _ _ := rfl
  bind_map_left _ _ _ := rfl
  map_fault _ _ := rfl

instance : LawfulMonad (Cont ν ω) :=
  LawfulMonad.mk' (Cont ν ω) (fun _ => rfl) (fun _ _ => rfl) (fun _ _ _ => rfl)

/-- What a round is continued with, where `rest` are the rounds after it. -/
def continuation (rest : β → Course ν ω) (k : α → Course ν ω) (rounds number : Nat) :
    Turn β α → Course ν ω := fun turn ledger =>
  if ledger.isContinued number then (.fault .resumedTwice, ledger)
  else
    let ledger := ledger.markContinued number
    match turn with
    | .done result => k result ledger
    | .next seed =>
      if ledger.isRunning number then (.rewind number (rest seed), ledger)
      else drive rounds (rest seed) ledger

theorem round_succ (step : β → Cont ν ω (Turn β α)) (k : α → Course ν ω) (rounds : Nat)
    (seed : β) (ledger : Ledger) :
    round step k (rounds + 1) seed ledger =
      match step seed (continuation (round step k rounds) k rounds ledger.size) ledger.start with
      | (signal, after) => (signal, after.markReturned ledger.size) := rfl

/-- What the loop makes of the signal of a round: it goes on where the round has unwound to it. -/
def land (number rounds : Nat) : Signal ν ω → Course ν ω
  | .rewind target rest =>
    if target = number then drive rounds rest else fun l => (.rewind target rest, l)
  | .answer a => fun l => (.answer a, l)
  | .fault f => fun l => (.fault f, l)

theorem drive_succ (rounds : Nat) (c : Course ν ω) (l : Ledger) :
    drive (rounds + 1) c l = land l.size rounds (c l).1 (c l).2 := by
  rw [drive]
  rcases c l with ⟨a | ⟨target, rest⟩ | f, l'⟩
  · rfl
  · dsimp only [land]
    split <;> rfl
  · rfl

theorem round_map {α' β' : Type} {f : β → β'} {g : α → α'} {step : β → Cont ν ω (Turn β α)}
    {step' : β' → Cont ν ω (Turn β' α')} (hStep : ∀ b, step' (f b) = Turn.map f g <$> step b)
    (k : α' → Course ν ω) (rounds : Nat) (seed : β) :
    round step (fun a => k (g a)) rounds seed = round step' k rounds (f seed) := by
  induction rounds generalizing seed with
  | zero => rfl
  | succ rounds ih =>
    funext ledger
    have hContinuation :
        continuation (round step (fun a => k (g a)) rounds) (fun a => k (g a)) rounds ledger.size =
          fun turn =>
            continuation (round step' k rounds) k rounds ledger.size (Turn.map f g turn) := by
      rw [funext ih]
      funext turn
      cases turn <;> rfl
    rw [round_succ, round_succ, hStep, hContinuation]
    rfl

instance : UniformComputation (Cont ν ω) where
  map_loop hStep rounds seed :=
    funext fun k => congrArg (drive rounds) (round_map hStep k rounds seed)

/-- Two continuations that agree where `P` holds cannot be told apart, now or after a resumption. -/
theorem delivers_iff {P : α → Prop} {x : Cont ν ω α} :
    Delivers P x ↔ ∀ k k' : α → Course ν ω, (∀ a, P a → k a = k' a) → x k = x k' := by
  classical
  constructor
  · rintro ⟨y, rfl⟩ k k' hAgree
    exact congrArg y (funext fun a => hAgree a.val a.property)
  · intro h
    -- Where `P` fails the continuation may be anything.
    let anything : Course ν ω := fun ledger => (.fault .exhausted, ledger)
    refine ⟨fun k => x fun a => if ha : P a then k ⟨a, ha⟩ else anything, ?_⟩
    funext k
    apply h
    intro a ha
    exact dif_pos ha

end Cont

end Descent
