import Descent.Computation.Basic

/-! # Computations by continuation

A computation receives the rest of the run as a function and may call it, drop it, call it several
times, or keep it and hand it to the host, who resumes it later. The result of a whole run is an
answer.

A loop runs round by round. The continuation of a round is one-shot: while the round is still
running, a call of it unwinds to the loop, which then starts the next round; after the round has
returned, a call of it goes on with the loop from there. A second call is a fault. Which rounds have
been continued, and which are still running, is kept in a ledger that lives as long as the kept
continuations do. -/

namespace Descent

structure RoundMark where
  continued : Bool
  running : Bool
  deriving Inhabited

structure Ledger where
  marks : Array RoundMark

namespace Ledger

def empty : Ledger := ⟨#[]⟩

def size (l : Ledger) : Nat := l.marks.size

def start (l : Ledger) : Ledger := ⟨l.marks.push ⟨false, true⟩⟩

def isContinued (l : Ledger) (round : Nat) : Bool :=
  (l.marks[round]?.map RoundMark.continued).getD false

def isRunning (l : Ledger) (round : Nat) : Bool :=
  (l.marks[round]?.map RoundMark.running).getD false

def markContinued (l : Ledger) (round : Nat) : Ledger :=
  ⟨l.marks.modify round fun mark => { mark with continued := true }⟩

def markReturned (l : Ledger) (round : Nat) : Ledger :=
  ⟨l.marks.modify round fun mark => { mark with running := false }⟩

@[simp] theorem size_start (l : Ledger) : l.start.size = l.size + 1 := by
  simp [size, start]

@[simp] theorem size_markContinued (l : Ledger) (round : Nat) :
    (l.markContinued round).size = l.size := by
  simp [size, markContinued]

@[simp] theorem size_markReturned (l : Ledger) (round : Nat) :
    (l.markReturned round).size = l.size := by
  simp [size, markReturned]

theorem isContinued_start (l : Ledger) : l.start.isContinued l.size = false := by
  simp [isContinued, start, size]

theorem isRunning_start (l : Ledger) : l.start.isRunning l.size = true := by
  simp [isRunning, start, size]

end Ledger

mutual

/-- The result of a run: `ω` is what a completed run delivers, `ν` what is exchanged with the
host. -/
inductive Answer (ν ω : Type) : Type where
  | final (result : ω)
  | escaped (value : ν)
  /-- The continuation was called several times. -/
  | branches (parts : List (Answer ν ω))
  /-- The outer layer of a parser ended, and its inner layer has this answer. -/
  | layered (consumed : Bool) (inner : Answer ν ω)
  | suspended (tag : ν) (resume : ν → Ledger → Signal ν ω × Ledger)

/-- What a running computation returns to the loop around it. -/
inductive Signal (ν ω : Type) : Type where
  | answer (a : Answer ν ω)
  /-- Unwinds to the loop of a running round, which goes on with `rest`. -/
  | rewind (round : Nat) (rest : Ledger → Signal ν ω × Ledger)
  | fault (f : Fault)

end

abbrev Course (ν ω : Type) := Ledger → Signal ν ω × Ledger

def Cont (ν ω α : Type) := (α → Course ν ω) → Course ν ω

namespace Cont

variable {ν ω : Type}

protected def bind {α β : Type} (x : Cont ν ω α) (f : α → Cont ν ω β) : Cont ν ω β :=
  fun k => x fun a => f a k

instance : Monad (Cont ν ω) where
  pure a := fun k => k a
  bind := Cont.bind

/-- Runs the rounds of one loop: whenever the round just run has unwound to it, the next one
follows. -/
def drive : Nat → Course ν ω → Course ν ω
  | 0, _, ledger => (.fault .exhausted, ledger)
  | rounds + 1, round, ledger =>
    let number := ledger.size
    match round ledger with
    | (.rewind target rest, ledger) =>
      if target = number then drive rounds rest ledger else (.rewind target rest, ledger)
    | (.answer a, ledger) => (.answer a, ledger)
    | (.fault f, ledger) => (.fault f, ledger)

/-- One round of a loop from a seed, followed by the mark that it has returned. -/
def round {α β : Type} (step : β → Cont ν ω (Turn β α)) (k : α → Course ν ω) :
    Nat → β → Course ν ω
  | 0, _, ledger => (.fault .exhausted, ledger)
  | rounds + 1, seed, ledger =>
    let number := ledger.size
    let continuation (turn : Turn β α) : Course ν ω := fun ledger =>
      if ledger.isContinued number then (.fault .resumedTwice, ledger)
      else
        let ledger := ledger.markContinued number
        match turn with
        | .done result => k result ledger
        | .next seed =>
          if ledger.isRunning number then (.rewind number (round step k rounds seed), ledger)
          else drive rounds (round step k rounds seed) ledger
    match step seed continuation ledger.start with
    | (signal, ledger) => (signal, ledger.markReturned number)

def loop {α β : Type} (rounds : Nat) (step : β → Cont ν ω (Turn β α)) (seed : β) : Cont ν ω α :=
  fun k => drive rounds (round step k rounds seed)

instance : Computation (Cont ν ω) where
  fault f := fun _ ledger => (.fault f, ledger)
  loop := loop
  tell? := none

def escape {α : Type} (value : ν) : Cont ν ω α :=
  fun _ ledger => (.answer (.escaped value), ledger)

def suspend {α : Type} (tag : ν) (receive : ν → α) : Cont ν ω α :=
  fun k ledger => (.answer (.suspended tag fun v => k (receive v)), ledger)

/-- Calls the continuation with each value in turn. Where a call unwinds to a running round, the
others are run all the same and their answers dropped. -/
def branchFrom {α : Type} (k : α → Course ν ω) (unwound : Option (Nat × Course ν ω))
    (parts : List (Answer ν ω)) : List α → Course ν ω
  | [], ledger =>
    match unwound with
    | some (target, rest) => (.rewind target rest, ledger)
    | none => (.answer (.branches parts.reverse), ledger)
  | a :: values, ledger =>
    match k a ledger with
    | (.fault f, ledger) => (.fault f, ledger)
    | (.rewind target rest, ledger) =>
      branchFrom k (unwound.or (some (target, rest))) parts values ledger
    | (.answer part, ledger) => branchFrom k unwound (part :: parts) values ledger

def branch {α : Type} (values : List α) : Cont ν ω α := fun k => branchFrom k none [] values

def complete (x : Cont ν ω ω) : Course ν ω :=
  x fun result ledger => (.answer (.final result), ledger)

end Cont

/-- An answer as the host sees it, with its suspensions numbered. -/
inductive Report (ν ω : Type) where
  | final (result : ω)
  | escaped (value : ν)
  | branches (parts : List (Report ν ω))
  | layered (consumed : Bool) (inner : Report ν ω)
  | suspended (number : Nat) (tag : ν)

/-- A run and the resumptions after it: the ledger, and the kept continuations in the order in which
they were found. -/
structure Session (ν ω : Type) where
  ledger : Ledger
  kept : Array (ν → Course ν ω)

namespace Session

variable {ν ω : Type}

def fresh : Session ν ω := ⟨.empty, #[]⟩

mutual

def report (session : Session ν ω) : Answer ν ω → Report ν ω × Session ν ω
  | .final result => (.final result, session)
  | .escaped value => (.escaped value, session)
  | .branches parts =>
    let (parts, session) := reportAll session parts
    (.branches parts, session)
  | .layered consumed inner =>
    let (inner, session) := report session inner
    (.layered consumed inner, session)
  | .suspended tag resume =>
    (.suspended session.kept.size tag, { session with kept := session.kept.push resume })

def reportAll (session : Session ν ω) : List (Answer ν ω) → List (Report ν ω) × Session ν ω
  | [] => ([], session)
  | part :: parts =>
    let (part, session) := report session part
    let (parts, session) := reportAll session parts
    (part :: parts, session)

end

/-- Runs a course. What it did to the ledger stays, also after a fault. -/
def run (session : Session ν ω) (course : Course ν ω) :
    Except Fault (Report ν ω) × Session ν ω :=
  match course session.ledger with
  | (.answer a, ledger) =>
    let (r, session) := report { session with ledger } a
    (.ok r, session)
  | (.fault f, ledger) => (.error f, { session with ledger })
  | (.rewind .., ledger) => (.error .strayRound, { session with ledger })

def resume? (session : Session ν ω) (number : Nat) (value : ν) :
    Option (Except Fault (Report ν ω) × Session ν ω) :=
  (session.kept[number]?).map fun continuation => session.run (continuation value)

end Session

end Descent
