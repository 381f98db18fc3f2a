import Descent.Proofs.Computation.Bases
import Descent.Proofs.Computation.Ledger
import Mathlib.Data.List.Forall2

/-! # Rounds under other numbers

A program knows a round by the continuation that it was given for it, and by no number. So in two
sessions whose ledgers say the same of the rounds that it knows it does the same, whatever numbers
these rounds have there and whatever other rounds there are. A course that knows no rounds when it
starts and does so is portable: it can be the rest of any run. All that is built of the operations
of the base is, whatever the rounds of its loops do. -/

namespace Descent

/-- Some rounds, each with a number that goes with it: its own in another ledger, or how many rounds
its loop has left. -/
abbrev Numbering := Nat → Option Nat

namespace Numbering

def nothing : Numbering := fun _ => none

def add (w : Numbering) (number other : Nat) : Numbering := Function.update w number (some other)

def Le (w w' : Numbering) : Prop := ∀ i other, w i = some other → w' i = some other

def Below (w : Numbering) (number : Nat) : Prop := ∀ i other, w i = some other → i < number

def Within (w : Numbering) (l : Ledger) : Prop := w.Below l.size

/-- The rounds are among `w`, or they were started after `l`. -/
def From (w' w : Numbering) (l : Ledger) : Prop :=
  ∀ i other, w' i = some other → w i = some other ∨ l.size ≤ i

def Apart (w w' : Numbering) : Prop := ∀ i, w i = none ∨ w' i = none

variable {w w' w'' : Numbering} {l l' : Ledger} {i number other : Nat}

theorem Le.refl (w : Numbering) : w.Le w := fun _ _ h => h

theorem Le.trans (h : w.Le w') (h' : w'.Le w'') : w.Le w'' :=
  fun i other hi => h' i other (h i other hi)

theorem Le.eq_none (h : w.Le w') (hi : w' i = none) : w i = none := by
  cases hw : w i with
  | none => rfl
  | some other => exact absurd ((h i other hw).symm.trans hi) nofun

theorem nothing_le (w : Numbering) : nothing.Le w := nofun

theorem Within.mono (h : w.Within l) (hSize : l.size ≤ l'.size) : w.Within l' :=
  fun i other hi => (h i other hi).trans_le hSize

theorem Within.of_le (h : w'.Within l) (hLe : w.Le w') : w.Within l :=
  fun i other hi => h i other (hLe i other hi)

theorem Within.eq_none (h : w.Within l) (hi : l.size ≤ i) : w i = none := by
  cases hw : w i with
  | none => rfl
  | some other => exact absurd (h i other hw) (Nat.not_lt.mpr hi)

theorem From.refl (w : Numbering) (l : Ledger) : w.From w l := fun _ _ => .inl

theorem From.trans (h : w''.From w' l') (h' : w'.From w l) (hSize : l.size ≤ l'.size) :
    w''.From w l := by
  intro i other hi
  rcases h i other hi with hi | hi
  · exact h' i other hi
  · exact .inr (hSize.trans hi)

theorem From.eq_none (h : w'.From w l) (hi : i < l.size) (hw : w i = none) : w' i = none := by
  cases hw' : w' i with
  | none => rfl
  | some other =>
    rcases h i other hw' with hSome | hSize
    · cases hw.symm.trans hSome
    · exact absurd hi (Nat.not_lt.mpr hSize)

theorem Apart.symm (h : w.Apart w') : w'.Apart w := fun i => (h i).symm

theorem Apart.mono {v v' : Numbering} (h : w.Apart w') (hLe : v.Le w) (hLe' : v'.Le w') :
    v.Apart v' := fun i => (h i).imp hLe.eq_none hLe'.eq_none

theorem Apart.eq_none (h : w.Apart w') (hi : w i = some other) : w' i = none := by
  rcases h i with hNone | hNone
  · cases hNone.symm.trans hi
  · exact hNone

/-- Rounds that were started after `l` are apart from those within it. -/
theorem Apart.of_from (h : w.Apart w') (hWithin : w.Within l) (hFrom : w''.From w' l) :
    w.Apart w'' := by
  intro i
  cases hi : w i with
  | none => exact .inl rfl
  | some other => exact .inr (hFrom.eq_none (hWithin i other hi) (h.eq_none hi))

theorem add_self : w.add number other number = some other := Function.update_self ..

theorem add_of_ne (h : i ≠ number) : w.add number other i = w i := Function.update_of_ne h _ _

theorem add_eq_some {rest : Nat} (h : w.add number other i = some rest) :
    i = number ∧ rest = other ∨ i ≠ number ∧ w i = some rest := by
  rcases eq_or_ne i number with rfl | hne
  · rw [add_self] at h
    exact .inl ⟨rfl, (Option.some.inj h).symm⟩
  · rw [add_of_ne hne] at h
    exact .inr ⟨hne, h⟩

theorem Below.le_add (h : w.Below number) : w.Le (w.add number other) := by
  intro i rest hi
  rw [add_of_ne (h i rest hi).ne, hi]

/-! A round that has just been started can be added. -/

theorem Within.add_start (h : w.Within l) : (w.add l.size other).Within l.start := by
  intro i rest hi
  rw [Ledger.size_start]
  rcases add_eq_some hi with ⟨rfl, -⟩ | ⟨-, hHeld⟩
  · exact Nat.lt_succ_self _
  · exact Nat.lt_succ_of_lt (h i rest hHeld)

theorem Apart.add_start {ρ : Numbering} (h : w.Apart ρ) (hρ : ρ.Within l) :
    (w.add l.size other).Apart ρ := by
  intro i
  rcases eq_or_ne i l.size with rfl | hne
  · exact .inr (hρ.eq_none le_rfl)
  · rw [add_of_ne hne]
    exact h i

theorem From.of_add_start (h : w'.From (w.add l.size other) l.start) : w'.From w l := by
  intro i rest hi
  rcases h i rest hi with hHeld | hNew
  · rcases add_eq_some hHeld with ⟨rfl, -⟩ | ⟨-, hHeld⟩
    · exact .inr le_rfl
    · exact .inl hHeld
  · rw [Ledger.size_start] at hNew
    exact .inr (Nat.le_of_succ_le hNew)

end Numbering

namespace Ledger

variable {ρ ρ' w w' : Numbering} {l l₁ l₂ l' l₁' : Ledger} {i number other : Nat}

/-- What a course that knows `ρ` and holds `w` may do to the rounds of a ledger: it continues only
these, and it ends only what it knows. -/
structure Evolves (ρ w : Numbering) (l l₁ : Ledger) : Prop where
  size_le : l.size ≤ l₁.size
  continued : ∀ i < l.size, ρ i = none → w i = none → l₁.isContinued i = l.isContinued i
  running : ∀ i < l.size, ρ i = none → l₁.isRunning i = l.isRunning i

namespace Evolves

theorem refl (ρ w : Numbering) (l : Ledger) : Evolves ρ w l l :=
  ⟨le_rfl, fun _ _ _ _ => rfl, fun _ _ _ => rfl⟩

theorem mono (h : Evolves ρ w l l₁) (hρ : ρ.Le ρ') (hw : w.Le w') : Evolves ρ' w' l l₁ where
  size_le := h.size_le
  continued i hi hKnown hHeld := h.continued i hi (hρ.eq_none hKnown) (hw.eq_none hHeld)
  running i hi hKnown := h.running i hi (hρ.eq_none hKnown)

theorem trans (h : Evolves ρ w l l₁) (h' : Evolves ρ' w' l₁ l₂) (hFrom : ρ'.From ρ l)
    (hLe : w'.Le w) : Evolves ρ w l l₂ where
  size_le := h.size_le.trans h'.size_le
  continued i hi hρ hw :=
    (h'.continued i (hi.trans_le h.size_le) (hFrom.eq_none hi hρ) (hLe.eq_none hw)).trans
      (h.continued i hi hρ hw)
  running i hi hρ :=
    (h'.running i (hi.trans_le h.size_le) (hFrom.eq_none hi hρ)).trans (h.running i hi hρ)

theorem start (ρ w : Numbering) (l : Ledger) : Evolves ρ w l l.start where
  size_le := (size_start l).symm ▸ Nat.le_succ _
  continued _ _ _ _ := isContinued_start_eq
  running _ hi _ := isRunning_start_of_ne hi.ne

theorem markContinued (h : ρ number = some other ∨ w number = some other) :
    Evolves ρ w l (l.markContinued number) where
  size_le := (size_markContinued l number).ge
  continued i _ hρ hw := by
    apply isContinued_markContinued_of_ne
    rintro rfl
    rcases h with h | h
    · cases hρ.symm.trans h
    · cases hw.symm.trans h
  running _ _ _ := isRunning_markContinued

/-- A whole round, which is itself known or held while it runs. -/
theorem round {ρ' w' : Numbering} (h : Evolves ρ' w' l.start l₁)
    (hρ : ∀ i < l.size, ρ i = none → ρ' i = none) (hw : ∀ i < l.size, w i = none → w' i = none) :
    Evolves ρ w l (l₁.markReturned l.size) where
  size_le := by
    have hSize := h.size_le
    rw [size_start] at hSize
    rw [size_markReturned]
    exact Nat.le_of_succ_le hSize
  continued i hi hKnown hHeld := by
    have hStart : i < l.start.size := (size_start l).symm ▸ Nat.lt_succ_of_lt hi
    rw [isContinued_markReturned, h.continued i hStart (hρ i hi hKnown) (hw i hi hHeld),
      isContinued_start_eq]
  running i hi hKnown := by
    have hStart : i < l.start.size := (size_start l).symm ▸ Nat.lt_succ_of_lt hi
    rw [isRunning_markReturned_of_ne hi.ne, h.running i hStart (hρ i hi hKnown),
      isRunning_start_of_ne hi.ne]

end Evolves

/-- The ledgers say the same of the rounds that are paired. -/
structure Agree (ρ : Numbering) (l l' : Ledger) : Prop where
  within : ρ.Within l
  within' : ∀ i j, ρ i = some j → j < l'.size
  injective : ∀ i i' j, ρ i = some j → ρ i' = some j → i = i'
  continued : ∀ i j, ρ i = some j → l.isContinued i = l'.isContinued j
  running : ∀ i j, ρ i = some j → l.isRunning i = l'.isRunning j

namespace Agree

theorem eq_iff (h : Agree ρ l l') {j number' : Nat} (hi : ρ i = some j)
    (hNumber : ρ number = some number') : i = number ↔ j = number' := by
  constructor
  · rintro rfl
    exact Option.some.inj (hi.symm.trans hNumber)
  · rintro rfl
    exact h.injective i number j hi hNumber

theorem start (h : Agree ρ l l') : Agree (ρ.add l.size l'.size) l.start l'.start where
  within := h.within.add_start
  within' i j hi := by
    rw [size_start]
    rcases Numbering.add_eq_some hi with ⟨-, rfl⟩ | ⟨-, hi⟩
    · exact Nat.lt_succ_self _
    · exact Nat.lt_succ_of_lt (h.within' i j hi)
  injective i i' j hi hi' := by
    rcases Numbering.add_eq_some hi with ⟨rfl, rfl⟩ | ⟨-, hi⟩
    · rcases Numbering.add_eq_some hi' with ⟨rfl, -⟩ | ⟨-, hi'⟩
      · rfl
      · exact absurd (h.within' i' _ hi') (Nat.lt_irrefl _)
    · rcases Numbering.add_eq_some hi' with ⟨-, rfl⟩ | ⟨-, hi'⟩
      · exact absurd (h.within' i _ hi) (Nat.lt_irrefl _)
      · exact h.injective i i' j hi hi'
  continued i j hi := by
    rw [isContinued_start_eq, isContinued_start_eq]
    rcases Numbering.add_eq_some hi with ⟨rfl, rfl⟩ | ⟨-, hi⟩
    · rw [isContinued_of_size_le le_rfl, isContinued_of_size_le le_rfl]
    · exact h.continued i j hi
  running i j hi := by
    rcases Numbering.add_eq_some hi with ⟨rfl, rfl⟩ | ⟨hne, hi⟩
    · rw [isRunning_start, isRunning_start]
    · rw [isRunning_start_of_ne hne, isRunning_start_of_ne (h.within' i j hi).ne,
        h.running i j hi]

theorem markContinued (h : Agree ρ l l') {number' : Nat} (hNumber : ρ number = some number') :
    Agree ρ (l.markContinued number) (l'.markContinued number') where
  within := h.within.mono (size_markContinued l number).ge
  within' i j hi := by
    rw [size_markContinued]
    exact h.within' i j hi
  injective := h.injective
  continued i j hi := by
    by_cases hSame : i = number
    · obtain rfl := (h.eq_iff hi hNumber).mp hSame
      obtain rfl := hSame
      rw [isContinued_markContinued_self (h.within i j hi),
        isContinued_markContinued_self (h.within' i j hi)]
    · have hOther : j ≠ number' := mt (h.eq_iff hi hNumber).mpr hSame
      rw [isContinued_markContinued_of_ne hSame, isContinued_markContinued_of_ne hOther,
        h.continued i j hi]
  running i j hi := by
    rw [isRunning_markContinued, isRunning_markContinued, h.running i j hi]

theorem markReturned (h : Agree ρ l l') {number' : Nat} (hNumber : ρ number = some number') :
    Agree ρ (l.markReturned number) (l'.markReturned number') where
  within := h.within.mono (size_markReturned l number).ge
  within' i j hi := by
    rw [size_markReturned]
    exact h.within' i j hi
  injective := h.injective
  continued i j hi := by
    rw [isContinued_markReturned, isContinued_markReturned, h.continued i j hi]
  running i j hi := by
    by_cases hSame : i = number
    · obtain rfl := (h.eq_iff hi hNumber).mp hSame
      obtain rfl := hSame
      rw [isRunning_markReturned_self, isRunning_markReturned_self]
    · have hOther : j ≠ number' := mt (h.eq_iff hi hNumber).mpr hSame
      rw [isRunning_markReturned_of_ne hSame, isRunning_markReturned_of_ne hOther,
        h.running i j hi]

theorem markReturned_of_unpaired (h : Agree ρ l l') (hNumber : ρ number = none) :
    Agree ρ (l.markReturned number) l' where
  within := h.within.mono (size_markReturned l number).ge
  within' := h.within'
  injective := h.injective
  continued i j hi := by rw [isContinued_markReturned, h.continued i j hi]
  running i j hi := by
    rw [isRunning_markReturned_of_ne, h.running i j hi]
    rintro rfl
    cases hNumber.symm.trans hi

/-- The first ledger may go on by itself, away from the paired rounds. -/
theorem evolves (h : Agree ρ l l') (hEvolves : l.Evolves .nothing w l₁) (hApart : w.Apart ρ) :
    Agree ρ l₁ l' where
  within := h.within.mono hEvolves.size_le
  within' := h.within'
  injective := h.injective
  continued i j hi := by
    rw [hEvolves.continued i (h.within i j hi) rfl (hApart.symm.eq_none hi), h.continued i j hi]
  running i j hi := by
    rw [hEvolves.running i (h.within i j hi) rfl, h.running i j hi]

end Agree

end Ledger

variable {ν ω : Type}

mutual

/-- With the paired rounds under their numbers in either ledger, the courses do the same, now and
after a resumption. -/
inductive Course.Alike : Numbering → Course ν ω → Course ν ω → Prop
  | intro {ρ : Numbering} {c c' : Course ν ω}
      (run : ∀ ⦃ρ' l l'⦄, ρ.Le ρ' → l.Agree ρ' l' → Lockstep ρ' .nothing l (c l) (c' l')) :
      Course.Alike ρ c c'

/-- Two runs, the first of them from `l`, have come to the same end, and have started rounds that
are paired. -/
inductive Lockstep :
    Numbering → Numbering → Ledger → Signal ν ω × Ledger → Signal ν ω × Ledger → Prop
  | intro {ρ ρ' w : Numbering} {l l₁ l₁' : Ledger} {signal signal' : Signal ν ω} :
      ρ.Le ρ' → ρ'.From ρ l → l.Evolves ρ w l₁ → l₁.Agree ρ' l₁' → Signal.Alike ρ' signal signal' →
      Lockstep ρ w l (signal, l₁) (signal', l₁')

inductive Signal.Alike : Numbering → Signal ν ω → Signal ν ω → Prop
  | answer {ρ : Numbering} {a a' : Answer ν ω} :
      Answer.Alike ρ a a' → Signal.Alike ρ (.answer a) (.answer a')
  | rewind {ρ : Numbering} {target target' : Nat} {rest rest' : Course ν ω} :
      ρ target = some target' →
      (∀ rounds, Course.Alike ρ (Cont.drive rounds rest) (Cont.drive rounds rest')) →
      Signal.Alike ρ (.rewind target rest) (.rewind target' rest')
  | fault {ρ : Numbering} (f : Fault) : Signal.Alike ρ (.fault f) (.fault f)

inductive Answer.Alike : Numbering → Answer ν ω → Answer ν ω → Prop
  | final {ρ : Numbering} (result : ω) : Answer.Alike ρ (.final result) (.final result)
  | escaped {ρ : Numbering} (value : ν) : Answer.Alike ρ (.escaped value) (.escaped value)
  | branches {ρ : Numbering} {parts parts' : List (Answer ν ω)} :
      parts.length = parts'.length → (∀ a a', (a, a') ∈ parts.zip parts' → Answer.Alike ρ a a') →
      Answer.Alike ρ (.branches parts) (.branches parts')
  | layered {ρ : Numbering} {a a' : Answer ν ω} (consumed : Bool) :
      Answer.Alike ρ a a' → Answer.Alike ρ (.layered consumed a) (.layered consumed a')
  | suspended {ρ : Numbering} {resume resume' : ν → Course ν ω} (tag : ν) :
      (∀ v, Course.Alike ρ (resume v) (resume' v)) →
      Answer.Alike ρ (.suspended tag resume) (.suspended tag resume')

end

section Alike

variable {ρ ρ' w w' : Numbering} {l l₁ : Ledger}

theorem Course.Alike.run {c c' : Course ν ω} (h : Course.Alike ρ c c') {l l' : Ledger}
    (hAgree : l.Agree ρ l') : Lockstep ρ .nothing l (c l) (c' l') := by
  obtain ⟨hRun⟩ := h
  exact hRun (.refl ρ) hAgree

theorem Course.Alike.mono {c c' : Course ν ω} (h : Course.Alike ρ c c') (hLe : ρ.Le ρ') :
    Course.Alike ρ' c c' := by
  obtain ⟨hRun⟩ := h
  exact ⟨fun _ _ _ hLe' hAgree => hRun (hLe.trans hLe') hAgree⟩

theorem Answer.Alike.mono {a a' : Answer ν ω} (h : Answer.Alike ρ a a') (hLe : ρ.Le ρ') :
    Answer.Alike ρ' a a' := by
  match h with
  | .final result => exact .final result
  | .escaped value => exact .escaped value
  | .branches hLength hParts => exact .branches hLength fun a a' hMem => (hParts a a' hMem).mono hLe
  | .layered consumed ha => exact .layered consumed (ha.mono hLe)
  | .suspended tag hResume => exact .suspended tag fun v => (hResume v).mono hLe

theorem Signal.Alike.mono {signal signal' : Signal ν ω} (h : Signal.Alike ρ signal signal')
    (hLe : ρ.Le ρ') : Signal.Alike ρ' signal signal' := by
  cases h with
  | answer ha => exact .answer (ha.mono hLe)
  | rewind hTarget hRest =>
    exact .rewind (hLe _ _ hTarget) fun rounds => (hRest rounds).mono hLe
  | fault f => exact .fault f

theorem Lockstep.of_signal {signal signal' : Signal ν ω} (h : Signal.Alike ρ signal signal')
    {l l' : Ledger} (hAgree : l.Agree ρ l') : Lockstep ρ w l (signal, l) (signal', l') :=
  .intro (.refl ρ) (.refl ρ l) (.refl ρ w l) hAgree h

/-- Runs that go on from where two runs in lockstep have led. -/
theorem Lockstep.after {result result' : Signal ν ω × Ledger} (hLe : ρ.Le ρ')
    (hFrom : ρ'.From ρ l) (hEvolves : l.Evolves ρ w l₁) (hw : w'.Le w)
    (h : Lockstep ρ' w' l₁ result result') : Lockstep ρ w l result result' := by
  cases h with
  | intro hLe' hFrom' hEvolves' hAgree hSignal =>
    exact .intro (hLe.trans hLe') (hFrom'.trans hFrom hEvolves.size_le)
      (hEvolves.trans hEvolves' hFrom hw) hAgree hSignal

/-- A course by its signal alone. -/
theorem Course.alike_signal {signal signal' : Signal ν ω} (h : Signal.Alike ρ signal signal') :
    Course.Alike ρ (fun l => (signal, l)) fun l => (signal', l) :=
  ⟨fun _ _ _ hLe hAgree => .of_signal (h.mono hLe) hAgree⟩

/-- What is made of the signal of a course by further courses. -/
theorem Course.Alike.follow {c c' : Course ν ω} (hc : Course.Alike ρ c c')
    {next next' : Signal ν ω → Course ν ω}
    (hNext : ∀ ⦃ρ'⦄, ρ.Le ρ' → ∀ ⦃signal signal'⦄, Signal.Alike ρ' signal signal' →
      Course.Alike ρ' (next signal) (next' signal')) :
    Course.Alike ρ (fun l => next (c l).1 (c l).2) fun l => next' (c' l).1 (c' l).2 := by
  refine ⟨fun ρ' l l' hLe hAgree => ?_⟩
  have hFirst := (hc.mono hLe).run hAgree
  generalize c l = result at hFirst
  generalize c' l' = result' at hFirst
  cases hFirst with
  | intro hLe' hFrom hEvolves hAgree' hSignal =>
    exact .after hLe' hFrom hEvolves (.refl _) ((hNext (hLe.trans hLe') hSignal).run hAgree')

end Alike

/-! ## Programs -/

namespace Cont

variable {α β : Type}

/-- Whatever continuations are alike, the computations do with them. -/
protected def Alike (x x' : Cont ν ω α) : Prop :=
  ∀ ⦃ρ : Numbering⦄ ⦃k k' : α → Course ν ω⦄, (∀ a, Course.Alike ρ (k a) (k' a)) →
    Course.Alike ρ (x k) (x' k')

theorem alike_pure (a : α) : Cont.Alike (pure a : Cont ν ω α) (pure a) := fun _ _ _ hk => hk a

theorem Alike.bind {x x' : Cont ν ω α} {f f' : α → Cont ν ω β} (hx : x.Alike x')
    (hf : ∀ a, (f a).Alike (f' a)) : (x >>= f).Alike (x' >>= f') :=
  fun _ _ _ hk => hx fun a => hf a hk

theorem alike_fault (f : Fault) :
    Cont.Alike (Computation.fault f : Cont ν ω α) (Computation.fault f) :=
  fun _ _ _ _ => Course.alike_signal (.fault f)

theorem alike_escape (value : ν) : Cont.Alike (escape value : Cont ν ω α) (escape value) :=
  fun _ _ _ _ => Course.alike_signal (.answer (.escaped value))

theorem alike_suspend (tag : ν) (receive : ν → α) :
    Cont.Alike (suspend tag receive : Cont ν ω α) (suspend tag receive) :=
  fun _ _ _ hk => Course.alike_signal (.answer (.suspended tag fun v => hk (receive v)))

/-- What stands so far when the values before have been delivered: the first unwinding, and the
answers in reverse. -/
theorem alike_branchFrom {k k' : α → Course ν ω} {ρ : Numbering}
    (hk : ∀ a, Course.Alike ρ (k a) (k' a)) {unwound unwound' : Option (Nat × Course ν ω)}
    (hUnwound : unwound = none ∧ unwound' = none ∨ ∃ target target' rest rest',
      unwound = some (target, rest) ∧ unwound' = some (target', rest') ∧
        Signal.Alike ρ (.rewind target rest) (.rewind target' rest'))
    {parts parts' : List (Answer ν ω)} (hParts : List.Forall₂ (Answer.Alike ρ) parts parts')
    (values : List α) :
    Course.Alike ρ (branchFrom k unwound parts values) (branchFrom k' unwound' parts' values) := by
  induction values generalizing ρ unwound unwound' parts parts' with
  | nil =>
    rcases hUnwound with ⟨rfl, rfl⟩ | ⟨target, target', rest, rest', rfl, rfl, hRewind⟩
    · have hReverse := List.forall₂_iff_zip.mp (List.forall₂_reverse_iff.mpr hParts)
      exact Course.alike_signal (.answer (.branches hReverse.1 fun _ _ hMem => hReverse.2 hMem))
    · exact Course.alike_signal hRewind
  | cons a values ih =>
    let next (k : α → Course ν ω) (unwound : Option (Nat × Course ν ω))
        (parts : List (Answer ν ω)) : Signal ν ω → Course ν ω
      | .fault f => fun l => (.fault f, l)
      | .rewind target rest => branchFrom k (unwound.or (some (target, rest))) parts values
      | .answer part => branchFrom k unwound (part :: parts) values
    have hBranch (k : α → Course ν ω) (unwound : Option (Nat × Course ν ω))
        (parts : List (Answer ν ω)) : branchFrom k unwound parts (a :: values) =
          fun l => next k unwound parts (k a l).1 (k a l).2 := by
      funext l
      rw [branchFrom]
      rcases k a l with ⟨part | ⟨target, rest⟩ | f, l'⟩
      · rfl
      · rfl
      · rfl
    rw [hBranch, hBranch]
    refine (hk a).follow fun ρ' hLe signal signal' hSignal => ?_
    have hk' (a : α) : Course.Alike ρ' (k a) (k' a) := (hk a).mono hLe
    have hParts' : List.Forall₂ (Answer.Alike ρ') parts parts' :=
      hParts.imp fun _ _ ha => ha.mono hLe
    have hUnwound' : unwound = none ∧ unwound' = none ∨ ∃ target target' rest rest',
        unwound = some (target, rest) ∧ unwound' = some (target', rest') ∧
          Signal.Alike ρ' (.rewind target rest) (.rewind target' rest') := by
      rcases hUnwound with hNone | ⟨target, target', rest, rest', h, h', hRewind⟩
      · exact .inl hNone
      · exact .inr ⟨target, target', rest, rest', h, h', hRewind.mono hLe⟩
    cases hSignal with
    | fault f => exact Course.alike_signal (.fault f)
    | answer ha => exact ih hk' hUnwound' (.cons ha hParts')
    | @rewind _ target target' rest rest' hTarget hRest =>
      refine ih hk' (.inr ?_) hParts'
      rcases hUnwound' with ⟨rfl, rfl⟩ | ⟨first, first', rest, rest', rfl, rfl, hRewind⟩
      · exact ⟨target, target', rest, rest', rfl, rfl, .rewind hTarget hRest⟩
      · exact ⟨first, first', rest, rest', rfl, rfl, hRewind⟩

theorem alike_branch (values : List α) :
    Cont.Alike (branch values : Cont ν ω α) (branch values) :=
  fun _ _ _ hk => alike_branchFrom hk (.inl ⟨rfl, rfl⟩) .nil values

section Loop

variable {ρ : Numbering} {k k' : α → Course ν ω} {step step' : β → Cont ν ω (Turn β α)}

theorem alike_continuation (hk : ∀ a, Course.Alike ρ (k a) (k' a)) {rest rest' : β → Course ν ω}
    (hRest : ∀ rounds seed, Course.Alike ρ (drive rounds (rest seed)) (drive rounds (rest' seed)))
    (rounds : Nat) {number number' : Nat} (hNumber : ρ number = some number') (turn : Turn β α) :
    Course.Alike ρ (continuation rest k rounds number turn)
      (continuation rest' k' rounds number' turn) := by
  refine ⟨fun ρ' l l' hLe hAgree => ?_⟩
  have hNumber' := hLe _ _ hNumber
  unfold continuation
  rw [← hAgree.continued _ _ hNumber']
  by_cases hContinued : l.isContinued number = true
  · rw [if_pos hContinued, if_pos hContinued]
    exact .of_signal (.fault .resumedTwice) hAgree
  rw [if_neg hContinued, if_neg hContinued]
  have hMarked := hAgree.markContinued hNumber'
  refine .after (.refl ρ') (.refl ρ' l) (.markContinued (.inl hNumber')) (.refl _) ?_
  cases turn with
  | done result => exact ((hk result).mono hLe).run hMarked
  | next seed =>
    dsimp only
    rw [← hMarked.running _ _ hNumber']
    split
    · exact .of_signal (.rewind hNumber' fun rounds => (hRest rounds seed).mono hLe) hMarked
    · exact ((hRest rounds seed).mono hLe).run hMarked

theorem lockstep_round (hStep : ∀ b, (step b).Alike (step' b))
    (hk : ∀ a, Course.Alike ρ (k a) (k' a)) {rounds : Nat}
    (hRest : ∀ fuel seed, Course.Alike ρ (drive fuel (round step k rounds seed))
      (drive fuel (round step' k' rounds seed)))
    (seed : β) {l l' : Ledger} (hAgree : l.Agree ρ l') :
    ∃ ρ', ρ'.From ρ l ∧ ρ.Le ρ' ∧ ρ' l.size = some l'.size ∧
      l.Evolves ρ .nothing (round step k (rounds + 1) seed l).2 ∧
      (round step k (rounds + 1) seed l).2.Agree ρ' (round step' k' (rounds + 1) seed l').2 ∧
      Signal.Alike ρ' (round step k (rounds + 1) seed l).1
        (round step' k' (rounds + 1) seed l').1 := by
  have hKnown : ρ.Le (ρ.add l.size l'.size) := hAgree.within.le_add
  have hRound := hStep seed fun turn => alike_continuation (fun a => (hk a).mono hKnown)
    (fun fuel seed => (hRest fuel seed).mono hKnown) rounds Numbering.add_self turn
  have hRun := hRound.run hAgree.start
  rw [round_succ, round_succ]
  generalize step seed _ l.start = result at hRun
  generalize step' seed _ l'.start = result' at hRun
  cases hRun with
  | @intro _ ρ' _ _ _ _ _ _ hLe hFrom hEvolves hAgree' hSignal =>
    have hNumber : ρ' l.size = some l'.size := hLe _ _ Numbering.add_self
    refine ⟨ρ', hFrom.of_add_start, hKnown.trans hLe, hNumber, ?_, hAgree'.markReturned hNumber,
      hSignal⟩
    exact hEvolves.round (fun i hi hNone => (Numbering.add_of_ne hi.ne).trans hNone) fun _ _ h => h

theorem alike_drive (hStep : ∀ b, (step b).Alike (step' b))
    (hk : ∀ a, Course.Alike ρ (k a) (k' a)) (rounds fuel : Nat) (seed : β) :
    Course.Alike ρ (drive fuel (round step k rounds seed))
      (drive fuel (round step' k' rounds seed)) := by
  induction rounds generalizing fuel seed with
  | zero =>
    cases fuel with
    | zero => exact Course.alike_signal (.fault .exhausted)
    | succ fuel => exact Course.alike_signal (.fault .exhausted)
  | succ rounds ih =>
    cases fuel with
    | zero => exact Course.alike_signal (.fault .exhausted)
    | succ fuel =>
      refine ⟨fun ρ₁ l l' hLe hAgree => ?_⟩
      obtain ⟨ρ', hFrom, hLe', hNumber, hEvolves, hAgree', hSignal⟩ :=
        lockstep_round hStep (fun a => (hk a).mono hLe)
          (fun fuel seed => (ih fuel seed).mono hLe) seed hAgree
      rw [drive_succ, drive_succ]
      refine .after hLe' hFrom hEvolves (.refl _) ?_
      generalize round step k (rounds + 1) seed l = result at hAgree' hSignal
      generalize round step' k' (rounds + 1) seed l' = result' at hAgree' hSignal
      obtain ⟨signal, l₁⟩ := result
      obtain ⟨signal', l₁'⟩ := result'
      dsimp only at hAgree' hSignal ⊢
      cases hSignal with
      | answer ha => exact .of_signal (.answer ha) hAgree'
      | fault f => exact .of_signal (.fault f) hAgree'
      | @rewind _ target target' rest rest' hTarget hRest =>
        -- The pairing is one to one, so both unwind to their loop or neither does.
        have hHere : target = l.size ↔ target' = l'.size := hAgree'.eq_iff hTarget hNumber
        rw [land, land]
        by_cases hLand : target = l.size
        · rw [if_pos hLand, if_pos (hHere.mp hLand)]
          exact (hRest fuel).run hAgree'
        · rw [if_neg hLand, if_neg (mt hHere.mpr hLand)]
          exact .of_signal (.rewind hTarget hRest) hAgree'

theorem Alike.loop (hStep : ∀ b, (step b).Alike (step' b)) (rounds : Nat) (seed : β) :
    Cont.Alike (loop rounds step seed) (Cont.loop rounds step' seed) :=
  fun _ _ _ hk => alike_drive hStep hk rounds rounds seed

end Loop

/-- What can be built of the operations of the base, also rounds that branch. -/
inductive Program : {α : Type} → Cont ν ω α → Prop
  | pure {α : Type} (a : α) : Program (pure a : Cont ν ω α)
  | fault {α : Type} (f : Fault) : Program (Computation.fault f : Cont ν ω α)
  | escape {α : Type} (value : ν) : Program (escape value : Cont ν ω α)
  | suspend {α : Type} (tag : ν) (receive : ν → α) : Program (suspend tag receive : Cont ν ω α)
  | branch {α : Type} (values : List α) : Program (branch values : Cont ν ω α)
  | bind {α β : Type} {x : Cont ν ω α} {f : α → Cont ν ω β} :
      Program x → (∀ a, Program (f a)) → Program (x >>= f)
  | loop {α β : Type} {step : β → Cont ν ω (Turn β α)} (rounds : Nat) (seed : β) :
      (∀ b, Program (step b)) → Program (Cont.loop rounds step seed)

theorem Program.alike {x : Cont ν ω α} (h : Program x) : x.Alike x := by
  induction h with
  | pure a => exact alike_pure a
  | fault f => exact alike_fault f
  | escape value => exact alike_escape value
  | suspend tag receive => exact alike_suspend tag receive
  | branch values => exact alike_branch values
  | bind _ _ hx hf => exact hx.bind hf
  | loop rounds seed _ hStep => exact Alike.loop hStep rounds seed

end Cont

/-! ## The rest of a run -/

/-- The course does the same in every session, whatever rounds were started there before it. -/
def Course.Portable (c : Course ν ω) : Prop := Course.Alike .nothing c c

/-- The course with its answer reported as that of an inner layer. -/
def Course.layered (consumed : Bool) (c : Course ν ω) : Course ν ω := fun l =>
  match c l with
  | (.answer inner, l) => (.answer (.layered consumed inner), l)
  | (.rewind target rest, l) => (.rewind target rest, l)
  | (.fault f, l) => (.fault f, l)

theorem Course.Portable.layered {c : Course ν ω} (h : c.Portable) (consumed : Bool) :
    (c.layered consumed).Portable := by
  let next : Signal ν ω → Course ν ω
    | .answer inner => fun l => (.answer (.layered consumed inner), l)
    | .rewind target rest => fun l => (.rewind target rest, l)
    | .fault f => fun l => (.fault f, l)
  have hLayered : c.layered consumed = fun l => next (c l).1 (c l).2 := by
    funext l
    rw [Course.layered]
    rcases c l with ⟨inner | ⟨target, rest⟩ | f, l'⟩
    · rfl
    · rfl
    · rfl
  rw [Course.Portable, hLayered]
  refine h.follow fun ρ _ signal signal' hSignal => ?_
  cases hSignal with
  | answer ha => exact Course.alike_signal (.answer (.layered consumed ha))
  | rewind hTarget hRest => exact Course.alike_signal (.rewind hTarget hRest)
  | fault f => exact Course.alike_signal (.fault f)

/-- What may come last: a result, or any program that goes on with such ends. Escapes, suspensions
and branches are programs. -/
inductive Closing : Course ν ω → Prop
  | final (result : ω) : Closing fun l => (.answer (.final result), l)
  | layered {c : Course ν ω} (consumed : Bool) : Closing c → Closing (c.layered consumed)
  | run {α : Type} {x : Cont ν ω α} {k : α → Course ν ω} :
      x.Program → (∀ a, Closing (k a)) → Closing (x k)

theorem Closing.portable {c : Course ν ω} (h : Closing c) : c.Portable := by
  induction h with
  | final result => exact Course.alike_signal (.answer (.final result))
  | layered consumed _ ih => exact ih.layered consumed
  | run hx _ ih => exact hx.alike ih

end Descent
