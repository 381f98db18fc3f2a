import Descent.Computation.Cont
import Mathlib.Order.Nat

/-! # What happens to a ledger

Rounds are added to a ledger and never taken away, and a round that was continued stays so. What
each of the three operations leaves alone is said per round. -/

namespace Descent.Ledger

variable {l l' l'' : Ledger} {i number : Nat}

theorem isContinued_of_size_le (h : l.size ≤ i) : l.isContinued i = false := by
  unfold size at h
  simp [isContinued, Array.getElem?_eq_none h]

theorem lt_size_of_isContinued (h : l.isContinued i = true) : i < l.size := by
  by_contra hSize
  rw [isContinued_of_size_le (Nat.le_of_not_lt hSize)] at h
  cases h

@[simp] theorem isContinued_start_eq : l.start.isContinued i = l.isContinued i := by
  rcases eq_or_ne i l.size with rfl | h
  · rw [isContinued_start, isContinued_of_size_le le_rfl]
  · unfold size at h
    simp [isContinued, start, Array.getElem?_push, h]

theorem isRunning_start_of_ne (h : i ≠ l.size) : l.start.isRunning i = l.isRunning i := by
  unfold size at h
  simp [isRunning, start, Array.getElem?_push, h]

theorem isContinued_markContinued_self (h : number < l.size) :
    (l.markContinued number).isContinued number = true := by
  unfold size at h
  simp [isContinued, markContinued, Array.getElem_modify_self, h]

theorem isContinued_markContinued_of_ne (h : i ≠ number) :
    (l.markContinued number).isContinued i = l.isContinued i := by
  simp [isContinued, markContinued, Array.getElem?_modify, h.symm]

@[simp] theorem isRunning_markContinued :
    (l.markContinued number).isRunning i = l.isRunning i := by
  by_cases h : number = i
  · simp [isRunning, markContinued, Array.getElem?_modify, h, Function.comp_def]
  · simp [isRunning, markContinued, Array.getElem?_modify, h]

@[simp] theorem isContinued_markReturned :
    (l.markReturned number).isContinued i = l.isContinued i := by
  by_cases h : number = i
  · simp [isContinued, markReturned, Array.getElem?_modify, h, Function.comp_def]
  · simp [isContinued, markReturned, Array.getElem?_modify, h]

theorem isRunning_markReturned_self : (l.markReturned number).isRunning number = false := by
  by_cases h : number < l.marks.size
  · simp [isRunning, markReturned, Array.getElem_modify_self, h]
  · simp [isRunning, markReturned, h]

theorem isRunning_markReturned_of_ne (h : i ≠ number) :
    (l.markReturned number).isRunning i = l.isRunning i := by
  simp [isRunning, markReturned, Array.getElem?_modify, h.symm]

/-- No round is lost, and none that was continued is open again. -/
structure Later (l l' : Ledger) : Prop where
  size_le : l.size ≤ l'.size
  continued : ∀ i, l.isContinued i = true → l'.isContinued i = true

namespace Later

theorem refl (l : Ledger) : Later l l := ⟨le_rfl, fun _ h => h⟩

theorem trans (h : Later l l') (h' : Later l' l'') : Later l l'' :=
  ⟨h.size_le.trans h'.size_le, fun i hi => h'.continued i (h.continued i hi)⟩

theorem start (l : Ledger) : Later l l.start := ⟨by simp, fun _ h => by simpa using h⟩

theorem markContinued (l : Ledger) (number : Nat) : Later l (l.markContinued number) := by
  refine ⟨by simp, fun i hi => ?_⟩
  rcases eq_or_ne i number with rfl | h
  · exact isContinued_markContinued_self (lt_size_of_isContinued hi)
  · rwa [isContinued_markContinued_of_ne h]

theorem markReturned (l : Ledger) (number : Nat) : Later l (l.markReturned number) :=
  ⟨by simp, fun _ h => by simpa using h⟩

end Later

/-- Nothing has happened to the rounds of the earlier ledger. -/
structure Extends (l l' : Ledger) : Prop where
  size_le : l.size ≤ l'.size
  isContinued : ∀ i < l.size, l'.isContinued i = l.isContinued i
  isRunning : ∀ i < l.size, l'.isRunning i = l.isRunning i

namespace Extends

theorem refl (l : Ledger) : Extends l l := ⟨le_rfl, fun _ _ => rfl, fun _ _ => rfl⟩

theorem trans (h : Extends l l') (h' : Extends l' l'') : Extends l l'' where
  size_le := h.size_le.trans h'.size_le
  isContinued i hi := (h'.isContinued i (hi.trans_le h.size_le)).trans (h.isContinued i hi)
  isRunning i hi := (h'.isRunning i (hi.trans_le h.size_le)).trans (h.isRunning i hi)

theorem start (l : Ledger) : Extends l l.start :=
  ⟨by simp, fun _ _ => isContinued_start_eq, fun _ hi => isRunning_start_of_ne hi.ne⟩

theorem markContinued (h : Extends l l') (hNumber : l.size ≤ number) :
    Extends l (l'.markContinued number) where
  size_le := by simpa using h.size_le
  isContinued i hi :=
    (isContinued_markContinued_of_ne (hi.trans_le hNumber).ne).trans (h.isContinued i hi)
  isRunning i hi := isRunning_markContinued.trans (h.isRunning i hi)

theorem markReturned (h : Extends l l') (hNumber : l.size ≤ number) :
    Extends l (l'.markReturned number) where
  size_le := by simpa using h.size_le
  isContinued i hi := isContinued_markReturned.trans (h.isContinued i hi)
  isRunning i hi :=
    (isRunning_markReturned_of_ne (hi.trans_le hNumber).ne).trans (h.isRunning i hi)

end Extends

end Descent.Ledger
