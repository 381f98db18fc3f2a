import Descent.Proofs.Computation.Delivery

/-! # Laws of base computations

A lawful base computation obeys the monad laws, is ended by a fault, and runs a loop as its nested
unrolling. Some computations obey these laws only up to what can be seen of them: a log kept as a
tree remembers how it was joined. Such a computation is carried over to a lawful one by a
`Transfer`, and two of its computations count as equal when they are carried to the same one. -/

namespace Descent

variable {α β : Type}

/-- A base computation with the laws that its users rely on. -/
class LawfulComputation (m : Type → Type) [Computation m] : Prop extends LawfulMonad m where
  fault_bind {α β : Type} (f : Fault) (k : α → m β) :
    (Computation.fault f : m α) >>= k = Computation.fault f
  loop_eq_unrolled {α β : Type} (rounds : Nat) (step : β → m (Turn β α)) (seed : β) :
    Computation.loop rounds step seed =
      unrolled (Computation.fault .exhausted) step rounds seed

/-- What follows a round: its result, or the loop from the next seed. -/
def Turn.proceed {m : Type → Type} [Monad m] (again : β → m α) : Turn β α → m α
  | next seed => again seed
  | done result => pure result

namespace LawfulComputation

variable {m : Type → Type} [Computation m] [LawfulComputation m] {step : β → m (Turn β α)}
  {rounds : Nat} {seed : β}

theorem loop_zero : Computation.loop 0 step seed = Computation.fault .exhausted :=
  loop_eq_unrolled 0 step seed

theorem loop_succ : Computation.loop (rounds + 1) step seed =
    step seed >>= Turn.proceed (Computation.loop rounds step) := by
  rw [loop_eq_unrolled, unrolled]
  congr 1
  funext turn
  cases turn with
  | next seed => exact (loop_eq_unrolled rounds step seed).symm
  | done result => rfl

end LawfulComputation

/-- A base computation in which an empty round is seen of the whole, whichever run comes to it. -/
class ReportingComputation (m : Type → Type) [Computation m] : Prop where
  delivers_of_bind {α β : Type} {x : m α} {f : α → m β} :
    x >>= f ≠ Computation.fault .emptyRound →
    Delivers (fun a => f a ≠ Computation.fault .emptyRound) x

section

variable {m : Type → Type} [Computation m] [LawfulComputation m]

@[simp] theorem fault_bind (f : Fault) (k : α → m β) :
    (Computation.fault f : m α) >>= k = Computation.fault f :=
  LawfulComputation.fault_bind f k

@[simp] theorem map_fault (g : α → β) (f : Fault) :
    g <$> (Computation.fault f : m α) = Computation.fault f := by
  rw [map_eq_pure_bind, fault_bind]

instance : UniformSequencing m where
  map_pure := map_pure
  map_bind g x f := map_bind g x f
  bind_map_left g x f := bind_map_left g x f
  map_fault := map_fault

instance : UniformComputation m where
  map_loop hStep rounds seed := by
    rw [LawfulComputation.loop_eq_unrolled, LawfulComputation.loop_eq_unrolled]
    exact map_unrolled hStep rounds seed

end

/-- A translation of computations that keeps values, sequencing, faults and loops. -/
structure Transfer (m n : Type → Type) [Computation m] [Computation n] where
  carry {α : Type} : m α → n α
  carry_pure {α : Type} (a : α) : carry (pure a : m α) = pure a
  carry_bind {α β : Type} (x : m α) (f : α → m β) :
    carry (x >>= f) = carry x >>= fun a => carry (f a)
  carry_fault {α : Type} (f : Fault) :
    carry (Computation.fault f : m α) = Computation.fault f
  carry_loop {α β : Type} (rounds : Nat) (step : β → m (Turn β α)) (seed : β) :
    carry (Computation.loop rounds step seed) =
      Computation.loop rounds (fun b => carry (step b)) seed

namespace Transfer

attribute [simp] carry_pure carry_bind carry_fault

def refl (m : Type → Type) [Computation m] : Transfer m m where
  carry x := x
  carry_pure _ := rfl
  carry_bind _ _ := rfl
  carry_fault _ := rfl
  carry_loop _ _ _ := rfl

section

variable {m n : Type → Type} [Computation m] [UniformComputation m] [Computation n] [LawfulMonad n]
  (φ : Transfer m n) {P Q : α → Prop} {x : m α}

/-- A translated computation has only the values of the original to pass on. -/
theorem map_carry_congr (hx : Delivers P x) {f g : α → β} (h : ∀ a, P a → f a = g a) :
    f <$> φ.carry x = g <$> φ.carry x := by
  have hSame : (x >>= fun a => pure (f a)) = x >>= fun a => pure (g a) :=
    hx.bind_congr fun a ha => congrArg pure (h a ha)
  have hCarried := congrArg φ.carry hSame
  simpa only [φ.carry_bind, φ.carry_pure, ← map_eq_pure_bind] using hCarried

theorem carry_bind_congr (hx : Delivers P x) {f g : α → n β} (h : ∀ a, P a → f a = g a) :
    φ.carry x >>= f = φ.carry x >>= g := by
  have hMapped := φ.map_carry_congr hx h
  calc
    φ.carry x >>= f = f <$> φ.carry x >>= id := (bind_map_left f _ id).symm
    _ = g <$> φ.carry x >>= id := by rw [hMapped]
    _ = φ.carry x >>= g := bind_map_left g _ id

/-- Two conditions on what is delivered hold of it together. -/
theorem carry_bind_congr_and (hP : Delivers P x) (hQ : Delivers Q x) {f g : α → n β}
    (h : ∀ a, P a → Q a → f a = g a) : φ.carry x >>= f = φ.carry x >>= g := by
  classical
  let mixed (a : α) : n β := if P a then f a else g a
  have hLeft : φ.carry x >>= f = φ.carry x >>= mixed :=
    φ.carry_bind_congr hP fun a ha => (if_pos ha).symm
  have hRight : φ.carry x >>= mixed = φ.carry x >>= g := by
    apply φ.carry_bind_congr hQ
    intro a hQa
    by_cases hPa : P a
    · exact (if_pos hPa).trans (h a hPa hQa)
    · exact if_neg hPa
  exact hLeft.trans hRight

end

end Transfer

end Descent
