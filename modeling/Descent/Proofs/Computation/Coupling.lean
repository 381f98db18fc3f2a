import Descent.Computation.Plain
import Descent.Proofs.Computation.Delivery

/-! # Computations that run side by side

Two computations of one base are coupled when they are the two sides of a single computation of
pairs: effect for effect they are the same, and the values that they deliver together are related.
Like `Delivers`, this is said at once of bases that deliver one value, many or none. -/

namespace Descent

variable {α α' β β' : Type}

/-- Turns that go on from related seeds, or end with related results. -/
inductive Turn.Related (q : β → β' → Prop) (r : α → α' → Prop) : Turn β α → Turn β' α' → Prop where
  | next {b : β} {b' : β'} : q b b' → Related q r (.next b) (.next b')
  | done {a : α} {a' : α'} : r a a' → Related q r (.done a) (.done a')

structure Pair (r : α → α' → Prop) where
  left : α
  right : α'
  related : r left right

namespace Pair

variable {r : α → α' → Prop} {q : β → β' → Prop}

def turn : Pair (Turn.Related q r) → Turn (Pair q) (Pair r)
  | ⟨.next b, .next b', h⟩ => .next ⟨b, b', by cases h; assumption⟩
  | ⟨.done a, .done a', h⟩ => .done ⟨a, a', by cases h; assumption⟩
  | ⟨.next _, .done _, h⟩ => nomatch h
  | ⟨.done _, .next _, h⟩ => nomatch h

theorem map_left_turn (p : Pair (Turn.Related q r)) : Turn.map left left p.turn = p.left := by
  obtain ⟨_, _, h⟩ := p
  cases h <;> rfl

theorem map_right_turn (p : Pair (Turn.Related q r)) : Turn.map right right p.turn = p.right := by
  obtain ⟨_, _, h⟩ := p
  cases h <;> rfl

end Pair

variable {m : Type → Type} [Computation m]

/-- Both are one computation of related values, seen from the left and from the right. -/
def Coupled (r : α → α' → Prop) (x : m α) (x' : m α') : Prop :=
  ∃ y : m (Pair r), Pair.left <$> y = x ∧ Pair.right <$> y = x'

namespace Coupled

theorem eq {x x' : m α} (h : Coupled Eq x x') : x = x' := by
  obtain ⟨y, rfl, rfl⟩ := h
  exact congrArg (· <$> y) (funext Pair.related)

variable [UniformComputation m] {r : α → α' → Prop} {q : β → β' → Prop}

theorem pure {a : α} {a' : α'} (h : r a a') : Coupled r (Pure.pure a : m α) (Pure.pure a') :=
  ⟨Pure.pure ⟨a, a', h⟩, UniformSequencing.map_pure _ _, UniformSequencing.map_pure _ _⟩

theorem fault (f : Fault) : Coupled r (Computation.fault f : m α) (Computation.fault f) :=
  ⟨Computation.fault f, UniformSequencing.map_fault _ _, UniformSequencing.map_fault _ _⟩

theorem refl (x : m α) : Coupled Eq x x := by
  refine ⟨(fun a => ⟨a, a, rfl⟩) <$> x, ?_, ?_⟩
  · rw [← LawfulFunctor.comp_map]
    exact LawfulFunctor.id_map x
  · rw [← LawfulFunctor.comp_map]
    exact LawfulFunctor.id_map x

theorem mono {r' : α → α' → Prop} {x : m α} {x' : m α'} (h : Coupled r x x')
    (hr : ∀ a a', r a a' → r' a a') : Coupled r' x x' := by
  obtain ⟨y, rfl, rfl⟩ := h
  refine ⟨(fun p : Pair r => ⟨p.left, p.right, hr _ _ p.related⟩) <$> y, ?_, ?_⟩
  · rw [← LawfulFunctor.comp_map]
    rfl
  · rw [← LawfulFunctor.comp_map]
    rfl

theorem bind {x : m α} {x' : m α'} {f : α → m β} {f' : α' → m β'} (hx : Coupled r x x')
    (hf : ∀ a a', r a a' → Coupled q (f a) (f' a')) : Coupled q (x >>= f) (x' >>= f') := by
  obtain ⟨y, rfl, rfl⟩ := hx
  choose z hLeft hRight using fun p : Pair r => hf p.left p.right p.related
  refine ⟨y >>= z, ?_, ?_⟩
  · rw [UniformSequencing.map_bind, UniformSequencing.bind_map_left]
    exact congrArg (y >>= ·) (funext hLeft)
  · rw [UniformSequencing.map_bind, UniformSequencing.bind_map_left]
    exact congrArg (y >>= ·) (funext hRight)

theorem loop {step : β → m (Turn β α)} {step' : β' → m (Turn β' α')}
    (hStep : ∀ b b', q b b' → Coupled (Turn.Related q r) (step b) (step' b')) (rounds : Nat) {b : β}
    {b' : β'} (hSeed : q b b') :
    Coupled r (Computation.loop rounds step b) (Computation.loop rounds step' b') := by
  choose z hLeft hRight using fun p : Pair q => hStep p.left p.right p.related
  -- One loop over related seeds is both loops.
  refine ⟨Computation.loop rounds (fun p => Pair.turn <$> z p) ⟨b, b', hSeed⟩, ?_, ?_⟩
  · apply UniformComputation.map_loop (f := Pair.left)
    intro p
    rw [← LawfulFunctor.comp_map, ← hLeft p]
    exact congrArg (· <$> z p) (funext fun turns => turns.map_left_turn.symm)
  · apply UniformComputation.map_loop (f := Pair.right)
    intro p
    rw [← LawfulFunctor.comp_map, ← hRight p]
    exact congrArg (· <$> z p) (funext fun turns => turns.map_right_turn.symm)

end Coupled

theorem Plain.related_of_coupled {r : α → α' → Prop} {a : α} {a' : α'}
    (h : Coupled r (.ok a : Plain α) (.ok a')) : r a a' := by
  obtain ⟨f | p, hLeft, hRight⟩ := h
  · cases hLeft
  · cases hLeft
    cases hRight
    exact p.related

end Descent
