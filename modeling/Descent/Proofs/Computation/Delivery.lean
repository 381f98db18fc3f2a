import Mathlib.Tactic.Choose
import Descent.Computation.Basic

/-! # What a computation delivers

A base computation may deliver no value, one or many, may hand its continuation out, or may end in a
fault. `Delivers P x` says of all of them at once that only values with `P` arrive at what follows
`x`. It is closed under sequencing and loops wherever relabelling values commutes with the
operations. That is all `UniformComputation` asks for: neither associativity nor any law that ties a
loop to sequencing is assumed, since not every base computation has them. -/

namespace Descent

variable {α α' β β' γ : Type}

namespace Turn

def map (f : β → β') (g : α → α') : Turn β α → Turn β' α'
  | next seed => next (f seed)
  | done result => done (g result)

/-- A condition on seeds and one on results, taken of a turn. -/
def All (I : β → Prop) (P : α → Prop) : Turn β α → Prop
  | next seed => I seed
  | done result => P result

def attach {I : β → Prop} {P : α → Prop} :
    {turn : Turn β α // turn.All I P} → Turn {b // I b} {a // P a}
  | ⟨next seed, h⟩ => next ⟨seed, h⟩
  | ⟨done result, h⟩ => done ⟨result, h⟩

theorem map_val_attach {I : β → Prop} {P : α → Prop} (turn : {turn : Turn β α // turn.All I P}) :
    map Subtype.val Subtype.val (attach turn) = turn.val := by
  obtain ⟨turn, h⟩ := turn
  cases turn <;> rfl

end Turn

/-- A base computation whose sequencing does not look at the values that pass through it. -/
class UniformSequencing (m : Type → Type) [Computation m] : Prop extends LawfulFunctor m where
  map_pure {α β : Type} (g : α → β) (a : α) : g <$> (pure a : m α) = pure (g a)
  map_bind {α β γ : Type} (g : β → γ) (x : m α) (f : α → m β) :
    g <$> (x >>= f) = x >>= fun a => g <$> f a
  bind_map_left {α β γ : Type} (g : α → β) (x : m α) (f : β → m γ) :
    g <$> x >>= f = x >>= fun a => f (g a)
  map_fault {α β : Type} (g : α → β) (f : Fault) :
    g <$> (Computation.fault f : m α) = Computation.fault f

/-- A base computation whose loops do not look at seeds and results either. -/
class UniformComputation (m : Type → Type) [Computation m] : Prop extends UniformSequencing m where
  map_loop {α α' β β' : Type} {f : β → β'} {g : α → α'} {step : β → m (Turn β α)}
    {step' : β' → m (Turn β' α')} (hStep : ∀ b, step' (f b) = Turn.map f g <$> step b)
    (rounds : Nat) (seed : β) :
    g <$> Computation.loop rounds step seed = Computation.loop rounds step' (f seed)

variable {m : Type → Type} [Computation m]

theorem map_unrolled [UniformSequencing m] {f : β → β'} {g : α → α'} {step : β → m (Turn β α)}
    {step' : β' → m (Turn β' α')} (hStep : ∀ b, step' (f b) = Turn.map f g <$> step b)
    (rounds : Nat) (seed : β) :
    g <$> unrolled (Computation.fault .exhausted) step rounds seed =
      unrolled (Computation.fault .exhausted) step' rounds (f seed) := by
  induction rounds generalizing seed with
  | zero => exact UniformSequencing.map_fault g .exhausted
  | succ rounds ih =>
    rw [unrolled, unrolled, hStep, UniformSequencing.map_bind, UniformSequencing.bind_map_left]
    congr 1
    funext turn
    cases turn with
    | next seed => exact ih seed
    | done result => exact UniformSequencing.map_pure g result

/-- Every value that `x` delivers has `P`: `x` is a computation of values that come with `P`. -/
def Delivers (P : α → Prop) (x : m α) : Prop := ∃ y : m {a // P a}, Subtype.val <$> y = x

namespace Delivers

variable [UniformComputation m] {P : α → Prop} {Q : β → Prop}

theorem pure {a : α} (h : P a) : Delivers P (Pure.pure a : m α) :=
  ⟨Pure.pure ⟨a, h⟩, UniformSequencing.map_pure _ _⟩

theorem fault (f : Fault) : Delivers P (Computation.fault f : m α) :=
  ⟨Computation.fault f, UniformSequencing.map_fault _ _⟩

theorem mono {P' : α → Prop} {x : m α} (hx : Delivers P x) (h : ∀ a, P a → P' a) :
    Delivers P' x := by
  obtain ⟨y, rfl⟩ := hx
  refine ⟨(fun a : {a // P a} => ⟨a.val, h a.val a.property⟩) <$> y, ?_⟩
  rw [← LawfulFunctor.comp_map]
  rfl

theorem anything (x : m α) : Delivers (fun _ => True) x := by
  refine ⟨(fun a => ⟨a, trivial⟩) <$> x, ?_⟩
  rw [← LawfulFunctor.comp_map]
  exact LawfulFunctor.id_map x

theorem bind {x : m α} {f : α → m β} (hx : Delivers P x) (hf : ∀ a, P a → Delivers Q (f a)) :
    Delivers Q (x >>= f) := by
  obtain ⟨y, rfl⟩ := hx
  choose z hz using fun a : {a // P a} => hf a.val a.property
  refine ⟨y >>= z, ?_⟩
  rw [UniformSequencing.map_bind, UniformSequencing.bind_map_left]
  exact congrArg (y >>= ·) (funext hz)

/-- What follows a computation matters only at the values that it delivers. -/
theorem bind_congr {x : m α} {f f' : α → m β} (hx : Delivers P x)
    (hf : ∀ a, P a → f a = f' a) : x >>= f = x >>= f' := by
  obtain ⟨y, rfl⟩ := hx
  rw [UniformSequencing.bind_map_left, UniformSequencing.bind_map_left]
  exact congrArg (y >>= ·) (funext fun a => hf a.val a.property)

/-- What every round keeps, the whole loop keeps: `I` is the invariant of the seeds. -/
theorem loop {I : β → Prop} {step : β → m (Turn β α)}
    (hStep : ∀ b, I b → Delivers (Turn.All I P) (step b)) (rounds : Nat) {seed : β}
    (hSeed : I seed) : Delivers P (Computation.loop rounds step seed) := by
  choose known hKnown using fun b : {b // I b} => hStep b.val b.property
  -- The same loop over seeds that carry the invariant delivers results that carry `P`.
  refine ⟨Computation.loop rounds (fun b => Turn.attach <$> known b) ⟨seed, hSeed⟩, ?_⟩
  apply UniformComputation.map_loop (f := Subtype.val)
  intro b
  calc
    step b.val = Subtype.val <$> known b := (hKnown b).symm
    _ = (Turn.map Subtype.val Subtype.val ∘ Turn.attach) <$> known b :=
      congrArg (· <$> known b) (funext fun turn => (Turn.map_val_attach turn).symm)
    _ = Turn.map Subtype.val Subtype.val <$> Turn.attach <$> known b :=
      LawfulFunctor.comp_map _ _ _

end Delivers

end Descent
