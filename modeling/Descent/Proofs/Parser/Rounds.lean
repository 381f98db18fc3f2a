import Descent.Proofs.Computation.Bases
import Descent.Proofs.Parser.Observation

/-! # Repetition round by round

What `many` comes to is told by its rounds alone: they run one after the other, each from the state
that the one before left, up to the first that is not a success with consumption. How that round
ends decides the outcome. The two loops of a repetition, before and after the first consumption, are
not seen. Nothing is asked of the repeated parser. -/

namespace Descent

variable {σ τ υ α : Type}

/-- How a round ends that is not a success with consumption. -/
inductive Halt where
  /-- A failure that consumed nothing. -/
  | refused (hint : Hint)
  /-- A failure after consumption. -/
  | failed (hint : Hint)
  /-- A success that consumed nothing. -/
  | idle

/-- The values of the rounds so far, in order, and the state after them. -/
structure Rounds (σ υ α : Type) where
  values : List α
  state : State σ υ

namespace Gathered

theorem state_start [Source σ τ] (s : State σ υ) : (start s : Gathered σ υ α).state = s := rfl

theorem state_push (g : Gathered σ υ α) (a : α) (s : State σ υ) (h : Hint) :
    (g.push a s h).state = s := rfl

end Gathered

theorem Repetition.absorb_untilFailure (g : Gathered σ υ α) (t : Tagged (Reply σ υ α)) :
    untilFailure.absorb g t.consumed (t.value.map Yield.value) =
      match t with
      | ⟨true, .ok a s h⟩ => .ok (.next (g.push a s h))
      | ⟨true, .error h⟩ => .ok (.done (.error h))
      | ⟨false, .error h⟩ => .ok (.done (.ok g.values g.state h))
      | ⟨false, .ok _ _ _⟩ => .error .emptyRound := by
  obtain ⟨_ | _, _ | _⟩ := t <;> rfl

namespace Parser

variable {m n : Type → Type} [Computation m] [Computation n]

/-- Runs rounds up to the first that is not a success with consumption. -/
def consumedRounds (seen : State σ υ → n (Tagged (Reply σ υ α))) :
    Nat → Rounds σ υ α → n (Rounds σ υ α × Halt)
  | 0, _ => Computation.fault .exhausted
  | left + 1, past => do
    match ← seen past.state with
    | ⟨true, .ok a s _⟩ => consumedRounds seen left ⟨past.values ++ [a], s⟩
    | ⟨true, .error h⟩ => pure (past, .failed h)
    | ⟨false, .error h⟩ => pure (past, .refused h)
    | ⟨false, .ok _ _ _⟩ => pure (past, .idle)

/-- What the rounds and the end of the last one come to. -/
def concluded : Rounds σ υ α × Halt → n (Tagged (Reply σ υ (List α)))
  | (past, .refused h) => pure ⟨0 < past.values.length, .ok past.values past.state h⟩
  | (_, .failed h) => pure ⟨true, .error h⟩
  | (_, .idle) => Computation.fault .emptyRound

variable [LawfulComputation n] (seen : State σ υ → n (Tagged (Reply σ υ α)))

theorem consumedRounds_concluded (left : Nat) (past : Rounds σ υ α) :
    consumedRounds seen (left + 1) past >>= concluded =
      seen past.state >>= fun t =>
        match t with
        | ⟨true, .ok a s _⟩ => consumedRounds seen left ⟨past.values ++ [a], s⟩ >>= concluded
        | ⟨true, .error h⟩ => pure ⟨true, .error h⟩
        | ⟨false, .error h⟩ => pure ⟨0 < past.values.length, .ok past.values past.state h⟩
        | ⟨false, .ok _ _ _⟩ => Computation.fault .emptyRound := by
  rw [consumedRounds, bind_assoc]
  congr 1
  funext t
  obtain ⟨_ | _, _ | _⟩ := t <;> simp [concluded]

/-- Behind a first round there is a value, so that an end without failure is tagged as consumed. -/
theorem innerRounds_eq (left : Nat) (g : Gathered σ υ α) (hg : 0 < g.values.length) :
    Tagged.mk true <$> Computation.loop left
        (roundView .untilFailure fun s => Tagged.map (Reply.map Yield.value) <$> seen s) g =
      consumedRounds seen left ⟨g.values, g.state⟩ >>= concluded := by
  induction left generalizing g with
  | zero => simp [LawfulComputation.loop_zero, consumedRounds]
  | succ left ih =>
    simp only [LawfulComputation.loop_succ, roundView, consumedRounds_concluded, bind_map_left,
      bind_assoc, map_bind, Tagged.consumed_map, Tagged.value_map, Repetition.absorb_untilFailure]
    congr 1
    funext t
    obtain ⟨_ | _, ⟨a, s, h⟩ | h⟩ := t
    · simp [turned, Turn.proceed]
    · simp [turned, Turn.proceed, hg]
    · have hRest := ih (g.push a s h) (by simp)
      rw [Gathered.values_push, Gathered.state_push] at hRest
      simpa [turned, Turn.proceed] using hRest
    · simp [turned, Turn.proceed]

/-- The first round decides alone, or with consumption it has the rest of the repetition behind it.
The outer loop runs this one round only, and the inner loop has the whole bound again. -/
theorem view_many_first [Source σ τ] (φ : Transfer m n) (rounds : Nat) (p : Parser m σ υ α)
    (s : State σ υ) :
    (many (rounds + 1) p).view φ s = p.view φ s >>= fun t =>
      match t with
      | ⟨true, .ok a s' _⟩ => consumedRounds (p.view φ) (rounds + 1) ⟨[a], s'⟩ >>= concluded
      | ⟨true, .error h⟩ => pure ⟨true, .error h⟩
      | ⟨false, .error h⟩ => pure ⟨false, .ok [] s h⟩
      | ⟨false, .ok _ _ _⟩ => Computation.fault .emptyRound := by
  have hSeen : (p.map Yield.value).view φ =
      fun s => Tagged.map (Reply.map Yield.value) <$> p.view φ s :=
    funext fun s => view_map φ Yield.value p s
  rw [many, view_gather, hSeen]
  simp only [gatherView, bind_map_left, Tagged.consumed_map, Tagged.value_map,
    Repetition.absorb_untilFailure]
  congr 1
  funext t
  obtain ⟨_ | _, ⟨a, s', h⟩ | h⟩ := t
  · simp [turned]
  · simp [turned, Gathered.state_start]
  · have hRest := innerRounds_eq (p.view φ) (rounds + 1) ((Gathered.start s).push a s' h) (by simp)
    rw [Gathered.values_push, Gathered.state_push] at hRest
    simpa [turned, consumedRounds_concluded] using hRest
  · simp [turned]

theorem many_round_by_round [Source σ τ] (φ : Transfer m n) (rounds : Nat) (p : Parser m σ υ α)
    (s : State σ υ) :
    (many (rounds + 1) p).view φ s =
      consumedRounds (p.view φ) (rounds + 2) ⟨[], s⟩ >>= concluded := by
  rw [view_many_first, consumedRounds_concluded]
  rfl

/-- A parser made by hand reads an `a` and counts it in the user state. On `aab` it has two rounds,
and the hint is that of the round which met the `b`; on `b` it has none; and where nothing is read
the repetition stops. -/
theorem many_round_by_round_counted :
    let missed (pos : Position) : Hint := .single pos .expected [97]
    let p : Parser Plain Text Nat Rune := fun s =>
      match Source.next? s.input with
      | some (r, rest) =>
        if r.code = 97 then reply true (.ok r ⟨rest, s.user + 1⟩ (.unknown s.pos))
        else reply false (.error (missed s.pos))
      | none => Parser.pure ⟨0⟩ s
    let observed (src : Bytes) := (many 3 p).observe ⟨.ofBytes [] src, 0⟩
    observed [97, 97, 98] = .ok ⟨true, .ok [⟨97⟩, ⟨97⟩] ⟨⟨[98], ⟨[], 2, 1, 3⟩⟩, 2⟩
        (missed ⟨[], 2, 1, 3⟩)⟩ ∧
      observed [98] = .ok ⟨false, .ok [] ⟨⟨[98], ⟨[], 0, 1, 1⟩⟩, 0⟩ (missed ⟨[], 0, 1, 1⟩)⟩ ∧
      observed [97] = .error .emptyRound := by
  intro missed p observed
  have hRounds (src : Bytes) := many_round_by_round (.refl Plain) 2 p ⟨.ofBytes [] src, 0⟩
  exact ⟨(hRounds _).trans rfl, (hRounds _).trans rfl, (hRounds _).trans rfl⟩

end Parser

end Descent
