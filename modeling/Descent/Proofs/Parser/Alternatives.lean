import Descent.Proofs.Parser.MonadLaws

/-! # Alternatives in order

A choice is told by its alternatives alone: they run one after the other, each from the state in
which the choice started, up to the first that is not refused, and none runs behind it. The choice
is nested to the right, so that hints are joined from the inside out; in order they come to the
same. With `attempt` around each alternative every failure is a refusal, and the first success is
taken. Nothing is asked of the alternatives, and of the base computation no more than the monad
laws. -/

namespace Descent

variable {σ τ υ α : Type}

instance : Std.Associative Hint.merge := ⟨Hint.merge_assoc⟩

namespace Tagged

/-- What is left of a success without its hint. -/
def success? : Tagged (Reply σ υ α) → Option (Tagged (α × State σ υ))
  | ⟨consumed, .ok a s _⟩ => some ⟨consumed, a, s⟩
  | ⟨_, .error _⟩ => none

theorem isSome_success? (t : Tagged (Reply σ υ α)) : t.success?.isSome = t.value.isOk := by
  obtain ⟨consumed, r⟩ := t
  cases r <;> rfl

theorem success?_follow (h : Hint) (t : Tagged (Reply σ υ α)) :
    (t.follow false h).success? = t.success? := by
  obtain ⟨consumed, r⟩ := t
  cases consumed <;> cases r <;> rfl

theorem success?_attempt (t : Tagged (Reply σ υ α)) : t.attempt.success? = t.success? := by
  obtain ⟨consumed, r⟩ := t
  cases consumed <;> cases r <;> rfl

theorem refused?_attempt (t : Tagged (Reply σ υ α)) :
    t.attempt.refused? = if t.value.isOk then none else some t.value.hint := by
  obtain ⟨consumed, r⟩ := t
  cases consumed <;> cases r <;> rfl

theorem refused?_follow (h : Hint) (t : Tagged (Reply σ υ α)) :
    (t.follow false h).refused? = t.refused?.map h.merge := by
  obtain ⟨consumed, r⟩ := t
  cases consumed <;> cases r <;> rfl

theorem eq_of_refused? {t : Tagged (Reply σ υ α)} {h : Hint} (ht : t.refused? = some h) :
    t = ⟨false, .error h⟩ := by
  obtain ⟨_ | _, _ | _⟩ := t <;> cases ht
  rfl

end Tagged

/-- How alternatives are decided: all of them are refused, or one is taken behind the refusals of
those before it. -/
inductive Trial (σ υ α : Type) where
  | refused (hints : List Hint)
  | taken (earlier : List Hint) (t : Tagged (Reply σ υ α))

namespace Trial

/-- The trial of alternatives with one more, which was refused, in front of them. -/
def behind (h : Hint) : Trial σ υ α → Trial σ υ α
  | refused hints => refused (h :: hints)
  | taken earlier t => taken (h :: earlier) t

/-- What a trial from a state comes to. Hints count from the first to the last, and those of earlier
refusals count only where nothing was consumed. -/
def outcome [Source σ τ] (s : State σ υ) : Trial σ υ α → Tagged (Reply σ υ α)
  | refused [] => ⟨false, .error (.unknown s.pos)⟩
  | refused (h :: later) => ⟨false, .error (later.foldl Hint.merge h)⟩
  | taken [] t => t
  | taken (h :: later) ⟨false, r⟩ => ⟨false, r.after (later.foldl Hint.merge h)⟩
  | taken (_ :: _) ⟨true, r⟩ => ⟨true, r⟩

theorem outcome_behind [Source σ τ] (s : State σ υ) (h : Hint) {T : Trial σ υ α}
    (hT : T ≠ refused []) : (T.behind h).outcome s = (T.outcome s).follow false h := by
  rcases T with (_ | ⟨h', later⟩) | ⟨_ | ⟨h', later⟩, _ | _, r⟩
  · exact absurd rfl hT
  · change Tagged.mk false (Reply.error (later.foldl Hint.merge (h.merge h'))) = _
    rw [List.foldl_assoc]
    rfl
  · rfl
  · rfl
  · change Tagged.mk false (r.after (later.foldl Hint.merge (h.merge h'))) = _
    rw [List.foldl_assoc, ← Reply.after_after]
    rfl
  · rfl

theorem success?_outcome_behind [Source σ τ] (s : State σ υ) (h : Hint) (T : Trial σ υ α) :
    ((T.behind h).outcome s).success? = (T.outcome s).success? := by
  by_cases hT : T = refused []
  · rw [hT]
    rfl
  · rw [outcome_behind s h hT, Tagged.success?_follow]

end Trial

namespace Parser

section

variable {n : Type → Type} [Monad n]

/-- Runs alternatives up to the first that is not refused. -/
def trial : List (n (Tagged (Reply σ υ α))) → n (Trial σ υ α)
  | [] => pure (.refused [])
  | seen :: later => do
    let t ← seen
    match t.refused? with
    | none => pure (.taken [] t)
    | some h => Trial.behind h <$> trial later

/-- Runs alternatives up to the first success. -/
def firstSuccess : List (n (Tagged (Reply σ υ α))) → n (Option (Tagged (α × State σ υ)))
  | [] => pure none
  | seen :: later => do
    let t ← seen
    match t.success? with
    | some found => pure (some found)
    | none => firstSuccess later

/-- What an outcome is followed by where a refusal gives way to `next`. -/
def fallback (next : n (Tagged (Reply σ υ α))) (t : Tagged (Reply σ υ α)) :
    n (Tagged (Reply σ υ α)) :=
  match t.refused? with
  | some h => Tagged.follow false h <$> next
  | none => pure t

variable [LawfulMonad n]

-- A trial of at least one alternative has an outcome of its own.
theorem map_trial_congr {β : Type} {f g : Trial σ υ α → β}
    (h : ∀ T, T ≠ .refused [] → f T = g T) (seen : n (Tagged (Reply σ υ α)))
    (later : List (n (Tagged (Reply σ υ α)))) :
    f <$> trial (seen :: later) = g <$> trial (seen :: later) := by
  rw [trial, map_bind, map_bind]
  congr 1
  funext t
  cases t.refused? with
  | none => simp only [map_pure, h (.taken [] t) nofun]
  | some hint =>
    have hBehind (T : Trial σ υ α) : f (T.behind hint) = g (T.behind hint) := by
      cases T <;> exact h _ nofun
    simp only [Functor.map_map, hBehind]

theorem success?_trial [Source σ τ] (s : State σ υ) (seen : List (n (Tagged (Reply σ υ α)))) :
    (fun T => (Trial.outcome s T).success?) <$> trial (seen.map (Tagged.attempt <$> ·)) =
      firstSuccess seen := by
  induction seen with
  | nil =>
    rw [List.map_nil, trial, map_pure]
    rfl
  | cons x later ih =>
    rw [List.map_cons, trial, firstSuccess, bind_map_left, map_bind]
    congr 1
    funext t
    rw [Tagged.refused?_attempt, ← Tagged.isSome_success?]
    cases hSuccess : t.success? with
    | none => simpa [Trial.success?_outcome_behind] using ih
    | some found =>
      have hTaken : (Trial.outcome s (.taken [] t.attempt)).success? = some found :=
        t.success?_attempt.trans hSuccess
      simp [hTaken]

theorem map_attempt_pure (ts : List (Tagged (Reply σ υ α))) :
    (ts.map pure : List (n (Tagged (Reply σ υ α)))).map (Tagged.attempt <$> ·) =
      (ts.map Tagged.attempt).map pure := by
  simp only [List.map_map, Function.comp_def, map_pure]

theorem firstSuccess_pure (ts : List (Tagged (Reply σ υ α))) :
    firstSuccess (ts.map pure : List (n (Tagged (Reply σ υ α)))) =
      pure (ts.findSome? Tagged.success?) := by
  induction ts with
  | nil => rfl
  | cons t later ih =>
    rw [List.map_cons, firstSuccess, pure_bind, List.findSome?_cons]
    cases t.success? with
    | none => exact ih
    | some found => rfl

end

/-- How alternatives without effects are decided does not depend on the base. -/
theorem exists_trial_pure (ts : List (Tagged (Reply σ υ α))) :
    ∃ T : Trial σ υ α, ∀ (n : Type → Type) [Monad n] [LawfulMonad n],
      (trial (ts.map pure) : n (Trial σ υ α)) = pure T := by
  induction ts with
  | nil => exact ⟨.refused [], fun _ _ _ => rfl⟩
  | cons t later ih =>
    obtain ⟨T, hT⟩ := ih
    cases hRefused : t.refused? with
    | none =>
      refine ⟨.taken [] t, fun n _ _ => ?_⟩
      rw [List.map_cons, trial, pure_bind, hRefused]
    | some h =>
      refine ⟨T.behind h, fun n _ _ => ?_⟩
      rw [List.map_cons, trial, pure_bind, hRefused, hT]
      exact map_pure _ _

variable {m n : Type → Type} [Computation m] [Computation n] [LawfulMonad n] (φ : Transfer m n)

theorem view_orElse_eq (p q : Parser m σ υ α) (s : State σ υ) :
    (p.orElse q).view φ s = p.view φ s >>= fallback (q.view φ s) :=
  view_orElse φ p q s

variable [Source σ τ]

theorem view_never (s : State σ υ) :
    (never : Parser m σ υ α).view φ s = pure ⟨false, .error (.unknown s.pos)⟩ :=
  view_reply φ false (fun s => .error (.unknown s.pos)) s

theorem view_choice (ps : List (Parser m σ υ α)) (s : State σ υ) :
    (choice ps).view φ s = Trial.outcome s <$> trial (ps.map fun p => p.view φ s) := by
  induction ps with
  | nil =>
    rw [List.map_nil, trial, map_pure]
    exact view_never φ s
  | cons p later ih =>
    rw [List.map_cons, trial, map_bind]
    cases later with
    | nil =>
      refine (bind_pure (p.view φ s)).symm.trans ?_
      congr 1
      funext t
      cases hRefused : t.refused? with
      | none => exact (map_pure (Trial.outcome s) (Trial.taken [] t)).symm
      | some h =>
        rw [Tagged.eq_of_refused? hRefused]
        simp [trial, Trial.behind, Trial.outcome]
    | cons q later =>
      refine (view_orElse_eq φ p (choice (q :: later)) s).trans ?_
      congr 1
      funext t
      unfold fallback
      cases t.refused? with
      | none => exact (map_pure (Trial.outcome s) (Trial.taken [] t)).symm
      | some h =>
        dsimp only
        rw [ih, List.map_cons, Functor.map_map, Functor.map_map]
        exact map_trial_congr (fun T hT => (T.outcome_behind s h hT).symm) _ _

theorem view_attempt_all (ps : List (Parser m σ υ α)) (s : State σ υ) :
    (ps.map attempt).map (fun p => p.view φ s) =
      (ps.map fun p => p.view φ s).map (Tagged.attempt <$> ·) := by
  rw [List.map_map, List.map_map]
  exact List.map_congr_left fun p _ => view_attempt φ p s

theorem choice_takes_first (ps : List (Parser m σ υ α)) (s : State σ υ) :
    (choice ps).view φ s = Trial.outcome s <$> trial (ps.map fun p => p.view φ s) ∧
    Tagged.success? <$> (choice (ps.map attempt)).view φ s =
      firstSuccess (ps.map fun p => p.view φ s) ∧
    ∀ ts : List (Tagged (Reply σ υ α)), ps.map (fun p => p.view φ s) = ts.map pure →
      ∃ t, (choice (ps.map attempt)).view φ s = pure t ∧
        (t.value.isOk = true ↔ ∃ t' ∈ ts, t'.value.isOk = true) ∧
        t.success? = ts.findSome? Tagged.success? := by
  refine ⟨view_choice φ ps s, ?_, fun ts hts => ?_⟩
  · rw [view_choice, view_attempt_all, Functor.map_map, success?_trial]
  · obtain ⟨T, hT⟩ := exists_trial_pure (ts.map Tagged.attempt)
    have hFound : (T.outcome s).success? = ts.findSome? Tagged.success? := by
      have hId := success?_trial (n := Id) s (ts.map pure)
      rw [map_attempt_pure, hT, map_pure, firstSuccess_pure] at hId
      exact hId
    refine ⟨T.outcome s, ?_, ?_, hFound⟩
    · rw [view_choice, view_attempt_all, hts, map_attempt_pure, hT, map_pure]
    · simp only [← Tagged.isSome_success?, hFound, List.findSome?_isSome_iff]

/-- Three alternatives on `ab`: the first looks at two branches and reads the `a` in one of them,
the second counts a rune in the user state and fails behind it, the third succeeds on the spot. The
second is taken in the other branch, and with `attempt` the third. Without the first there is only
one run. -/
theorem choice_takes_first_branching :
    let start : State Text Nat := ⟨.ofBytes [] [97, 98], 0⟩
    let behind : State Text Nat := ⟨⟨[98], ⟨[], 1, 1, 2⟩⟩, 0⟩
    let lost (pos : Position) : Hint := .single pos .expected [120]
    let looking : Parser Nondet Text Nat Rune :=
      (lift (.ok [true, false])).bind fun look => if look then anyToken else fail [110]
    let losing : Parser Nondet Text Nat Rune := fun s =>
      match Source.next? s.input with
      | some (_, rest) => andThen (fun s => reply true (.ok () ⟨rest, s.user + 1⟩ (.unknown s.pos)))
          (fun s => reply false (.error (lost s.pos))) s
      | none => never s
    let ps := [looking, losing, .pure ⟨0⟩]
    (choice ps).view .results start =
        some [⟨true, .ok ⟨97⟩ behind (.unknown behind.pos)⟩, ⟨true, .error (lost behind.pos)⟩] ∧
      Tagged.success? <$> (choice (ps.map attempt)).view .results start =
        some [some ⟨true, ⟨97⟩, behind⟩, some ⟨false, ⟨0⟩, start⟩] ∧
      ∃ t, (choice [losing.attempt, attempt (.pure ⟨0⟩)]).view .results start = pure t ∧
        t.value.isOk = true ∧ t.success? = some ⟨false, ⟨0⟩, start⟩ := by
  intro start behind lost looking losing ps
  have hFirst := choice_takes_first .results ps start
  let ts : List (Tagged (Reply Text Nat Rune)) :=
    [⟨true, .error (lost behind.pos)⟩, ⟨false, .ok ⟨0⟩ start (.unknown start.pos)⟩]
  obtain ⟨t, hView, hOk, hFound⟩ :=
    (choice_takes_first .results [losing, .pure ⟨0⟩] start).2.2 ts rfl
  exact ⟨hFirst.1.trans rfl, hFirst.2.1.trans rfl, t, hView,
    hOk.mpr ⟨_, .tail _ (.head _), rfl⟩, hFound⟩

end Parser

end Descent
