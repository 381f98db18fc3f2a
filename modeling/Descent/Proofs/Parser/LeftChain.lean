import Descent.Proofs.Parser.MonadLaws
import Descent.Proofs.Parser.Rounds

/-! # Chains folded from the left

`chainl1` first gathers all operators with their operands and folds them afterwards. Seen from
outside it folds on the fly: behind a value it tries an operator and an operand, and where they are
refused the value stands. Repetition and recursion agree as long as no run comes to an operator and
an operand for which nothing was consumed. They agree in everything but the hint of a success: the
recursion joins the hint of the last operand to that of the refusal, and the repetition drops it.
Nothing is asked of the parsers. -/

namespace Descent

variable {σ τ υ α β : Type}

/-- A reply without the hint of a success. -/
def Reply.outline : Reply σ υ α → Except Hint (α × State σ υ)
  | ok a s _ => .ok (a, s)
  | error h => .error h

namespace Tagged

def outline (t : Tagged (Reply σ υ α)) : Tagged (Except Hint (α × State σ υ)) := t.map Reply.outline

/-- The tag of what stands in front counts too. -/
def behind (consumed : Bool) (t : Tagged β) : Tagged β := ⟨consumed || t.consumed, t.value⟩

theorem behind_behind (consumed consumed' : Bool) (t : Tagged β) :
    (t.behind consumed').behind consumed = t.behind (consumed || consumed') := by
  simp only [behind, Bool.or_assoc]

theorem follow_ok (consumed consumed' : Bool) (h h' : Hint) (a : α) (s : State σ υ) :
    follow consumed h ⟨consumed', .ok a s h'⟩ =
      ⟨consumed || consumed', .ok a s (if consumed' then h' else h.merge h')⟩ := by
  cases consumed' <;> rfl

/-- Only a refusal takes over the hint of what stands in front into its outline. -/
theorem outline_follow {t : Tagged (Reply σ υ α)} (ht : t.refused? = none) (consumed : Bool)
    (h : Hint) : (t.follow consumed h).outline = t.outline.behind consumed := by
  obtain ⟨_ | _, _ | _⟩ := t
  · rfl
  · cases ht
  · rfl
  · rfl

end Tagged

/-- How the rounds of a chain come to their end. -/
inductive ChainHalt (σ υ α : Type) where
  /-- An operator or its operand was refused, and the value before it stands. The tag is that of the
  rounds before. -/
  | refused (consumed : Bool) (x : α) (s : State σ υ) (h : Hint)
  /-- An operator or its operand failed after consumption. -/
  | failed (h : Hint)
  /-- For an operator and its operand nothing was consumed. So many rounds were left. -/
  | idle (left : Nat) (consumed : Bool) (x : α) (s : State σ υ)

def ChainHalt.isIdle : ChainHalt σ υ α → Bool
  | idle .. => true
  | _ => false

namespace Parser

variable {m n : Type → Type} [Computation m] [Computation n]

/-- An operator and the operand behind it. -/
def chainStep (p : Parser m σ υ α) (op : Parser m σ υ (α → α → α)) :
    Parser m σ υ ((α → α → α) × α) :=
  op.bind fun f => p.map fun y => (f, y)

/-- The chain behind the value `x`, folded on the fly, with a bound on its operators. -/
def chainRest [Source σ τ] (p : Parser m σ υ α) (op : Parser m σ υ (α → α → α)) :
    Nat → α → Parser m σ υ α
  | 0, _ => fun _ => Computation.fault .exhausted
  | left + 1, x => (op.bind fun f => p.bind fun y => chainRest p op left (f x y)).orElse (.pure x)

/-- Runs rounds of an operator and an operand behind the value `x`, up to the first that is not a
success with consumption. -/
def chainRounds (seen : State σ υ → n (Tagged (Reply σ υ ((α → α → α) × α)))) :
    Nat → Bool → α → State σ υ → n (ChainHalt σ υ α)
  | 0, _, _, _ => Computation.fault .exhausted
  | left + 1, consumed, x, s => do
    match ← seen s with
    | ⟨true, .ok (f, y) s' _⟩ => chainRounds seen left true (f x y) s'
    | ⟨true, .error h⟩ => pure (.failed h)
    | ⟨false, .error h⟩ => pure (.refused consumed x s h)
    | ⟨false, .ok (f, y) s' _⟩ => pure (.idle left consumed (f x y) s')

/-- A repetition does not go on behind an operand for which nothing was consumed. -/
def ChainHalt.concluded : ChainHalt σ υ α → n (Tagged (Reply σ υ α))
  | .refused consumed x s h => pure ⟨consumed, .ok x s h⟩
  | .failed h => pure ⟨true, .error h⟩
  | .idle .. => Computation.fault .emptyRound

/-- The recursion goes on behind every operand. -/
def ChainHalt.resumed [Source σ τ] (φ : Transfer m n) (p : Parser m σ υ α)
    (op : Parser m σ υ (α → α → α)) :
    ChainHalt σ υ α → n (Tagged (Except Hint (α × State σ υ)))
  | .refused consumed x s _ => pure ⟨consumed, .ok (x, s)⟩
  | .failed h => pure ⟨true, .error h⟩
  | .idle left consumed x s =>
    (fun t => t.outline.behind consumed) <$> (chainRest p op left x).view φ s

variable [LawfulComputation n]

/-! ## The repetition -/

/-- Folding what was gathered comes to the same as folding on the fly. -/
theorem map_fold_concluded (seen : State σ υ → n (Tagged (Reply σ υ ((α → α → α) × α)))) (x : α)
    (left : Nat) (steps : List ((α → α → α) × α)) (s : State σ υ) :
    Tagged.map (Reply.map fun steps => steps.foldl (fun acc (f, y) => f acc y) x) <$>
        (consumedRounds seen left ⟨steps, s⟩ >>= concluded) =
      chainRounds seen left (0 < steps.length) (steps.foldl (fun acc (f, y) => f acc y) x) s >>=
        ChainHalt.concluded := by
  induction left generalizing steps s with
  | zero => simp [consumedRounds, chainRounds]
  | succ left ih =>
    rw [consumedRounds_concluded, chainRounds, map_bind, bind_assoc]
    congr 1
    funext t
    obtain ⟨_ | _, ⟨⟨f, y⟩, s', h⟩ | h⟩ := t
    · simp [ChainHalt.concluded]
    · simp [ChainHalt.concluded, Tagged.map, Reply.map]
    · simpa using ih (steps ++ [(f, y)]) s'
    · simp [ChainHalt.concluded, Tagged.map, Reply.map]

section

variable [Source σ τ] (φ : Transfer m n) (p : Parser m σ υ α) (op : Parser m σ υ (α → α → α))

/-- What follows the first operand in the repetition. -/
def chainSequel (left : Nat) : Tagged (Reply σ υ α) → n (Tagged (Reply σ υ α))
  | ⟨consumed, .error h⟩ => pure ⟨consumed, .error h⟩
  | ⟨consumed, .ok x s h⟩ => Tagged.follow consumed h <$>
    (chainRounds ((chainStep p op).view φ) left false x s >>= ChainHalt.concluded)

theorem view_chainl1 (rounds : Nat) (s : State σ υ) :
    (chainl1 (rounds + 1) p op).view φ s =
      p.view φ s >>= chainSequel φ p op (rounds + 2) := by
  rw [chainl1, view_bind]
  congr 1
  funext ⟨consumed, r⟩
  cases r with
  | error h => rfl
  | ok x s' h =>
    have hRounds := map_fold_concluded ((chainStep p op).view φ) x (rounds + 2) [] s'
    rw [consumedRounds_concluded] at hRounds
    rw [sequel_ok, view_map, view_many_first]
    exact congrArg _ hRounds

/-! ## The recursion -/

/-- Behind a refusal the value stands, so that the rest of a chain is never refused. -/
theorem chainRest_unrefused (left : Nat) (x : α) (s : State σ υ) :
    Delivers (fun t => t.refused? = none) ((chainRest p op left x).view φ s) := by
  cases left with
  | zero =>
    rw [chainRest, view_eq, φ.carry_fault, fault_bind]
    exact .fault _
  | succ left =>
    rw [chainRest, view_orElse]
    apply (Delivers.anything _).bind
    intro t _
    cases ht : t.refused? with
    | none => exact .pure ht
    | some h =>
      simp only [view_pure, map_pure]
      exact .pure rfl

theorem chainStep_bind (k : (α → α → α) × α → Parser m σ υ β) :
    Equivalent φ (op.bind fun f => p.bind fun y => k (f, y)) ((chainStep p op).bind k) := by
  intro s
  rw [chainStep, bind_bind φ op _ k s]
  exact (Equivalent.refl op).bind (fun f s => (map_then_bind φ _ p k s).symm) s

/-- What is seen of the rest of a chain in terms of its next round. -/
theorem view_chainRest_succ (left : Nat) (x : α) (s : State σ υ) :
    (chainRest p op (left + 1) x).view φ s =
      (chainStep p op).view φ s >>= fun t =>
        match t with
        | ⟨consumed, .ok (f, y) s' h⟩ =>
          Tagged.follow consumed h <$> (chainRest p op left (f x y)).view φ s'
        | ⟨true, .error h⟩ => pure ⟨true, .error h⟩
        | ⟨false, .error h⟩ => pure ⟨false, .ok x s (h.merge (.unknown s.pos))⟩ := by
  rw [chainRest, view_orElse,
    chainStep_bind φ p op (fun step => chainRest p op left (step.1 x step.2)) s, view_bind,
    bind_assoc]
  congr 1
  funext ⟨consumed, r⟩
  rcases r with ⟨⟨f, y⟩, s', h⟩ | h
  · -- Behind an operand nothing is refused any more, and the choice is made.
    simp only [sequel_ok, bind_map_left]
    rw [map_eq_pure_bind]
    apply (chainRest_unrefused φ p op left (f x y) s').bind_congr
    intro t ht
    obtain ⟨_ | _, _ | _⟩ := t
    · cases consumed <;> rfl
    · cases ht
    · cases consumed <;> rfl
    · cases consumed <;> rfl
  · cases consumed with
    | true => simp [Tagged.refused?]
    | false => simp [Tagged.refused?, view_pure, Tagged.follow, Reply.after, Reply.mapHint]

theorem outline_chainRest (left : Nat) (consumed : Bool) (x : α) (s : State σ υ) :
    (fun t => t.outline.behind consumed) <$> (chainRest p op left x).view φ s =
      chainRounds ((chainStep p op).view φ) left consumed x s >>= ChainHalt.resumed φ p op := by
  induction left generalizing consumed x s with
  | zero => simp [chainRounds, chainRest, view_eq]
  | succ left ih =>
    rw [view_chainRest_succ, chainRounds, map_bind, bind_assoc]
    congr 1
    funext t
    obtain ⟨consumed', ⟨⟨f, y⟩, s', h⟩ | h⟩ := t
    · have hFollow : (fun t => t.outline.behind consumed) <$>
            Tagged.follow consumed' h <$> (chainRest p op left (f x y)).view φ s' =
          (fun t => t.outline.behind (consumed || consumed')) <$>
            (chainRest p op left (f x y)).view φ s' := by
        rw [Functor.map_map, map_eq_pure_bind, map_eq_pure_bind]
        apply (chainRest_unrefused φ p op left (f x y) s').bind_congr
        intro t ht
        rw [Tagged.outline_follow ht, Tagged.behind_behind]
      cases consumed' with
      | true => simpa [hFollow] using ih true (f x y) s'
      | false => simp [hFollow, ChainHalt.resumed]
    · cases consumed' <;>
        simp [ChainHalt.resumed, Tagged.outline, Tagged.map, Reply.outline, Tagged.behind]

/-! ## Operators without an operand -/

/-- From the state an operator is found with consumption, and behind it no operand. -/
def Dangling (s : State σ υ) : Prop :=
  Delivers (fun t => t.consumed = true ∧ ∃ f s' h, t.value = .ok f s' h ∧
    Delivers (fun t' => t'.value.isOk = false) (p.view φ s')) (op.view φ s)

variable {φ p op}

theorem Dangling.step {s : State σ υ} (hs : Dangling φ p op s) :
    Delivers (fun t => ∃ h, t = ⟨true, .error h⟩) ((chainStep p op).view φ s) := by
  rw [chainStep, view_bind]
  apply Delivers.bind hs
  rintro ⟨_, _⟩ ⟨rfl, f, s', h, rfl, hOperand⟩
  rw [sequel_ok, view_map, Functor.map_map, map_eq_pure_bind]
  apply hOperand.bind
  rintro ⟨_ | _, _ | h'⟩ hFailed
  · cases hFailed
  · exact .pure ⟨_, rfl⟩
  · cases hFailed
  · exact .pure ⟨_, rfl⟩

theorem Dangling.chainRest_fails {s : State σ υ} (hs : Dangling φ p op s) (left : Nat) (x : α) :
    Delivers (fun t => ∃ h, t = ⟨true, .error h⟩) ((chainRest p op left x).view φ s) := by
  cases left with
  | zero =>
    rw [chainRest, view_eq, φ.carry_fault, fault_bind]
    exact .fault _
  | succ left =>
    rw [view_chainRest_succ]
    apply hs.step.bind
    rintro _ ⟨h, rfl⟩
    exact .pure ⟨h, rfl⟩

theorem chainRounds_never_dangle (left : Nat) (consumed : Bool) (x : α) (s : State σ υ) :
    Delivers (fun halt => ∀ consumed x s' h, halt = .refused consumed x s' h →
        ¬ Dangling φ p op s')
      (chainRounds ((chainStep p op).view φ) left consumed x s) := by
  induction left generalizing consumed x s with
  | zero => exact .fault _
  | succ left ih =>
    rw [chainRounds]
    by_cases hs : Dangling φ p op s
    · apply hs.step.bind
      rintro _ ⟨h, rfl⟩
      exact .pure nofun
    · apply (Delivers.anything _).bind
      rintro ⟨_ | _, ⟨⟨f, y⟩, s', h⟩ | h⟩ -
      · exact .pure nofun
      · refine .pure ?_
        rintro _ _ _ _ ⟨⟩
        exact hs
      · exact ih true (f x y) s'
      · exact .pure nofun

variable (φ p op)

/-- No run of a chain comes to an operator and an operand for which nothing was consumed. -/
def ChainProgresses (left : Nat) (s : State σ υ) : Prop :=
  Delivers (fun t => ∀ x s' h, t.value = .ok x s' h →
    Delivers (fun halt => halt.isIdle = false)
      (chainRounds ((chainStep p op).view φ) left false x s')) (p.view φ s)

theorem outline_chainl1 {rounds : Nat} {s : State σ υ}
    (hProgress : ChainProgresses φ p op (rounds + 2) s) :
    Tagged.outline <$> (chainl1 (rounds + 1) p op).view φ s =
      Tagged.outline <$> (p.bind (chainRest p op (rounds + 2))).view φ s := by
  rw [view_chainl1, view_bind, map_bind, map_bind]
  apply hProgress.bind_congr
  rintro ⟨consumed, ⟨x, s', h⟩ | h⟩ hRounds
  · have hRest : Tagged.outline <$> sequel φ (chainRest p op (rounds + 2)) ⟨consumed, .ok x s' h⟩ =
        Tagged.behind consumed <$>
          (chainRounds ((chainStep p op).view φ) (rounds + 2) false x s' >>=
            ChainHalt.resumed φ p op) := by
      rw [← outline_chainRest, sequel_ok, Functor.map_map, Functor.map_map, map_eq_pure_bind,
        map_eq_pure_bind]
      apply (chainRest_unrefused φ p op _ x s').bind_congr
      intro t ht
      rw [Tagged.outline_follow ht, Tagged.behind_behind, Bool.or_false]
    rw [hRest, chainSequel, Functor.map_map, map_bind, map_bind]
    apply (hRounds x s' h rfl).bind_congr
    rintro (⟨consumed', x, s', h'⟩ | h' | _) hHalt
    · simp [ChainHalt.concluded, ChainHalt.resumed, Tagged.follow_ok, Tagged.outline, Tagged.map,
        Tagged.behind, Reply.outline]
    · simp [ChainHalt.concluded, ChainHalt.resumed, Tagged.outline, Tagged.map, Tagged.follow,
        Tagged.behind, Reply.outline]
    · cases hHalt
  · rfl

theorem chainProgresses_of_ne [ReportingComputation n] {rounds : Nat} {s : State σ υ}
    (hQuiet : (chainl1 (rounds + 1) p op).view φ s ≠ Computation.fault .emptyRound) :
    ChainProgresses φ p op (rounds + 2) s := by
  rw [view_chainl1] at hQuiet
  apply (ReportingComputation.delivers_of_bind hQuiet).mono
  rintro ⟨consumed, r⟩ hNext x s' h hr
  obtain rfl : r = .ok x s' h := hr
  rw [chainSequel, map_bind] at hNext
  apply (ReportingComputation.delivers_of_bind hNext).mono
  rintro (_ | _ | _) hHalt
  · rfl
  · rfl
  · exact absurd (map_fault _ _) hHalt

theorem chainl1_never_dangles (rounds : Nat) (s : State σ υ) :
    Delivers (fun t => ∀ s', t.value.state? = some s' → ¬ Dangling φ p op s')
      ((chainl1 (rounds + 1) p op).view φ s) := by
  rw [view_chainl1]
  apply (Delivers.anything _).bind
  rintro ⟨consumed, ⟨x, s', h⟩ | h⟩ -
  · rw [chainSequel, map_bind]
    apply (chainRounds_never_dangle _ false x s').bind
    rintro (⟨consumed', x, s'', h'⟩ | h' | _) hHalt
    · rw [ChainHalt.concluded, map_pure, Tagged.follow_ok]
      refine .pure ?_
      rintro _ ⟨⟩
      exact hHalt consumed' x s'' h' rfl
    · rw [ChainHalt.concluded, map_pure]
      exact .pure nofun
    · rw [ChainHalt.concluded, map_fault]
      exact .fault _
  · exact .pure nofun

/-- The laws of a chain folded from the left. -/
structure ChainLaws (rounds : Nat) (s : State σ υ) : Prop where
  agree : ChainProgresses φ p op (rounds + 2) s →
    Tagged.outline <$> (chainl1 (rounds + 1) p op).view φ s =
      Tagged.outline <$> (p.bind (chainRest p op (rounds + 2))).view φ s
  agree_of_ne [ReportingComputation n] :
    (chainl1 (rounds + 1) p op).view φ s ≠ Computation.fault .emptyRound →
    Tagged.outline <$> (chainl1 (rounds + 1) p op).view φ s =
      Tagged.outline <$> (p.bind (chainRest p op (rounds + 2))).view φ s
  /-- In front of an operator without an operand the rest of the chain is a failure after
  consumption, however many operators came before. -/
  dangling_fails (left : Nat) (x : α) (s' : State σ υ) : Dangling φ p op s' →
    Delivers (fun t => ∃ h, t = ⟨true, .error h⟩) ((chainRest p op left x).view φ s')
  /-- No success stops short of such an operator. -/
  never_shorter : Delivers (fun t => ∀ s', t.value.state? = some s' → ¬ Dangling φ p op s')
    ((chainl1 (rounds + 1) p op).view φ s)

theorem chainLaws (rounds : Nat) (s : State σ υ) : ChainLaws φ p op rounds s where
  agree hProgress := outline_chainl1 φ p op hProgress
  agree_of_ne hQuiet := outline_chainl1 φ p op (chainProgresses_of_ne φ p op hQuiet)
  dangling_fails left x _ hs := hs.chainRest_fails left x
  never_shorter := chainl1_never_dangles φ p op rounds s

/-- Differences of digits: `9-4-3` is folded from the left, and on `9-` the operator is not given
back. -/
theorem chainLaws_differences :
    let operand (m : Type → Type) [Computation m] : Parser m Text Unit Int :=
      ((satisfy fun r => 48 ≤ r.code && r.code ≤ 57).map fun r => r.code - 48).traced [120]
    let minus (m : Type → Type) [Computation m] : Parser m Text Unit (Int → Int → Int) :=
      (char (.ofChar '-')).map fun _ => (· - ·)
    let chain := chainl1 3 (operand Trace) (minus Trace)
    let start (src : Bytes) : State Text Unit := ⟨.ofBytes [] src, ()⟩
    let shown (src : Bytes) := (chain.observe (start src)).toOption.map fun x =>
      (x.1.consumed, x.1.value.value?, x.2.toList.length)
    (∀ src ∈ [[57, 45, 52, 45, 51], [57, 45]],
        Tagged.outline <$> chain.view .events (start src) = Tagged.outline <$>
          ((operand Trace).bind (chainRest (operand Trace) (minus Trace) 4)).view .events
            (start src)) ∧
      shown [57, 45, 52, 45, 51] = some (true, some 2, 6) ∧
      shown [57, 45] = some (true, none, 4) ∧
      Dangling (.refl Plain) (operand Plain) (minus Plain) (start [45]) ∧
      ∀ t, (chainRest (operand Plain) (minus Plain) 1 9).observe (start [45]) = .ok t →
        ∃ h, t = ⟨true, .error h⟩ := by
  intro operand minus chain start shown
  have hDangling : Dangling (.refl Plain) (operand Plain) (minus Plain) (start [45]) := by
    apply Plain.delivers_iff.mpr
    rintro _ ⟨⟩
    refine ⟨rfl, _, _, _, rfl, Plain.delivers_iff.mpr ?_⟩
    rintro _ ⟨⟩
    rfl
  refine ⟨?_, by decide +kernel, by decide +kernel, hDangling, ?_⟩
  · intro src hSrc
    have hOk : (chain.view .events (start src)).toOption.isSome = true := by
      obtain rfl | rfl := List.mem_pair.mp hSrc <;> rfl
    apply (chainLaws .events (operand Trace) (minus Trace) 2 (start src)).agree_of_ne
    intro hFault
    rw [hFault] at hOk
    cases hOk
  · exact Plain.delivers_iff.mp
      ((chainLaws (.refl Plain) (operand Plain) (minus Plain) 0 (start [45])).dangling_fails 1 9 _
        hDangling)

end

end Parser

end Descent
