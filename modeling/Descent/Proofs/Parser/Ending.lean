import Mathlib.Order.Filter.AtTopBot.Basic
import Descent.Proofs.Parser.Observation
import Descent.Proofs.Parser.Tag

/-! # Plain runs that end

The bounds on rounds and on the depth of rules are there only to make every run total. A run ends
when it comes to one outcome under all large enough bounds, and that outcome is a reply or the fault
of an empty round. Whether the whole of a combinator ends is told from its parts. A repetition ends
because every round that goes on leaves less to do: less input where rounds must consume, fewer
values to gather where their number is given. -/

namespace Descent

open Filter Source

variable {α β : Type}

/-- The evaluations, over the bounds on rounds and depth, come to one outcome, and not to a fault
other than that of an empty round. -/
def Ends (x : Nat × Nat → Plain α) : Prop :=
  ∃ outcome, (∀ᶠ b in atTop, x b = outcome) ∧ ∀ f, outcome = .error f → f = .emptyRound

namespace Ends

variable {x : Nat × Nat → Plain α}

theorem of_eq (outcome : Plain α) (h : ∀ b, x b = outcome)
    (hFault : ∀ f, outcome = .error f → f = .emptyRound) : Ends x :=
  ⟨outcome, .of_forall h, hFault⟩

theorem ok (a : α) : Ends fun _ => (.ok a : Plain α) := of_eq (.ok a) (fun _ => rfl) nofun

theorem emptyRound : Ends fun _ => (.error .emptyRound : Plain α) :=
  of_eq (.error .emptyRound) (fun _ => rfl) (by rintro _ ⟨⟩; rfl)

theorem bind {f : Nat × Nat → α → Plain β} (hx : Ends x)
    (hf : ∀ a, (∀ᶠ b in atTop, x b = .ok a) → Ends fun b => f b a) :
    Ends fun b => x b >>= f b := by
  obtain ⟨outcome, hx, hFault⟩ := hx
  cases outcome with
  | error fault =>
    obtain rfl := hFault fault rfl
    refine ⟨.error .emptyRound, ?_, by rintro _ ⟨⟩; rfl⟩
    filter_upwards [hx] with b hb
    rw [hb]
    rfl
  | ok a =>
    obtain ⟨outcome, hRest, hFault⟩ := hf a hx
    refine ⟨outcome, ?_, hFault⟩
    filter_upwards [hx, hRest] with b hb hRest
    rw [hb]
    exact hRest

theorem congr {y : Nat × Nat → Plain α} (hy : Ends y) (h : ∀ᶠ b in atTop, x b = y b) : Ends x := by
  obtain ⟨outcome, hy, hFault⟩ := hy
  refine ⟨outcome, ?_, hFault⟩
  filter_upwards [h, hy] with b hb hy
  exact hb.trans hy

theorem map (hx : Ends x) (f : α → β) : Ends fun b => f <$> x b := by
  simp only [map_eq_pure_bind]
  exact hx.bind fun a _ => .ok (f a)

end Ends

theorem Source.Passes.size_add_length_le {σ τ : Type} [Source σ τ] {s s' : σ} {passed : List τ}
    (h : Passes s passed s') : size s' + passed.length ≤ size s := by
  induction h with
  | stay _ => simp
  | move hNext _ ih =>
    have hStep := size_next hNext
    rw [List.length_cons]
    omega

variable {σ τ υ : Type} [Source σ τ]

theorem Moved.size_le {before after : σ} {consumed : Bool} (h : Moved before consumed after) :
    size after ≤ size before := by
  obtain ⟨passed, hPasses⟩ := h.reaches
  have hSize := hPasses.size_add_length_le
  omega

theorem Moved.size_lt {before after : σ} (h : Moved before true after) :
    size after < size before := by
  obtain ⟨passed, hNonempty, hPasses⟩ := moved_true.mp h
  have hSize := hPasses.size_add_length_le
  have hLength := List.length_pos_iff.mpr hNonempty
  omega

namespace Parser

theorem Keeps.moved {p : Parser Plain σ υ α} (hp : Keeps Contract.tag p) {s s' : State σ υ}
    {consumed : Bool} {a : α} {h : Hint}
    (hSeen : p.view (.refl Plain) s = .ok ⟨consumed, .ok a s' h⟩) :
    Moved s.input consumed s'.input :=
  Plain.delivers_iff.mp (hp.observe s) _ hSeen

/-- From every state with at most `n` elements left, what is seen of the parsers ends. -/
def EndsWithin (n : Nat) (p : Nat × Nat → Parser Plain σ υ α) : Prop :=
  ∀ s : State σ υ, size s.input ≤ n → Ends fun b => (p b).view (.refl Plain) s

namespace EndsWithin

variable {n : Nat} {p q : Nat × Nat → Parser Plain σ υ α}

theorem map (hp : EndsWithin n p) (f : α → β) : EndsWithin n fun b => (p b).map f := by
  intro s hs
  simp only [view_map]
  exact (hp s hs).map _

theorem attempt (hp : EndsWithin n p) : EndsWithin n fun b => (p b).attempt := by
  intro s hs
  simp only [view_attempt]
  exact (hp s hs).map _

theorem label (hp : EndsWithin n p) (name : Bytes) : EndsWithin n fun b => (p b).label name := by
  intro s hs
  simp only [view_label]
  exact (hp s hs).map _

theorem lookAhead (hp : EndsWithin n p) : EndsWithin n fun b => (p b).lookAhead := by
  intro s hs
  simp only [view_lookAhead]
  exact (hp s hs).map _

theorem orElse (hp : EndsWithin n p) (hq : EndsWithin n q) :
    EndsWithin n fun b => (p b).orElse (q b) := by
  intro s hs
  simp only [view_orElse]
  apply (hp s hs).bind
  intro t _
  cases t.refused? with
  | none => exact .ok t
  | some h => exact (hq s hs).map _

theorem bind {f : Nat × Nat → α → Parser Plain σ υ β} (hp : EndsWithin n p)
    (hf : ∀ (b : Nat × Nat) (s s' : State σ υ) (consumed : Bool) (a : α) (h : Hint),
      size s.input ≤ n → (p b).view (.refl Plain) s = .ok ⟨consumed, .ok a s' h⟩ →
      Ends fun b => (f b a).view (.refl Plain) s') :
    EndsWithin n fun b => (p b).bind (f b) := by
  intro s hs
  simp only [view_bind]
  apply (hp s hs).bind
  rintro ⟨consumed, ⟨a, s', h⟩ | h⟩ hSeen
  · obtain ⟨b, hSeen⟩ := hSeen.exists
    exact (hf b s s' consumed a h hs hSeen).map _
  · exact .ok _

end EndsWithin

end Parser

/-! ## Repetition -/

namespace Repetition

/-- What the repetition may still do: gather the values that are missing, or read the rest. -/
def left (rule : Repetition) (g : Gathered σ υ α) : Nat :=
  match rule.enough with
  | some k => k - g.count
  | none => size g.state.input

/-- At most `n` elements are left, and more values are wanted. -/
def InRange (rule : Repetition) (n : Nat) (g : Gathered σ υ α) : Prop :=
  size g.state.input ≤ n ∧ ∀ k, rule.enough = some k → g.count < k

theorem absorb_error {rule : Repetition} {g : Gathered σ υ α} {consumed : Bool}
    {r : Reply σ υ (Yield α)} {f : Fault} (h : rule.absorb g consumed r = .error f) :
    f = .emptyRound := by
  unfold absorb at h
  rcases r with ⟨a | _, s', hint⟩ | hint
  · dsimp only at h
    generalize (if consumed = true then hint else g.hint.merge hint) = hint at h
    split at h
    · cases h
      rfl
    · split at h <;> cases h
  · cases h
  · dsimp only at h
    split at h
    · cases h
    · split at h <;> cases h

theorem absorb_next {rule : Repetition} {g g' : Gathered σ υ α} {consumed : Bool}
    {r : Reply σ υ (Yield α)} (h : rule.absorb g consumed r = .ok (.next g')) :
    ∃ a s' hint hint', r = .ok (.value a) s' hint ∧ g' = g.push a s' hint' ∧
      (rule.mustConsume = true → consumed = true) ∧ rule.enough ≠ some (g.count + 1) := by
  unfold absorb at h
  rcases r with ⟨a | _, s', hint⟩ | hint
  · dsimp only at h
    generalize (if consumed = true then hint else g.hint.merge hint) = hint' at h
    split at h
    · cases h
    · rename_i hConsumed
      split at h
      · cases h
      · rename_i hEnough
        cases h
        refine ⟨a, s', hint, hint', rfl, rfl, ?_, hEnough⟩
        intro hMust
        simpa [hMust] using hConsumed
  · cases h
  · dsimp only at h
    split at h
    · cases h
    · split at h <;> cases h

theorem InRange.next {rule : Repetition} {n : Nat} {g g' : Gathered σ υ α}
    (hRule : rule.enough = none → rule.mustConsume = true) (hg : rule.InRange n g)
    {p : Parser Plain σ υ (Yield α)} (hp : Parser.Keeps Contract.tag p)
    {t : Tagged (Reply σ υ (Yield α))} (hSeen : p.view (.refl Plain) g.state = .ok t)
    (hNext : rule.absorb g t.consumed t.value = .ok (.next g')) :
    rule.InRange n g' ∧ rule.left g' < rule.left g := by
  obtain ⟨consumed, r⟩ := t
  obtain ⟨a, s', hint, hint', rfl, rfl, hConsumed, hEnough⟩ := absorb_next hNext
  have hMoved : Moved g.state.input consumed s'.input := hp.moved hSeen
  have hSize : size (g.push a s' hint').state.input ≤ n := hMoved.size_le.trans hg.1
  unfold left
  cases hCount : rule.enough with
  | none =>
    obtain rfl := hConsumed (hRule hCount)
    exact ⟨⟨hSize, by simp [hCount]⟩, hMoved.size_lt⟩
  | some k =>
    have hBefore : g.count < k := hg.2 k hCount
    have hNotYet : k ≠ g.count + 1 := fun h => hEnough (h ▸ hCount)
    refine ⟨⟨hSize, ?_⟩, ?_⟩
    · intro k' hk'
      rw [hCount] at hk'
      cases hk'
      change g.count + 1 < k
      omega
    · change k - (g.count + 1) < k - g.count
      omega

end Repetition

namespace Parser

section Rounds

variable {n : Nat} {rule : Repetition} {p : Nat × Nat → Parser Plain σ υ (Yield α)}
  (hRule : rule.enough = none → rule.mustConsume = true) (hKeeps : ∀ b, Keeps Contract.tag (p b))
  (hp : EndsWithin n p)

include hRule hKeeps hp

theorem round_ends {g : Gathered σ υ α} (hg : rule.InRange n g)
    {k : Nat × Nat → Bool → Turn (Gathered σ υ α) (Reply σ υ (List α)) → Plain β}
    (hDone : ∀ consumed final, Ends fun b => k b consumed (.done final))
    (hNext : ∀ consumed g', rule.InRange n g' → rule.left g' < rule.left g →
      Ends fun b => k b consumed (.next g')) :
    Ends fun b => (p b).view (.refl Plain) g.state >>= fun t =>
      turned (rule.absorb g t.consumed t.value) >>= k b t.consumed := by
  apply (hp g.state hg.1).bind
  intro t hSeen
  obtain ⟨b, hSeen⟩ := hSeen.exists
  cases hTurn : rule.absorb g t.consumed t.value with
  | error f =>
    obtain rfl := Repetition.absorb_error hTurn
    exact .emptyRound
  | ok turn =>
    cases turn with
    | done final => exact hDone t.consumed final
    | next g' =>
      obtain ⟨hg', hLess⟩ := hg.next hRule (hKeeps b) hSeen hTurn
      exact hNext t.consumed g' hg' hLess

theorem rounds_end {g : Gathered σ υ α} (hg : rule.InRange n g) (past : Nat) :
    Ends fun b => Computation.loop (m := Plain) (b.1 - past)
      (roundView rule ((p b).view (.refl Plain))) g := by
  -- On what is left to do, with `past` rounds over and the bound so much smaller.
  induction hLeft : rule.left g using Nat.strong_induction_on generalizing g past with
  | _ left ih =>
    subst hLeft
    have hRound := round_ends hRule hKeeps hp hg
      (k := fun b _ turn =>
        match turn with
        | .next g' => Computation.loop (m := Plain) (b.1 - (past + 1))
            (roundView rule ((p b).view (.refl Plain))) g'
        | .done final => pure final)
      (fun _ final => .ok final)
      (fun _ g' hg' hLess => ih _ hLess hg' (past + 1) rfl)
    apply hRound.congr
    filter_upwards [eventually_ge_atTop (past + 1, 0)] with b hb
    have hRounds : b.1 - past = b.1 - (past + 1) + 1 := by
      have hMore : past + 1 ≤ b.1 := hb.1
      omega
    rw [hRounds, LawfulComputation.loop_succ, roundView, bind_assoc]
    congr 1
    funext t
    congr 1
    funext turn
    cases turn <;> rfl

theorem gatherView_ends {g : Gathered σ υ α} (hg : rule.InRange n g) (past : Nat) :
    Ends fun b => gatherView b.1 rule ((p b).view (.refl Plain)) (b.1 - past) g := by
  induction hLeft : rule.left g using Nat.strong_induction_on generalizing g past with
  | _ left ih =>
    subst hLeft
    have hRound := round_ends hRule hKeeps hp hg
      (k := fun b consumed turn =>
        match turn with
        | .done final => pure ⟨consumed, final⟩
        | .next g' =>
          if consumed then Tagged.mk true <$> Computation.loop b.1
            (roundView rule ((p b).view (.refl Plain))) g'
          else gatherView b.1 rule ((p b).view (.refl Plain)) (b.1 - (past + 1)) g')
      (fun consumed final => .ok (Tagged.mk consumed final))
      (by
        intro consumed g' hg' hLess
        cases consumed with
        | true => exact (rounds_end hRule hKeeps hp hg' 0).map (Tagged.mk true)
        | false => exact ih _ hLess hg' (past + 1) rfl)
    apply hRound.congr
    filter_upwards [eventually_ge_atTop (past + 1, 0)] with b hb
    have hRounds : b.1 - past = b.1 - (past + 1) + 1 := by
      have hMore : past + 1 ≤ b.1 := hb.1
      omega
    rw [hRounds, gatherView]
    congr 1
    funext t
    congr 1
    funext turn
    cases turn <;> rfl

theorem EndsWithin.gather (hStart : rule.enough ≠ some 0) :
    EndsWithin n fun b => gather b.1 rule (p b) := by
  intro s hs
  simp only [view_gather]
  have hInRange : rule.InRange n (.start s : Gathered σ υ α) := by
    refine ⟨hs, ?_⟩
    rintro (_ | k) hk
    · exact absurd hk hStart
    · exact Nat.succ_pos k
  exact gatherView_ends hRule hKeeps hp hInRange 0

end Rounds

end Parser

end Descent
