import Descent.Proofs.Parser.MonadLaws
import Descent.Proofs.Parser.Progress

/-! # Repetition as recursion

A repetition runs two loops and carries what it has gathered from round to round. Seen from outside
it is a recursion over sequencing and choice: `count` is a number of parsers in a row, and
`manyTill` tries its end, then a value and itself, as long as no round is empty. What was gathered
before a round stands in front of what the recursion comes to from there: its values, its tag, and
its hint where nothing more is consumed. -/

namespace Descent

variable {σ τ υ α β : Type}

theorem Reply.value?_map (f : α → β) (r : Reply σ υ α) : (r.map f).value? = r.value?.map f := by
  cases r <;> rfl

theorem Tagged.value?_follow (consumed : Bool) (h : Hint) (t : Tagged (Reply σ υ α)) :
    (t.follow consumed h).value.value? = t.value.value? := by
  obtain ⟨consumed', r⟩ := t
  cases consumed' <;> cases r <;> rfl

theorem Tagged.refused?_map (f : α → β) (t : Tagged (Reply σ υ α)) :
    (t.map (Reply.map f)).refused? = t.refused? := by
  obtain ⟨_ | _, _ | _⟩ := t <;> rfl

namespace Gathered

/-- One value more, with the tag and the hint of the round that yielded it. -/
def take (g : Gathered σ υ α) (consumed : Bool) (a : α) (s : State σ υ) (h : Hint) :
    Gathered σ υ α :=
  g.push a s (if consumed then h else g.hint.merge h)

@[simp] theorem state_take (g : Gathered σ υ α) (consumed : Bool) (a : α) (s : State σ υ)
    (h : Hint) : (g.take consumed a s h).state = s := rfl

@[simp] theorem count_take (g : Gathered σ υ α) (consumed : Bool) (a : α) (s : State σ υ)
    (h : Hint) : (g.take consumed a s h).count = g.count + 1 := rfl

/-- What is gathered with a tag, in front of what the rest of the repetition comes to. -/
def finish (g : Gathered σ υ α) (consumed : Bool) (t : Tagged (Reply σ υ (List α))) :
    Tagged (Reply σ υ (List α)) :=
  (t.map (Reply.map (g.values ++ ·))).follow consumed g.hint

theorem finish_cons (g : Gathered σ υ α) (consumed consumed' : Bool) (a : α) (s : State σ υ)
    (h : Hint) (t : Tagged (Reply σ υ (List α))) :
    g.finish consumed ((t.map (Reply.map (a :: ·))).follow consumed' h) =
      (g.take consumed' a s h).finish (consumed || consumed') t := by
  have hValues : ((g.values ++ ·) ∘ (a :: ·)) = ((g.take consumed' a s h).values ++ ·) := by
    funext as
    simp [take]
  rw [finish, Tagged.map_follow, Tagged.map_map, Tagged.follow_follow, hValues]
  rfl

/-- A refusal counts for what is tried in its place. -/
def refuse (g : Gathered σ υ α) (h : Hint) : Gathered σ υ α := { g with hint := g.hint.merge h }

theorem finish_follow (g : Gathered σ υ α) (consumed : Bool) (h : Hint)
    (t : Tagged (Reply σ υ (List α))) :
    g.finish consumed (t.follow false h) = (g.refuse h).finish consumed t := by
  rw [finish, Tagged.map_follow, Tagged.follow_follow, Bool.or_false]
  rfl

theorem finish_error (g : Gathered σ υ α) (consumed consumed' : Bool) (h : Hint) :
    g.finish consumed ⟨consumed', .error h⟩ =
      ⟨consumed || consumed', .error (if consumed' then h else g.hint.merge h)⟩ := by
  cases consumed' <;> rfl

end Gathered

namespace Repetition

theorem absorb_unforgiven {rule : Repetition} (hRule : rule.forgiving = false) (g : Gathered σ υ α)
    (consumed : Bool) (h : Hint) :
    rule.absorb g consumed (.error h) =
      .ok (.done (.error (if consumed then h else g.hint.merge h))) := by
  cases consumed <;> simp [absorb, hRule]

theorem absorb_times_value (total : Nat) (g : Gathered σ υ α) (consumed : Bool) (a : α)
    (s : State σ υ) (h : Hint) :
    (times total).absorb g consumed (.ok (.value a) s h) =
      if total = g.count + 1 then
        .ok (.done (.ok (g.take consumed a s h).values s (g.take consumed a s h).hint))
      else .ok (.next (g.take consumed a s h)) := by
  simp [absorb, times, Gathered.take, Gathered.push]

/-- A refusal in front of the reply of a round is as good as one after the rounds before. -/
theorem absorb_after_refused {rule : Repetition} (hRule : rule.forgiving = false)
    (g : Gathered σ υ α) (h : Hint) (r : Reply σ υ (Yield α)) :
    rule.absorb g false (r.after h) = rule.absorb (g.refuse h) false r := by
  cases r with
  | error h' => simp [Reply.after, Reply.mapHint, absorb, hRule, Gathered.refuse, Hint.merge_assoc]
  | ok yield s h' =>
    cases yield <;>
      simp [Reply.after, Reply.mapHint, absorb, Gathered.refuse, Gathered.values, Gathered.push,
        Hint.merge_assoc]

end Repetition

namespace Parser

variable {m n : Type → Type} [Computation m] [Computation n]

/-- What follows a round: the outcome of the whole, or the next round. -/
def advance (rule : Repetition) (g : Gathered σ υ α) (consumed : Bool)
    (next : Bool → Gathered σ υ α → n (Tagged (Reply σ υ (List α))))
    (t : Tagged (Reply σ υ (Yield α))) : n (Tagged (Reply σ υ (List α))) := do
  match ← turned (rule.absorb g t.consumed t.value) with
  | .done final => pure ⟨consumed || t.consumed, final⟩
  | .next g => next t.consumed g

theorem gatherView_succ (rounds : Nat) (rule : Repetition)
    (seen : State σ υ → n (Tagged (Reply σ υ (Yield α)))) (left : Nat) (g : Gathered σ υ α) :
    gatherView rounds rule seen (left + 1) g =
      seen g.state >>= advance rule g false fun consumed g =>
        if consumed then Tagged.mk true <$> Computation.loop rounds (roundView rule seen) g
        else gatherView rounds rule seen left g := by
  rw [gatherView]
  rfl

variable [LawfulComputation n]

theorem advance_error (rule : Repetition) (hRule : rule.forgiving = false) (g : Gathered σ υ α)
    (consumed : Bool) (next : Bool → Gathered σ υ α → n (Tagged (Reply σ υ (List α))))
    (consumed' : Bool) (h : Hint) :
    advance rule g consumed next ⟨consumed', .error h⟩ =
      pure (g.finish consumed ⟨consumed', .error h⟩) := by
  simp [advance, turned, Repetition.absorb_unforgiven hRule, Gathered.finish_error]

theorem loop_succ (rule : Repetition) (seen : State σ υ → n (Tagged (Reply σ υ (Yield α))))
    (left : Nat) (g : Gathered σ υ α) :
    Tagged.mk true <$> Computation.loop (left + 1) (roundView rule seen) g =
      seen g.state >>= advance rule g true fun _ g =>
        Tagged.mk true <$> Computation.loop left (roundView rule seen) g := by
  simp only [LawfulComputation.loop_succ, roundView, bind_assoc, map_bind]
  congr 1
  funext t
  unfold advance
  congr 1
  funext turn
  cases turn <;> simp [Turn.proceed]

section

variable (φ : Transfer m n)

/-- What is gathered in front of a sequence is gathered in front of what follows its first
parser. -/
theorem finish_bind (g : Gathered σ υ α) (consumed : Bool) (p : Parser m σ υ α)
    (f : α → Parser m σ υ (List α)) (s : State σ υ) :
    g.finish consumed <$> (p.bind fun a => (f a).map (a :: ·)).view φ s =
      p.view φ s >>= fun t =>
        match t with
        | ⟨consumed', .error h⟩ => pure (g.finish consumed ⟨consumed', .error h⟩)
        | ⟨consumed', .ok a s h⟩ =>
          (g.take consumed' a s h).finish (consumed || consumed') <$> (f a).view φ s := by
  rw [view_bind, map_bind]
  congr 1
  funext ⟨consumed', r⟩
  cases r with
  | error h => exact map_pure _ _
  | ok a s h =>
    simp only [sequel_ok, view_map, Functor.map_map, Gathered.finish_cons g consumed consumed' a s]

theorem finish_start [UniformComputation m] [Source σ τ] [Source.Advancing σ]
    {p : Parser m σ υ (List α)} (hp : Keeps Contract.hint p) (s : State σ υ) :
    (Gathered.start s).finish false <$> p.view φ s = p.view φ s := by
  have hFinish : (Gathered.start s : Gathered σ υ α).finish false =
      Tagged.follow false (.unknown s.pos) := by
    funext ⟨consumed, r⟩
    cases r <;> rfl
  rw [hFinish, hp.follow_unknown]

/-! ## A number of parsers in a row -/

/-- The values of so many runs of `p`, one inside the continuation of the other. -/
def nested (p : Parser m σ υ α) [Source σ τ] : Nat → Parser m σ υ (List α)
  | 0 => .pure []
  | k + 1 => p.bind fun a => (nested p k).map (a :: ·)

theorem length_nested [Source σ τ] (p : Parser m σ υ α) (k : Nat) (s : State σ υ) :
    Delivers (fun t => ∀ as ∈ t.value.value?, as.length = k) ((nested p k).view φ s) := by
  induction k generalizing s with
  | zero =>
    rw [nested, view_pure]
    exact .pure fun as hOk => by cases hOk; rfl
  | succ k ih =>
    rw [nested, view_bind]
    apply (Delivers.anything _).bind
    rintro ⟨consumed, ⟨a, s', h⟩ | h⟩ -
    · rw [sequel_ok, view_map, Functor.map_map, map_eq_pure_bind]
      apply (ih s').bind
      intro t hLength
      apply Delivers.pure
      intro bs hOk
      rw [Tagged.value?_follow, Tagged.value_map, Reply.value?_map] at hOk
      obtain ⟨as, hAs, rfl⟩ := Option.map_eq_some_iff.mp hOk
      exact congrArg Nat.succ (hLength as hAs)
    · exact .pure nofun

variable [UniformComputation m] [Source σ τ] {p : Parser m σ υ α}

theorem Settled.finish_pure {s : State σ υ} {g : Gathered σ υ α} {consumed consumed' : Bool}
    {a : α} {h : Hint}
    (ht : Tagged.Settled (⟨consumed', .ok a s h⟩ : Tagged (Reply σ υ α))) :
    (g.take consumed' a s h).finish (consumed || consumed') ⟨false, .ok [] s (.unknown s.pos)⟩ =
      ⟨consumed || consumed',
        .ok (g.take consumed' a s h).values s (g.take consumed' a s h).hint⟩ := by
  have hMerge : h.merge (.unknown s.pos) = h :=
    Hint.merge_unknown (Hint.rank_unknown_le (ht a s h rfl))
  cases consumed' <;>
    simp [Gathered.finish, Gathered.take, Gathered.push, Tagged.follow, Tagged.map, Reply.map,
      Reply.after, Reply.mapHint, Hint.merge_assoc, hMerge]

/-- A round with so many values missing. -/
theorem times_round (hp : p.Settled) {total k : Nat} {g : Gathered σ υ α}
    (hCount : g.count + (k + 1) = total) {consumed : Bool}
    {next : Bool → Gathered σ υ α → n (Tagged (Reply σ υ (List α)))}
    (hNext : ∀ consumed' g', k ≠ 0 → g'.count + k = total →
      next consumed' g' = g'.finish (consumed || consumed') <$> (nested p k).view φ g'.state) :
    (p.map Yield.value).view φ g.state >>= advance (.times total) g consumed next =
      g.finish consumed <$> (nested p (k + 1)).view φ g.state := by
  rw [view_map, bind_map_left, nested, finish_bind]
  apply φ.carry_bind_congr (hp g.state)
  rintro ⟨consumed', ⟨a, s, h⟩ | h⟩ ht
  · by_cases hLast : k = 0
    · subst hLast
      have hEnough : total = g.count + 1 := hCount.symm
      simp [advance, turned, Tagged.map, Reply.map, Repetition.absorb_times_value, hEnough, nested,
        view_pure, Settled.finish_pure ht]
    · have hMore : total ≠ g.count + 1 := by omega
      have hLeft : (g.take consumed' a s h).count + k = total := by
        rw [Gathered.count_take]
        omega
      simp [advance, turned, Tagged.map, Reply.map, Repetition.absorb_times_value, hMore,
        hNext consumed' _ hLast hLeft]
  · exact advance_error (.times total) rfl g consumed next consumed' h

theorem loop_times (hp : p.Settled) {total : Nat} (left : Nat) {k : Nat} (hLeft : k < left)
    (g : Gathered σ υ α) (hCount : g.count + (k + 1) = total) :
    Tagged.mk true <$> Computation.loop left
        (roundView (.times total) ((p.map Yield.value).view φ)) g =
      g.finish true <$> (nested p (k + 1)).view φ g.state := by
  induction left generalizing k g with
  | zero => exact absurd hLeft (Nat.not_lt_zero k)
  | succ left ih =>
    rw [loop_succ]
    apply times_round φ hp hCount
    intro _ g' hMore hCount'
    obtain ⟨k, rfl⟩ := Nat.exists_eq_add_one_of_ne_zero hMore
    exact ih (by omega) g' hCount'

theorem gatherView_times (hp : p.Settled) {rounds total : Nat} (left : Nat) {k : Nat}
    (hRounds : k < rounds) (hLeft : k < left) (g : Gathered σ υ α)
    (hCount : g.count + (k + 1) = total) :
    gatherView rounds (.times total) ((p.map Yield.value).view φ) left g =
      g.finish false <$> (nested p (k + 1)).view φ g.state := by
  induction left generalizing k g with
  | zero => exact absurd hLeft (Nat.not_lt_zero k)
  | succ left ih =>
    rw [gatherView_succ]
    apply times_round φ hp hCount
    intro consumed g' hMore hCount'
    obtain ⟨k, rfl⟩ := Nat.exists_eq_add_one_of_ne_zero hMore
    cases consumed with
    | true => exact loop_times φ hp rounds (by omega) g' hCount'
    | false => exact ih (by omega) (by omega) g' hCount'

omit [LawfulComputation n] in
theorem Keeps.nested {C : Contract σ υ} (hC : C.Closed) (hp : Keeps C p) (k : Nat) :
    Keeps C (nested p k) := by
  induction k with
  | zero => exact fun s => reply (hC.stay rfl)
  | succ k ih => exact bind hC hp fun a => ih.map (a :: ·)

theorem nested_add [Source.Advancing σ] (hp : Keeps Contract.hint p) (k l : Nat) :
    Equivalent φ (nested p (k + l))
      ((nested p k).bind fun as => (nested p l).map fun bs => as ++ bs) := by
  induction k with
  | zero =>
    intro s
    have hEmpty : ((nested p l).map fun bs => [] ++ bs).view φ s = (nested p l).view φ s := by
      rw [view_map]
      exact (congrArg (· <$> _) (funext Tagged.map_id)).trans (id_map' _)
    have hKept := (hp.nested Contract.hint_closed l).map fun bs => [] ++ bs
    rw [Nat.zero_add, nested, view_pure_bind, hKept.follow_unknown, hEmpty]
  | succ k ih =>
    intro s
    let later (as : List α) : Parser m σ υ (List α) := (nested p l).map fun bs => as ++ bs
    -- The first value moves from behind the other `k` to before them.
    have hFirst (a : α) : Equivalent φ ((nested p (k + l)).map (a :: ·))
        (((nested p k).map (a :: ·)).bind later) := by
      intro s
      calc
        ((nested p (k + l)).map (a :: ·)).view φ s
          = (((nested p k).bind later).map (a :: ·)).view φ s := ih.map (a :: ·) s
        _ = ((nested p k).bind fun as => (later as).map (a :: ·)).view φ s :=
          bind_then_map φ (nested p k) later (a :: ·) s
        _ = ((nested p k).bind fun as => later (a :: as)).view φ s :=
          (Equivalent.refl (nested p k)).bind (fun as => map_then_map φ _ _ _) s
        _ = (((nested p k).map (a :: ·)).bind later).view φ s :=
          (map_then_bind φ (a :: ·) (nested p k) later s).symm
    rw [Nat.succ_add]
    exact ((Equivalent.refl p).bind hFirst s).trans
      (bind_bind φ p (fun a => (nested p k).map (a :: ·)) later s).symm

variable [Shown τ] [Source.Advancing σ]

theorem count_equivalent_nested (hp : p.Built) {rounds k : Nat} (hRounds : k ≤ rounds) :
    Equivalent φ (count rounds k p) (nested p k) := by
  intro s
  unfold count
  cases k with
  | zero => rfl
  | succ k =>
    have hKept := (hp.keeps Contract.hint_closed).nested Contract.hint_closed (k + 1)
    rw [if_neg (Nat.succ_ne_zero k), view_gather,
      gatherView_times φ hp.settled rounds hRounds hRounds (.start s) (Nat.zero_add _)]
    exact finish_start φ hKept s

/-- The laws of running a parser a number of times, where so many rounds are allowed. -/
structure CountLaws (rounds : Nat) (p : Parser m σ υ α) : Prop where
  add (k l : Nat) : k + l ≤ rounds → Equivalent φ (count rounds (k + l) p)
    ((count rounds k p).bind fun as => (count rounds l p).map fun bs => as ++ bs)
  one : 1 ≤ rounds → Equivalent φ (count rounds 1 p) (p.map fun a => [a])
  eq_nested (k : Nat) : k ≤ rounds → Equivalent φ (count rounds k p) (nested p k)
  length (k : Nat) : k ≤ rounds → ∀ s,
    Delivers (fun t => ∀ as ∈ t.value.value?, as.length = k) ((count rounds k p).view φ s)
  /-- A count goes wrong only where `p` does: a round may well be empty. -/
  safe (G : Safety m) (k : Nat) :
    Advances G (fun _ => False) p → Advances G (fun _ => False) (count rounds k p)

theorem countLaws (hp : p.Built) (rounds : Nat) : CountLaws φ rounds p where
  add k l hRounds s := by
    have hBoth := (count_equivalent_nested φ hp (Nat.le_of_add_right_le hRounds)).bind fun as =>
      (count_equivalent_nested φ hp (Nat.le_of_add_left_le hRounds)).map (as ++ ·)
    rw [count_equivalent_nested φ hp hRounds s, hBoth s]
    exact nested_add φ (hp.keeps Contract.hint_closed) k l s
  one hRounds s := by
    rw [count_equivalent_nested φ hp hRounds s, hp.settled.map_equivalent φ]
    refine (Equivalent.refl p).bind (fun a s => ?_) s
    rw [nested, view_map, view_pure, view_pure, map_pure]
    rfl
  eq_nested k hRounds := count_equivalent_nested φ hp hRounds
  length k hRounds s := by
    rw [count_equivalent_nested φ hp hRounds s]
    exact length_nested φ p k s
  safe G k hSafe := (hSafe.count rounds k).mono fun _ => False.elim

/-- An `a` that may be missing, three times on `ab`: the first round reads the `a`, and the others
are empty. -/
theorem countLaws_optional :
    let g : Grammar Rune Unit (fun _ => Empty) (fun _ => Empty) Unit :=
      (Grammar.char (.ofChar 'a')).optional.traced [120]
    let p : Parser Trace Text Unit Unit := Rulebook.parser nofun 1 (Rulebook.ofGrammars nofun) g
    Equivalent .events (count 3 (1 + 2) p)
        ((count 3 1 p).bind fun as => (count 3 2 p).map fun bs => as ++ bs) ∧
      Equivalent .events (count 3 1 p) (p.map fun a => [a]) ∧
      Equivalent .events (count 3 3 p) (nested p 3) ∧
      ((count 3 3 p).observe ⟨.ofBytes [] [97, 98], ()⟩).toOption.map (fun x =>
        (x.1.consumed, x.1.value.value?, x.1.value.hint.expected, x.2.toList.length)) =
        some (true, some [(), (), ()], [Rune.quoted (.ofChar 'a')], 6) := by
  intro g p
  have hBuilt : p.Built := ⟨fun _ => Empty, fun _ => Empty, nofun, 1, nofun, g, rfl⟩
  have hLaws : CountLaws .events 3 p := countLaws .events hBuilt 3
  exact ⟨hLaws.add 1 2 le_rfl, hLaws.one (by decide), hLaws.eq_nested 3 le_rfl, rfl⟩

end

/-! ## Until an end succeeds -/

/-- Tries `stop`, then `p` and itself again, with a bound on how often. -/
def untilStop (p : Parser m σ υ α) (stop : Parser m σ υ β) : Nat → Parser m σ υ (List α)
  | 0 => fun _ => Computation.fault .exhausted
  | left + 1 =>
    (stop.map fun _ => []).orElse (p.bind fun a => (untilStop p stop left).map (a :: ·))

/-- How rounds that try an end first come to their own end. -/
inductive TillHalt (σ υ α : Type) where
  /-- With an outcome of the whole. -/
  | over (t : Tagged (Reply σ υ (List α)))
  /-- With a value for which nothing was consumed. So many rounds were left, and the tag is that of
  the rounds before. -/
  | idle (left : Nat) (consumed : Bool) (g : Gathered σ υ α)

/-- Runs rounds up to the first in which the end is not refused, or the value behind it is no
success with consumption. -/
def tillRounds (seen : State σ υ → n (Tagged (Reply σ υ α)))
    (stop : State σ υ → n (Tagged (Reply σ υ β))) :
    Nat → Bool → Gathered σ υ α → n (TillHalt σ υ α)
  | 0, _, _ => Computation.fault .exhausted
  | left + 1, consumed, g => do
    let t ← stop g.state
    match t.refused? with
    | none => pure (.over (g.finish consumed (t.map (Reply.map fun _ => []))))
    | some h =>
      let g := g.refuse h
      match ← seen g.state with
      | ⟨true, .ok a s h⟩ => tillRounds seen stop left true (g.take true a s h)
      | ⟨false, .ok a s h⟩ => pure (.idle left consumed (g.take false a s h))
      | ⟨consumed', .error h⟩ => pure (.over (g.finish consumed ⟨consumed', .error h⟩))

/-- A repetition does not go on behind a value for which nothing was consumed. -/
def TillHalt.concluded : TillHalt σ υ α → n (Tagged (Reply σ υ (List α)))
  | .over t => pure t
  | .idle _ _ _ => Computation.fault .emptyRound

/-- The recursion goes on behind every value. -/
def TillHalt.resumed (φ : Transfer m n) (p : Parser m σ υ α) (stop : Parser m σ υ β) :
    TillHalt σ υ α → n (Tagged (Reply σ υ (List α)))
  | .over t => pure t
  | .idle left consumed g => g.finish consumed <$> (untilStop p stop left).view φ g.state

section

variable (φ : Transfer m n) (p : Parser m σ υ α) (stop : Parser m σ υ β)

theorem tillRounds_resumed (left : Nat) (consumed : Bool) (g : Gathered σ υ α) :
    tillRounds (p.view φ) (stop.view φ) left consumed g >>= TillHalt.resumed φ p stop =
      g.finish consumed <$> (untilStop p stop left).view φ g.state := by
  induction left generalizing consumed g with
  | zero => simp [tillRounds, untilStop, view_eq]
  | succ left ih =>
    rw [tillRounds, untilStop, view_orElse, view_map, bind_assoc, bind_map_left, map_bind]
    congr 1
    funext t
    rw [Tagged.refused?_map]
    cases t.refused? with
    | none => simp [TillHalt.resumed]
    | some h =>
      simp only [Functor.map_map, Gathered.finish_follow, finish_bind, bind_assoc]
      congr 1
      funext t
      obtain ⟨_ | _, ⟨a, s, h'⟩ | h'⟩ := t
      · simp [TillHalt.resumed]
      · simp [TillHalt.resumed]
      · simpa using ih true ((g.refuse h).take true a s h')
      · simp [TillHalt.resumed]

omit [LawfulComputation n] in
theorem advance_refused (g : Gathered σ υ α) (consumed : Bool)
    (next : Bool → Gathered σ υ α → n (Tagged (Reply σ υ (List α)))) (h : Hint)
    (t : Tagged (Reply σ υ (Yield α))) :
    advance .untilOver g consumed next (t.follow false h) =
      advance .untilOver (g.refuse h) consumed next t := by
  obtain ⟨consumed', r⟩ := t
  cases consumed' with
  | false =>
    have hAbsorb : Repetition.untilOver.absorb g false (r.after h) = _ :=
      Repetition.absorb_after_refused rfl g h r
    simp [advance, Tagged.follow, hAbsorb]
  | true => obtain ⟨_ | _, s, h'⟩ | h' := r <;> rfl

theorem advance_over (g : Gathered σ υ α) (consumed : Bool)
    (next : Bool → Gathered σ υ α → n (Tagged (Reply σ υ (List α)))) (consumed' : Bool)
    (s : State σ υ) (h : Hint) :
    advance .untilOver g consumed next ⟨consumed', .ok .over s h⟩ =
      pure (g.finish consumed ⟨consumed', .ok [] s h⟩) := by
  cases consumed' <;>
    simp [advance, turned, Repetition.absorb, Gathered.finish, Tagged.follow, Tagged.map,
      Reply.map, Reply.after, Reply.mapHint]

theorem advance_value (g : Gathered σ υ α) (consumed : Bool)
    (next : Bool → Gathered σ υ α → n (Tagged (Reply σ υ (List α)))) (consumed' : Bool) (a : α)
    (s : State σ υ) (h : Hint) :
    advance .untilOver g consumed next ⟨consumed', .ok (.value a) s h⟩ =
      if consumed' then next true (g.take true a s h) else Computation.fault .emptyRound := by
  cases consumed' <;> simp [advance, turned, Repetition.absorb, Repetition.untilOver, Gathered.take]

theorem till_round (left : Nat) (consumed : Bool) (g : Gathered σ υ α)
    {next : Bool → Gathered σ υ α → n (Tagged (Reply σ υ (List α)))}
    (hNext : ∀ g, next true g =
      tillRounds (p.view φ) (stop.view φ) left true g >>= TillHalt.concluded) :
    ((stop.map fun _ => Yield.over).orElse (p.map Yield.value)).view φ g.state >>=
        advance .untilOver g consumed next =
      tillRounds (p.view φ) (stop.view φ) (left + 1) consumed g >>= TillHalt.concluded := by
  rw [tillRounds, view_orElse, view_map, view_map, bind_assoc, bind_assoc, bind_map_left]
  congr 1
  funext t
  rw [Tagged.refused?_map]
  cases t.refused? with
  | none =>
    obtain ⟨consumed', ⟨b, s, h⟩ | h⟩ := t
    · simp [Tagged.map, Reply.map, advance_over, TillHalt.concluded]
    · simp [Tagged.map, Reply.map, advance_error .untilOver rfl, TillHalt.concluded]
  | some h =>
    simp only [bind_map_left, bind_assoc, advance_refused]
    congr 1
    funext t
    obtain ⟨_ | _, ⟨a, s, h'⟩ | h'⟩ := t
    · simp [Tagged.map, Reply.map, advance_value, TillHalt.concluded]
    · simp [Tagged.map, Reply.map, advance_error .untilOver rfl, TillHalt.concluded]
    · simp [Tagged.map, Reply.map, advance_value, hNext]
    · simp [Tagged.map, Reply.map, advance_error .untilOver rfl, TillHalt.concluded]

theorem loop_untilOver (left : Nat) (g : Gathered σ υ α) :
    Tagged.mk true <$> Computation.loop left
        (roundView .untilOver
          (((stop.map fun _ => Yield.over).orElse (p.map Yield.value)).view φ)) g =
      tillRounds (p.view φ) (stop.view φ) left true g >>= TillHalt.concluded := by
  induction left generalizing g with
  | zero => simp [LawfulComputation.loop_zero, tillRounds]
  | succ left ih =>
    rw [loop_succ]
    exact till_round φ p stop left true g ih

/-- One round is run outside the inner loop, and it is the only one: the next one is reached only
with input consumed. -/
theorem view_manyTill [Source σ τ] (rounds : Nat) (s : State σ υ) :
    (manyTill (rounds + 1) p stop).view φ s =
      tillRounds (p.view φ) (stop.view φ) (rounds + 2) false (.start s) >>=
        TillHalt.concluded := by
  rw [manyTill, view_gather, gatherView_succ]
  exact till_round φ p stop (rounds + 1) false (.start s) (loop_untilOver φ p stop (rounds + 1))

omit [LawfulComputation n] in
theorem Keeps.untilStop [UniformComputation m] [Source σ τ] {C : Contract σ υ} (hC : C.Closed)
    {p : Parser m σ υ α} {stop : Parser m σ υ β} (hp : Keeps C p) (hStop : Keeps C stop)
    (left : Nat) : Keeps C (untilStop p stop left) := by
  induction left with
  | zero => exact fun s => .fault _
  | succ left ih => exact orElse hC (hStop.map _) (bind hC hp fun a => ih.map (a :: ·))

theorem view_untilStop [UniformComputation m] [Source σ τ] [Source.Advancing σ]
    {p : Parser m σ υ α} {stop : Parser m σ υ β} (hp : Keeps Contract.hint p)
    (hStop : Keeps Contract.hint stop) (left : Nat) (s : State σ υ) :
    (untilStop p stop left).view φ s =
      tillRounds (p.view φ) (stop.view φ) left false (.start s) >>=
        TillHalt.resumed φ p stop := by
  rw [tillRounds_resumed]
  exact (finish_start φ (hp.untilStop Contract.hint_closed hStop left) s).symm

/-- The laws of running a parser until an end succeeds. The rounds of the repetition and those of
the recursion are the same up to the first in which the end is refused and a value is found behind
it without consumption. -/
structure TillLaws [Source σ τ] (rounds : Nat) (s : State σ υ) : Prop where
  repetition : (manyTill (rounds + 1) p stop).view φ s =
    tillRounds (p.view φ) (stop.view φ) (rounds + 2) false (.start s) >>= TillHalt.concluded
  recursion : (untilStop p stop (rounds + 2)).view φ s =
    tillRounds (p.view φ) (stop.view φ) (rounds + 2) false (.start s) >>= TillHalt.resumed φ p stop
  /-- Where no run comes to such a round, the two are the same. -/
  agree : Delivers (fun halt => ∃ t, halt = .over t)
      (tillRounds (p.view φ) (stop.view φ) (rounds + 2) false (.start s)) →
    (manyTill (rounds + 1) p stop).view φ s = (untilStop p stop (rounds + 2)).view φ s
  agree_of_ne [ReportingComputation n] :
    (manyTill (rounds + 1) p stop).view φ s ≠ Computation.fault .emptyRound →
    (manyTill (rounds + 1) p stop).view φ s = (untilStop p stop (rounds + 2)).view φ s

variable {p stop}

theorem tillLaws [UniformComputation m] [Source σ τ] [Shown τ] [Source.Advancing σ] (hp : p.Built)
    (hStop : stop.Built) (rounds : Nat) (s : State σ υ) : TillLaws φ p stop rounds s := by
  have hMany := view_manyTill φ p stop rounds s
  have hUntil := view_untilStop φ (hp.keeps Contract.hint_closed)
    (hStop.keeps Contract.hint_closed) (rounds + 2) s
  have hAgree (hOver : Delivers (fun halt => ∃ t, halt = .over t)
      (tillRounds (p.view φ) (stop.view φ) (rounds + 2) false (.start s))) :
      (manyTill (rounds + 1) p stop).view φ s = (untilStop p stop (rounds + 2)).view φ s := by
    rw [hMany, hUntil]
    apply hOver.bind_congr
    rintro _ ⟨t, rfl⟩
    rfl
  refine ⟨hMany, hUntil, hAgree, fun hQuiet => hAgree ?_⟩
  rw [hMany] at hQuiet
  apply (ReportingComputation.delivers_of_bind hQuiet).mono
  rintro (t | _) hHalt
  · exact ⟨t, rfl⟩
  · exact absurd rfl hHalt

/-- An `a` in each round until a `;`. On `aa;b` there are two of them, and on `ab` the second round
misses both. Where the `a` may be missing, the first round on `b` is empty. -/
theorem tillLaws_separated :
    let a : Grammar Rune Unit (fun _ => Empty) (fun _ => Empty) Rune :=
      (Grammar.char (.ofChar 'a')).traced [120]
    let built {α : Type} (g : Grammar Rune Unit (fun _ => Empty) (fun _ => Empty) α) :
        Parser Trace Text Unit α := Rulebook.parser nofun 1 (Rulebook.ofGrammars nofun) g
    let p := built a
    let stop := built (.char (.ofChar ';'))
    let start (src : Bytes) : State Text Unit := ⟨.ofBytes [] src, ()⟩
    let shown (src : Bytes) := ((manyTill 3 p stop).observe (start src)).toOption.map fun x =>
      (x.1.consumed, x.1.value.value?, x.1.value.hint.expected, x.2.toList.length)
    (∀ src ∈ [[97, 97, 59, 98], [97, 98]],
        (manyTill 3 p stop).view .events (start src) =
          (untilStop p stop 4).view .events (start src)) ∧
      shown [97, 97, 59, 98] = some (true, some [.ofChar 'a', .ofChar 'a'], [], 4) ∧
      shown [97, 98] = some (true, none,
        [Rune.quoted (.ofChar ';'), Rune.quoted (.ofChar 'a')], 4) ∧
      (manyTill 3 (built a.optional) stop).view .events (start [98]) = .error .emptyRound := by
  intro a built p stop start shown
  have hBuilt {α : Type} (g : Grammar Rune Unit (fun _ => Empty) (fun _ => Empty) α) :
      (built g).Built := ⟨fun _ => Empty, fun _ => Empty, nofun, 1, nofun, g, rfl⟩
  refine ⟨?_, by decide +kernel, by decide +kernel, rfl⟩
  intro src hSrc
  have hOk : ((manyTill 3 p stop).view .events (start src)).toOption.isSome = true := by
    obtain rfl | rfl := List.mem_pair.mp hSrc <;> rfl
  apply (tillLaws .events (hBuilt a) (hBuilt (.char (.ofChar ';'))) 2 (start src)).agree_of_ne
  intro hFault
  rw [hFault] at hOk
  cases hOk

end

end Parser

end Descent
