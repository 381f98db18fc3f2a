import Descent.Proofs.Computation.Renaming

/-! # Rounds by trampoline

A loop by continuation unwinds to start its next round, keeps in the ledger which rounds were
continued, and starts afresh where a kept continuation is called after its round has returned. Where
no round is continued twice none of this shows: a course mirrors the one in which every loop is
nested sequencing and starts no round. What comes after the loop may start rounds of its own, which
are then started on both sides and run in lockstep. -/

namespace Descent

variable {ν ω : Type}

namespace Numbering

variable {w w' : Numbering} {l l' : Ledger} {number rounds : Nat}

/-! A course holds the rounds whose continuation it may still call, each with the number of rounds
that its loop has left. -/

def OpenIn (w : Numbering) (l : Ledger) : Prop :=
  ∀ i rounds, w i = some rounds → l.isContinued i = false

/-- None of the rounds was continued between the ledgers. -/
def Spared (w : Numbering) (l l' : Ledger) : Prop :=
  ∀ i rounds, w i = some rounds → l'.isContinued i = true → l.isContinued i = true

/-- All of the rounds that are not among `w` have returned. -/
def IdleBesides (w' w : Numbering) (l : Ledger) : Prop :=
  ∀ i rounds, w' i = some rounds → w i = some rounds ∨ l.isRunning i = false

theorem OpenIn.of_le (h : w'.OpenIn l) (hLe : w.Le w') : w.OpenIn l :=
  fun i rounds hi => h i rounds (hLe i rounds hi)

theorem Spared.openIn (h : w.Spared l l') (hOpen : w.OpenIn l) : w.OpenIn l' := by
  intro i rounds hi
  by_contra hContinued
  have hBefore := h i rounds hi (Bool.not_eq_false _ ▸ hContinued)
  rw [hOpen i rounds hi] at hBefore
  cases hBefore

theorem Below.spared (h : w.Below number) : w.Spared l (l.markContinued number) := by
  intro i left hi hContinued
  rwa [Ledger.isContinued_markContinued_of_ne (h i left hi).ne] at hContinued

theorem OpenIn.add_start (h : w.OpenIn l) : (w.add l.size rounds).OpenIn l.start := by
  intro i left hi
  rw [Ledger.isContinued_start_eq]
  rcases add_eq_some hi with ⟨rfl, -⟩ | ⟨-, hHeld⟩
  · exact Ledger.isContinued_of_size_le le_rfl
  · exact h i left hHeld

end Numbering

open Ledger

mutual

/-- The course does what the second one does, which holds no rounds; but it may find that a round it
holds was continued before. -/
inductive Course.Mirrors : Numbering → Numbering → Course ν ω → Course ν ω → Prop
  | intro {ρ w : Numbering} {c c' : Course ν ω}
      (run : ∀ ⦃ρ' l l'⦄, ρ.Le ρ' → l.Agree ρ' l' → w.Within l → w.Apart ρ' →
        Outcome ρ' w l l' (c l) (c' l')) :
      Course.Mirrors ρ w c c'

/-- The end of a run from the first ledger, against the end of the mirrored run from the second. -/
inductive Outcome :
    Numbering → Numbering → Ledger → Ledger → Signal ν ω × Ledger → Signal ν ω × Ledger → Prop
  | twice {ρ w : Numbering} {l l' l₁ : Ledger} {result' : Signal ν ω × Ledger} {i rounds : Nat} :
      w i = some rounds → l.isContinued i = true →
      Outcome ρ w l l' (.fault .resumedTwice, l₁) result'
  | lockstep {ρ w : Numbering} {l l' : Ledger} {result result' : Signal ν ω × Ledger} :
      Lockstep ρ w l result result' → Outcome ρ w l l' result result'
  | suspended {ρ w v : Numbering} {l l' l₁ : Ledger} {resume resume' : ν → Course ν ω} (tag : ν) :
      l.Evolves .nothing w l₁ → v.From w l → v.Within l₁ → (w.OpenIn l → v.OpenIn l₁) →
      v.IdleBesides w l₁ → (∀ value, Course.Mirrors ρ v (resume value) (resume' value)) →
      Outcome ρ w l l' (.answer (.suspended tag resume), l₁) (.answer (.suspended tag resume'), l')
  /-- The course has unwound to a round that is still running. What its loop will do mirrors the
  rest, with which the mirrored run has gone on at once. -/
  | rewind {ρ w v : Numbering} {l l' l₁ : Ledger} {target rounds : Nat} {rest rest' : Course ν ω}
      {result' : Signal ν ω × Ledger} :
      w target = some rounds → l.isRunning target = true → l.Evolves .nothing w l₁ → v.Le w →
      v.Below target → v.Spared l l₁ → Course.Mirrors ρ v (Cont.drive rounds rest) rest' →
      rest' l' = result' → Outcome ρ w l l' (.rewind target rest, l₁) result'

end

/-- A course from a ledger that was reached before, where it holds no more rounds. -/
theorem Outcome.after {ρ w v : Numbering} {l l₁ l' : Ledger} {result result' : Signal ν ω × Ledger}
    (hEvolves : l.Evolves .nothing w l₁) (hWithin : w.Within l) (hLe : v.Le w)
    (hSpared : v.Spared l l₁) (h : Outcome ρ v l₁ l' result result') :
    Outcome ρ w l l' result result' := by
  have hFrom : Numbering.nothing.From .nothing l := .refl _ l
  cases h with
  | twice hHeld hContinued => exact .twice (hLe _ _ hHeld) (hSpared _ _ hHeld hContinued)
  | lockstep h =>
    exact .lockstep (.after (.refl ρ) (.refl ρ l)
      (hEvolves.mono (Numbering.nothing_le ρ) (.refl w)) hLe h)
  | suspended tag hNext hHeld hIn hOpen hIdle hResume =>
    refine .suspended tag (hEvolves.trans hNext hFrom hLe) ?_ hIn ?_ ?_ hResume
    · intro i left hi
      rcases hHeld i left hi with hi | hNew
      · exact .inl (hLe i left hi)
      · exact .inr (hEvolves.size_le.trans hNew)
    · exact fun hw => hOpen (hSpared.openIn (hw.of_le hLe))
    · exact fun i left hi => (hIdle i left hi).imp_left (hLe i left)
  | rewind hTarget hRunning hNext hLe' hBelow hSpared' hRest hResult =>
    refine .rewind (hLe _ _ hTarget) ?_ (hEvolves.trans hNext hFrom hLe) (hLe'.trans hLe) hBelow ?_
      hRest hResult
    · rw [← hEvolves.running _ (hWithin _ _ (hLe _ _ hTarget)) rfl, hRunning]
    · intro i left hi hContinued
      exact hSpared i left (hLe' _ _ hi) (hSpared' i left hi hContinued)

namespace Course.Mirrors

variable {ρ ρ' w : Numbering} {c c' : Course ν ω}

theorem run (h : Course.Mirrors ρ w c c') {l l' : Ledger} (hAgree : l.Agree ρ l')
    (hWithin : w.Within l) (hApart : w.Apart ρ) : Outcome ρ w l l' (c l) (c' l') := by
  obtain ⟨hRun⟩ := h
  exact hRun (.refl ρ) hAgree hWithin hApart

theorem mono (h : Course.Mirrors ρ w c c') (hLe : ρ.Le ρ') : Course.Mirrors ρ' w c c' := by
  obtain ⟨hRun⟩ := h
  exact ⟨fun _ _ _ hLe' => hRun (hLe.trans hLe')⟩

theorem of_alike (h : Course.Alike ρ c c') : Course.Mirrors ρ w c c' := by
  refine ⟨fun ρ' l l' hLe hAgree _ _ => .lockstep ?_⟩
  exact .after (.refl ρ') (.refl ρ' l) (.refl ρ' w l) (Numbering.nothing_le w)
    ((h.mono hLe).run hAgree)

theorem of_portable (h : c.Portable) : Course.Mirrors ρ w c c :=
  of_alike (h.mono (Numbering.nothing_le ρ))

end Course.Mirrors

namespace Cont

variable {α β : Type}

/-- Whatever continuations mirror each other, the computations do with them. -/
protected def Mirrors (x x' : Cont ν ω α) : Prop :=
  ∀ ⦃ρ w : Numbering⦄ ⦃k k' : α → Course ν ω⦄, (∀ a, Course.Mirrors ρ w (k a) (k' a)) →
    Course.Mirrors ρ w (x k) (x' k')

theorem mirrors_pure (a : α) : Cont.Mirrors (pure a : Cont ν ω α) (pure a) := fun _ _ _ _ hk => hk a

theorem Mirrors.bind {x x' : Cont ν ω α} {f f' : α → Cont ν ω β} (hx : x.Mirrors x')
    (hf : ∀ a, (f a).Mirrors (f' a)) : (x >>= f).Mirrors (x' >>= f') :=
  fun _ _ _ _ hk => hx fun a => hf a hk

theorem mirrors_suspend (tag : ν) (receive : ν → α) :
    Cont.Mirrors (suspend tag receive : Cont ν ω α) (suspend tag receive) := by
  intro ρ w k k' hk
  refine ⟨fun ρ' l l' hLe hAgree hWithin hApart => ?_⟩
  exact .suspended tag (.refl _ w l) (.refl w l) hWithin id (fun _ _ => .inl)
    fun v => (hk (receive v)).mono hLe

theorem mirrors_drop {c : Course ν ω} (h : c.Portable) :
    Cont.Mirrors (fun _ => c : Cont ν ω α) fun _ => c :=
  fun _ _ _ _ _ => .of_portable h

theorem mirrors_fault (f : Fault) :
    Cont.Mirrors (Computation.fault f : Cont ν ω α) (Computation.fault f) :=
  mirrors_drop (Course.alike_signal (.fault f))

theorem Mirrors.unrolled {step step' : β → Cont ν ω (Turn β α)}
    (hStep : ∀ b, (step b).Mirrors (step' b)) (rounds : Nat) (seed : β) :
    Cont.Mirrors (Descent.unrolled (Computation.fault .exhausted) step rounds seed)
      (Descent.unrolled (Computation.fault .exhausted) step' rounds seed) := by
  induction rounds generalizing seed with
  | zero => exact mirrors_fault .exhausted
  | succ rounds ih =>
    apply (hStep seed).bind
    intro turn
    cases turn with
    | next seed => exact ih seed
    | done result => exact mirrors_pure result

section Loop

variable {ρ w : Numbering} {k k' : α → Course ν ω} {step step' : β → Cont ν ω (Turn β α)}
  {rounds number : Nat}

theorem outcome_markContinued {c c' : Course ν ω} (h : Course.Mirrors ρ w c c')
    (hBelow : w.Below number) {l l' : Ledger} (hAgree : l.Agree ρ l')
    (hWithin : (w.add number rounds).Within l) (hApart : (w.add number rounds).Apart ρ) :
    Outcome ρ (w.add number rounds) l l' (c (l.markContinued number)) (c' l') := by
  have hLe : w.Le (w.add number rounds) := hBelow.le_add
  have hEvolves : l.Evolves .nothing (w.add number rounds) (l.markContinued number) :=
    .markContinued (.inr Numbering.add_self)
  have hRun := h.run (hAgree.evolves hEvolves hApart)
    ((hWithin.of_le hLe).mono hEvolves.size_le) (hApart.mono hLe (.refl ρ))
  exact hRun.after hEvolves hWithin hLe hBelow.spared

theorem mirrors_continuation (hk : ∀ a, Course.Mirrors ρ w (k a) (k' a))
    {rest rest' : β → Course ν ω}
    (hRest : ∀ seed, Course.Mirrors ρ w (drive rounds (rest seed)) (rest' seed))
    (hBelow : w.Below number) (turn : Turn β α) :
    Course.Mirrors ρ (w.add number rounds) (continuation rest k rounds number turn)
      (match turn with
        | .next seed => rest' seed
        | .done result => k' result) := by
  refine ⟨fun ρ' l l' hLe hAgree hWithin hApart => ?_⟩
  unfold continuation
  by_cases hContinued : l.isContinued number = true
  · rw [if_pos hContinued]
    exact .twice Numbering.add_self hContinued
  rw [if_neg hContinued]
  dsimp only
  cases turn with
  | done result =>
    exact outcome_markContinued ((hk result).mono hLe) hBelow hAgree hWithin hApart
  | next seed =>
    dsimp only
    split
    next hRunning =>
      rw [isRunning_markContinued] at hRunning
      exact .rewind Numbering.add_self hRunning (.markContinued (.inr Numbering.add_self))
        hBelow.le_add hBelow hBelow.spared ((hRest seed).mono hLe) rfl
    next => exact outcome_markContinued ((hRest seed).mono hLe) hBelow hAgree hWithin hApart

theorem outcome_land {l l' l₁ : Ledger} {signal : Signal ν ω} {result' : Signal ν ω × Ledger}
    (hAgree : l.Agree ρ l') (hWithin : w.Within l) (hApart : w.Apart ρ)
    (h : Outcome ρ (w.add l.size rounds) l.start l' (signal, l₁) result') :
    Outcome ρ w l l' (land l.size rounds signal (l₁.markReturned l.size)) result' := by
  have hStarted : l.Evolves .nothing .nothing l.start := .start _ _ l
  have hOlder (i : Nat) (hi : i < l.size) (hw : w i = none) : w.add l.size rounds i = none :=
    (Numbering.add_of_ne hi.ne).trans hw
  cases h with
  | @twice _ _ _ _ _ _ i left hHeld hContinued =>
    -- The round itself has only just been started.
    rw [isContinued_start_eq] at hContinued
    rcases Numbering.add_eq_some hHeld with ⟨rfl, -⟩ | ⟨-, hHeld⟩
    · rw [isContinued_of_size_le le_rfl] at hContinued
      cases hContinued
    · exact .twice hHeld hContinued
  | lockstep h =>
    cases h with
    | @intro _ ρ' _ _ _ l₁' _ signal' hLe hFrom hEvolves hAgree' hSignal =>
      have hUnpaired : ρ' l.size = none :=
        hFrom.eq_none ((size_start l).symm ▸ Nat.lt_succ_self _) (hAgree.within.eq_none le_rfl)
      have hPassed : land l.size rounds signal (l₁.markReturned l.size) =
          (signal, l₁.markReturned l.size) := by
        cases hSignal with
        | answer ha => rfl
        | fault f => rfl
        | rewind hTarget hRest =>
          rw [land, if_neg]
          rintro rfl
          cases hUnpaired.symm.trans hTarget
      rw [hPassed]
      exact .lockstep (.intro hLe (hFrom.trans (.refl ρ l) hStarted.size_le)
        (hEvolves.round (fun _ _ h => h) hOlder) (hAgree'.markReturned_of_unpaired hUnpaired)
        hSignal)
  | suspended tag hEvolves hFrom hIn hOpen hIdle hResume =>
    refine .suspended tag (hEvolves.round (fun _ _ h => h) hOlder) hFrom.of_add_start
      (hIn.mono (size_markReturned l₁ l.size).ge) ?_ ?_ hResume
    · intro hw i left hi
      exact isContinued_markReturned.trans (hOpen hw.add_start i left hi)
    · intro i left hi
      rcases eq_or_ne i l.size with rfl | hne
      · exact .inr isRunning_markReturned_self
      · rw [isRunning_markReturned_of_ne hne]
        exact (hIdle i left hi).imp_left fun hHeld => (Numbering.add_of_ne hne).symm.trans hHeld
  | @rewind _ _ v _ _ _ target left rest rest' _ hTarget hRunning hEvolves hLe hBelow hSpared hRest
      hResult =>
    -- What is unwound to this loop or past it holds no round of this loop any more.
    have hTargetLe : target ≤ l.size := by
      rcases Numbering.add_eq_some hTarget with ⟨rfl, -⟩ | ⟨-, hHeld⟩
      · exact le_rfl
      · exact (hWithin target left hHeld).le
    have hOuter : v.Le w := by
      intro i left hi
      have hHeld := hLe i left hi
      rwa [Numbering.add_of_ne ((hBelow i left hi).trans_le hTargetLe).ne] at hHeld
    have hSpared' : v.Spared l (l₁.markReturned l.size) := by
      intro i left hi hContinued
      rw [isContinued_markReturned] at hContinued
      have hStarted := hSpared i left hi hContinued
      rwa [isContinued_start_eq] at hStarted
    have hRound : l.Evolves .nothing w (l₁.markReturned l.size) :=
      hEvolves.round (fun _ _ h => h) hOlder
    rcases Numbering.add_eq_some hTarget with ⟨rfl, rfl⟩ | ⟨hne, hHeld⟩
    · rw [land, if_pos rfl, ← hResult]
      have hRun := hRest.run (hAgree.evolves hRound hApart)
        ((hWithin.of_le hOuter).mono hRound.size_le) (hApart.mono hOuter (.refl ρ))
      exact hRun.after hRound hWithin hOuter hSpared'
    · rw [land, if_neg hne]
      refine .rewind hHeld ?_ hRound hOuter hBelow hSpared' hRest hResult
      rwa [isRunning_start_of_ne hne] at hRunning

theorem mirrors_drive (hk : ∀ a, Course.Mirrors ρ w (k a) (k' a))
    (hStep : ∀ b, (step b).Mirrors (step' b)) (rounds : Nat) (seed : β) :
    Course.Mirrors ρ w (drive rounds (round step k rounds seed))
      (unrolled (Computation.fault .exhausted) step' rounds seed k') := by
  induction rounds generalizing seed with
  | zero => exact .of_alike (Course.alike_signal (.fault .exhausted))
  | succ rounds ih =>
    let next : Turn β α → Course ν ω
      | .next seed => unrolled (Computation.fault .exhausted) step' rounds seed k'
      | .done result => k' result
    have hNested : unrolled (Computation.fault .exhausted) step' (rounds + 1) seed k' =
        step' seed next := by
      change step' seed _ = _
      congr 1
      funext turn
      cases turn <;> rfl
    rw [hNested]
    refine ⟨fun ρ' l l' hLe hAgree hWithin hApart => ?_⟩
    have hRound := hStep seed fun turn => mirrors_continuation (fun a => (hk a).mono hLe)
      (fun seed => (ih seed).mono hLe) hWithin turn
    have hStarted : l.start.Agree ρ' l' :=
      hAgree.evolves (.start .nothing .nothing l) fun _ => .inl rfl
    rw [drive_succ, round_succ]
    exact outcome_land hAgree hWithin hApart
      (hRound.run hStarted hWithin.add_start (hApart.add_start hAgree.within))

theorem Mirrors.loop (hStep : ∀ b, (step b).Mirrors (step' b)) (rounds : Nat) (seed : β) :
    Cont.Mirrors (loop rounds step seed)
      (Descent.unrolled (Computation.fault .exhausted) step' rounds seed) :=
  fun _ _ _ _ hk => mirrors_drive hk hStep rounds seed

end Loop

end Cont

/-! ## Linear computations -/

/-- On every way through it the computation calls its continuation at most once, and then last; or
it keeps it in a suspension, or drops it for anything else. It may run loops of such rounds. -/
inductive Linear : {α : Type} → Cont ν ω α → Prop
  | pure {α : Type} (a : α) : Linear (pure a : Cont ν ω α)
  | suspend {α : Type} (tag : ν) (receive : ν → α) : Linear (Cont.suspend tag receive : Cont ν ω α)
  | drop {α : Type} {c : Course ν ω} : c.Portable → Linear (fun _ => c : Cont ν ω α)
  | bind {α β : Type} {x : Cont ν ω α} {f : α → Cont ν ω β} :
      Linear x → (∀ a, Linear (f a)) → Linear (x >>= f)
  | loop {α β : Type} {step : β → Cont ν ω (Turn β α)} (rounds : Nat) (seed : β) :
      (∀ b, Linear (step b)) → Linear (Cont.loop rounds step seed)

theorem Linear.exists_mirrors {α : Type} {x : Cont ν ω α} (h : Linear x) :
    ∃ x' : Cont ν ω α, x.Mirrors x' := by
  induction h with
  | pure a => exact ⟨_, Cont.mirrors_pure a⟩
  | suspend tag receive => exact ⟨_, Cont.mirrors_suspend tag receive⟩
  | drop hc => exact ⟨_, Cont.mirrors_drop hc⟩
  | bind _ _ hx hf =>
    obtain ⟨x', hx⟩ := hx
    choose f' hf using hf
    exact ⟨_, hx.bind hf⟩
  | loop rounds seed _ hStep =>
    choose step' hStep using hStep
    exact ⟨_, Cont.Mirrors.loop hStep rounds seed⟩

end Descent
