import Descent.Proofs.Computation.Sessions

/-! # A round is continued once

Whatever a program does, branching and resuming included, it takes no mark back from the ledger. So
the continuation of a round, once called, faults on every later call, and it does so before it runs
anything. -/

namespace Descent

open Ledger

variable {α β ν ω : Type}

mutual

/-- The course takes no mark back, now or after a resumption. -/
inductive Course.Forward : Course ν ω → Prop
  | intro {c : Course ν ω} (later : ∀ l : Ledger, l.Later (c l).2)
      (signal : ∀ l, Signal.Forward (c l).1) : Course.Forward c

inductive Signal.Forward : Signal ν ω → Prop
  | answer {a : Answer ν ω} : Answer.Forward a → Signal.Forward (.answer a)
  | rewind {rest : Course ν ω} (target : Nat) :
      Course.Forward rest → Signal.Forward (.rewind target rest)
  | fault (f : Fault) : Signal.Forward (.fault f)

inductive Answer.Forward : Answer ν ω → Prop
  | final (result : ω) : Answer.Forward (.final result)
  | escaped (value : ν) : Answer.Forward (.escaped value)
  | branches {parts : List (Answer ν ω)} :
      (∀ a ∈ parts, Answer.Forward a) → Answer.Forward (.branches parts)
  | layered {a : Answer ν ω} (consumed : Bool) :
      Answer.Forward a → Answer.Forward (.layered consumed a)
  | suspended {resume : ν → Course ν ω} (tag : ν) :
      (∀ v, Course.Forward (resume v)) → Answer.Forward (.suspended tag resume)

end

namespace Course

theorem Forward.later {c : Course ν ω} (h : c.Forward) (l : Ledger) : l.Later (c l).2 := by
  obtain ⟨hLater, -⟩ := h
  exact hLater l

theorem Forward.signal {c : Course ν ω} (h : c.Forward) (l : Ledger) : (c l).1.Forward := by
  obtain ⟨-, hSignal⟩ := h
  exact hSignal l

theorem forward_signal {signal : Signal ν ω} (h : signal.Forward) : Forward fun l => (signal, l) :=
  ⟨Later.refl, fun _ => h⟩

/-- The course may first have gone on to a later ledger, from where it is another one. -/
theorem forward_of_later {c : Course ν ω}
    (h : ∀ l : Ledger, ∃ (l' : Ledger) (rest : Course ν ω),
      l.Later l' ∧ rest.Forward ∧ c l = rest l') :
    c.Forward := by
  constructor
  · intro l
    obtain ⟨l', rest, hLater, hRest, hc⟩ := h l
    rw [hc]
    exact hLater.trans (hRest.later l')
  · intro l
    obtain ⟨l', rest, -, hRest, hc⟩ := h l
    rw [hc]
    exact hRest.signal l'

end Course

/-- Courses of which one may be called, and only once: the first call leaves its mark before it runs
anything, and where there is a mark nothing is run. -/
structure OneShot (number : Nat) (c : α → Course ν ω) : Prop where
  first : ∀ a l, l.isContinued number = false →
    ∃ rest : Course ν ω, rest.Forward ∧ c a l = rest (l.markContinued number)
  again : ∀ a l, l.isContinued number = true → c a l = (.fault .resumedTwice, l)

namespace OneShot

variable {number : Nat} {c : α → Course ν ω}

theorem forward (h : OneShot number c) (a : α) : (c a).Forward := by
  apply Course.forward_of_later
  intro l
  cases hContinued : l.isContinued number with
  | true =>
    exact ⟨l, _, .refl l, Course.forward_signal (.fault .resumedTwice), h.again a l hContinued⟩
  | false =>
    obtain ⟨rest, hRest, hFirst⟩ := h.first a l hContinued
    exact ⟨_, rest, .markContinued l number, hRest, hFirst⟩

theorem isContinued (h : OneShot number c) (a : α) {l : Ledger} (hNumber : number < l.size) :
    (c a l).2.isContinued number = true := by
  cases hContinued : l.isContinued number with
  | true => rwa [h.again a l hContinued]
  | false =>
    obtain ⟨rest, hRest, hFirst⟩ := h.first a l hContinued
    rw [hFirst]
    exact (hRest.later _).continued number (isContinued_markContinued_self hNumber)

end OneShot

namespace Cont

/-! ## Programs -/

protected def Forward (x : Cont ν ω α) : Prop :=
  ∀ ⦃k : α → Course ν ω⦄, (∀ a, (k a).Forward) → (x k : Course ν ω).Forward

theorem forward_pure (a : α) : Cont.Forward (pure a : Cont ν ω α) := fun _ hk => hk a

theorem Forward.bind {x : Cont ν ω α} {f : α → Cont ν ω β} (hx : x.Forward)
    (hf : ∀ a, (f a).Forward) : (x >>= f).Forward := fun _ hk => hx fun a => hf a hk

theorem forward_escape (value : ν) : (escape value : Cont ν ω α).Forward :=
  fun _ _ => Course.forward_signal (.answer (.escaped value))

theorem forward_fault (f : Fault) : (Computation.fault f : Cont ν ω α).Forward :=
  fun _ _ => Course.forward_signal (.fault f)

theorem forward_suspend (tag : ν) (receive : ν → α) : (suspend tag receive : Cont ν ω α).Forward :=
  fun _ hk => Course.forward_signal (.answer (.suspended tag fun v => hk (receive v)))

theorem forward_branch (values : List α) : (branch values : Cont ν ω α).Forward := by
  intro k hk
  suffices h : ∀ (unwound : Option (Nat × Course ν ω)) (parts : List (Answer ν ω)),
      (∀ target rest, unwound = some (target, rest) → rest.Forward) →
      (∀ a ∈ parts, a.Forward) → (branchFrom k unwound parts values).Forward from
    h none [] nofun nofun
  induction values with
  | nil =>
    intro unwound parts hUnwound hParts
    cases unwound with
    | none =>
      apply Course.forward_signal
      exact .answer (.branches fun a ha => hParts a (List.mem_reverse.mp ha))
    | some unwound => exact Course.forward_signal (.rewind unwound.1 (hUnwound _ _ rfl))
  | cons a values ih =>
    intro unwound parts hUnwound hParts
    apply Course.forward_of_later
    intro l
    -- The other values follow from where the call with the first has led.
    have hFirst := (hk a).later l
    have hSignal := (hk a).signal l
    rw [branchFrom]
    generalize k a l = result at hFirst hSignal
    obtain ⟨signal, l'⟩ := result
    cases hSignal with
    | fault f => exact ⟨l', _, hFirst, Course.forward_signal (.fault f), rfl⟩
    | answer ha =>
      refine ⟨l', _, hFirst, ih unwound _ hUnwound ?_, rfl⟩
      rw [List.forall_mem_cons]
      exact ⟨ha, hParts⟩
    | @rewind rest target hRest =>
      refine ⟨l', _, hFirst, ih (unwound.or (some (target, rest))) parts ?_ hParts, rfl⟩
      intro target' rest' hOr
      rcases Option.or_eq_some_iff.mp hOr with hEarlier | ⟨-, hHere⟩
      · exact hUnwound target' rest' hEarlier
      · cases hHere
        exact hRest

section Loop

variable {step : β → Cont ν ω (Turn β α)} {k : α → Course ν ω}

theorem forward_drive (rounds : Nat) {c : Course ν ω} (hc : c.Forward) :
    (drive rounds c).Forward := by
  induction rounds generalizing c with
  | zero => exact Course.forward_signal (.fault .exhausted)
  | succ rounds ih =>
    apply Course.forward_of_later
    intro l
    refine ⟨_, _, hc.later l, ?_, drive_succ rounds c l⟩
    have hSignal := hc.signal l
    generalize (c l).1 = signal at hSignal
    cases hSignal with
    | answer ha => exact Course.forward_signal (.answer ha)
    | fault f => exact Course.forward_signal (.fault f)
    | rewind target hRest =>
      rw [land]
      split
      · exact ih hRest
      · exact Course.forward_signal (.rewind target hRest)

theorem oneShot_continuation (hk : ∀ a, (k a).Forward) {rest : β → Course ν ω}
    (hRest : ∀ seed, (rest seed).Forward) (rounds number : Nat) :
    OneShot number (continuation rest k rounds number) := by
  refine ⟨fun turn l hOpen => ?_, fun turn l hContinued => ?_⟩
  · unfold continuation
    rw [if_neg (by simp [hOpen])]
    cases turn with
    | done result => exact ⟨_, hk result, rfl⟩
    | next seed =>
      dsimp only
      split
      · exact ⟨_, Course.forward_signal (.rewind number (hRest seed)), rfl⟩
      · exact ⟨_, forward_drive rounds (hRest seed), rfl⟩
  · unfold continuation
    rw [if_pos hContinued]

theorem forward_round (hStep : ∀ b, (step b).Forward) (hk : ∀ a, (k a).Forward) (rounds : Nat)
    (seed : β) : (round step k rounds seed).Forward := by
  induction rounds generalizing seed with
  | zero => exact Course.forward_signal (.fault .exhausted)
  | succ rounds ih =>
    apply Course.forward_of_later
    intro l
    have hRun := hStep seed (oneShot_continuation hk ih rounds l.size).forward
    have hLater := (Later.start l).trans (hRun.later l.start)
    have hSignal := Course.forward_signal (hRun.signal l.start)
    exact ⟨_, _, hLater.trans (.markReturned _ l.size), hSignal, rfl⟩

theorem Forward.loop (hStep : ∀ b, (step b).Forward) (rounds : Nat) (seed : β) :
    (loop rounds step seed).Forward :=
  fun _ hk => forward_drive rounds (forward_round hStep hk rounds seed)

end Loop

theorem Program.forward {x : Cont ν ω α} (h : Program x) : x.Forward := by
  induction h with
  | pure a => exact forward_pure a
  | fault f => exact forward_fault f
  | escape value => exact forward_escape value
  | suspend tag receive => exact forward_suspend tag receive
  | branch values => exact forward_branch values
  | bind _ _ hx hf => exact hx.bind hf
  | loop rounds seed _ hStep => exact Forward.loop hStep rounds seed

end Cont

/-! ## Sessions -/

/-- What is reported adds only suspensions that take no mark back. -/
def Kept (S S' : Session ν ω) : Prop :=
  ∃ more : List (ν → Course ν ω), S' = S.keep more ∧ ∀ resume ∈ more, ∀ v, (resume v).Forward

namespace Kept

variable {S S' S'' : Session ν ω}

theorem refl (S : Session ν ω) : Kept S S := ⟨[], S.keep_nil.symm, nofun⟩

theorem trans (h : Kept S S') (h' : Kept S' S'') : Kept S S'' := by
  obtain ⟨more, rfl, hMore⟩ := h
  obtain ⟨more', rfl, hMore'⟩ := h'
  refine ⟨more ++ more', S.keep_keep more more', fun resume hResume => ?_⟩
  rcases List.mem_append.mp hResume with h | h
  · exact hMore resume h
  · exact hMore' resume h

theorem reportAll {parts : List (Answer ν ω)}
    (h : ∀ a ∈ parts, ∀ S : Session ν ω, Kept S (S.report a).2) (S : Session ν ω) :
    Kept S (S.reportAll parts).2 := by
  induction parts generalizing S with
  | nil =>
    rw [Session.reportAll_nil]
    exact .refl S
  | cons part parts ih =>
    rw [List.forall_mem_cons] at h
    rw [Session.reportAll_cons]
    exact (h.1 S).trans (ih h.2 _)

end Kept

theorem Answer.Forward.kept : {a : Answer ν ω} → a.Forward → ∀ S : Session ν ω,
    Kept S (S.report a).2
  | _, .final _, S => by
    rw [Session.report_final]
    exact .refl S
  | _, .escaped _, S => by
    rw [Session.report_escaped]
    exact .refl S
  | _, .branches hParts, S => by
    rw [Session.report_branches]
    exact .reportAll (fun a ha => (hParts a ha).kept) S
  | _, .layered _ ha, S => by
    rw [Session.report_layered]
    exact ha.kept S
  | _, .suspended _ hResume, S => by
    rw [Session.report_suspended]
    exact ⟨[_], rfl, List.forall_mem_singleton.mpr hResume⟩

namespace Session

protected def Forward (S : Session ν ω) : Prop := ∀ resume ∈ S.kept, ∀ v, (resume v).Forward

def after (S : Session ν ω) : List (Nat × ν) → Session ν ω
  | [] => S
  | (number, value) :: resumes =>
    match S.resume? number value with
    | none => S.after resumes
    | some (_, S) => S.after resumes

/-- The session has gone on: its ledger is a later one, and it keeps what it has kept. -/
structure Later (S S' : Session ν ω) : Prop where
  forward : S'.Forward
  ledger : S.ledger.Later S'.ledger
  kept : ∃ more, S'.kept = S.kept ++ more

variable {S S' S'' : Session ν ω}

theorem Later.trans (h : S.Later S') (h' : S'.Later S'') : S.Later S'' := by
  obtain ⟨more, hMore⟩ := h.kept
  obtain ⟨more', hMore'⟩ := h'.kept
  refine ⟨h'.forward, h.ledger.trans h'.ledger, more ++ more', ?_⟩
  rw [hMore', hMore, Array.append_assoc]

theorem Forward.run (h : S.Forward) {c : Course ν ω} (hc : c.Forward) : S.Later (S.run c).2 := by
  have hLater := hc.later S.ledger
  have hSignal := hc.signal S.ledger
  unfold Session.run
  generalize c S.ledger = result at hLater hSignal
  obtain ⟨signal, l'⟩ := result
  cases hSignal with
  | fault f => exact ⟨h, hLater, #[], by simp⟩
  | rewind target hRest => exact ⟨h, hLater, #[], by simp⟩
  | answer ha =>
    obtain ⟨more, hKept, hMore⟩ := ha.kept { S with ledger := l' }
    dsimp only
    rw [hKept]
    refine ⟨?_, hLater, more.toArray, rfl⟩
    intro resume hResume
    rcases Array.mem_append.mp hResume with hMem | hMem
    · exact h resume hMem
    · exact hMore resume (by simpa using hMem)

theorem ledger_run {c : Course ν ω} (hc : c.Forward) : (S.run c).2.ledger = (c S.ledger).2 := by
  have hSignal := hc.signal S.ledger
  unfold Session.run
  generalize c S.ledger = result at hSignal
  obtain ⟨signal, l'⟩ := result
  cases hSignal with
  | fault f => rfl
  | rewind target hRest => rfl
  | answer ha =>
    obtain ⟨more, hKept, -⟩ := ha.kept { S with ledger := l' }
    dsimp only
    rw [hKept]
    rfl

theorem Later.kept_eq (h : S.Later S') {n : Nat} {resume : ν → Course ν ω}
    (hKept : S.kept[n]? = some resume) : S'.kept[n]? = some resume := by
  obtain ⟨more, hMore⟩ := h.kept
  obtain ⟨hn, -⟩ := Array.getElem?_eq_some_iff.mp hKept
  rw [hMore, Array.getElem?_append_left hn, hKept]

theorem Forward.after (h : S.Forward) (resumes : List (Nat × ν)) : S.Later (S.after resumes) := by
  induction resumes generalizing S with
  | nil => exact ⟨h, .refl _, #[], by simp [Session.after]⟩
  | cons request resumes ih =>
    obtain ⟨number, value⟩ := request
    unfold Session.after Session.resume?
    cases hKept : S.kept[number]? with
    | none => exact ih h
    | some resume =>
      have hRun := h.run (h resume (Array.mem_of_getElem? hKept) value)
      exact hRun.trans (ih hRun.forward)

end Session

theorem OneShot.resume_eq {S : Session ν ω} {number n : Nat} {c : α → Course ν ω} {receive : ν → α}
    (hc : OneShot number c) (hContinued : S.ledger.isContinued number = true)
    (hKept : S.kept[n]? = some fun v => c (receive v)) (v : ν) :
    S.resume? n v = some (.error .resumedTwice, S) := by
  simp [Session.resume?, hKept, Session.run, hc.again (receive v) S.ledger hContinued]

theorem OneShot.resume_again {S : Session ν ω} (h : S.Forward) {number n : Nat}
    {c : α → Course ν ω} {receive : ν → α} (hc : OneShot number c)
    (hNumber : number < S.ledger.size) (hKept : S.kept[n]? = some fun v => c (receive v))
    (v v' : ν) (resumes : List (Nat × ν)) :
    (S.after ((n, v) :: resumes)).resume? n v' =
      some (.error .resumedTwice, S.after ((n, v) :: resumes)) := by
  have hRun := h.run (hc.forward (receive v))
  have hMarked : (S.run (c (receive v))).2.ledger.isContinued number = true := by
    rw [Session.ledger_run (hc.forward (receive v))]
    exact hc.isContinued (receive v) hNumber
  have hAfter : S.after ((n, v) :: resumes) = (S.run (c (receive v))).2.after resumes := by
    simp [Session.after, Session.resume?, hKept]
  rw [hAfter]
  have hLater := hRun.forward.after resumes
  exact hc.resume_eq (hLater.ledger.continued number hMarked) ((hRun.trans hLater).kept_eq hKept) v'

/-! ## The loop and its nesting -/

/-- For the first run and every resumption after it a loop and its nested rounds are the same to the
host, whatever comes after them, as long as the host calls no kept continuation of a round twice. In
any run a round is continued once: its step gets a continuation that faults on a second call before
it runs anything, also when the two calls come from the host. -/
theorem trampoline_refines_nesting :
    (∀ {α β : Type} {step : β → Cont ν ω (Turn β α)} {k : α → Course ν ω}, (∀ b, Linear (step b)) →
      (∀ a, (k a).Portable) → ∀ (rounds : Nat) (seed : β) (resumes : List (Nat × ν)),
        let looped : Course ν ω := Cont.loop rounds step seed k
        let nested : Course ν ω := unrolled (Computation.fault .exhausted) step rounds seed k
        looped.Once resumes → nested.Once resumes →
          looped.transcript resumes = nested.transcript resumes) ∧
    (∀ {α β : Type} {step : β → Cont ν ω (Turn β α)} {k : α → Course ν ω},
      (∀ b, (step b).Forward) → (∀ a, (k a).Forward) → ∀ (rounds : Nat) (seed : β) (l : Ledger),
        ∃ c, OneShot l.size c ∧ Cont.round step k (rounds + 1) seed l =
          ((step seed c l.start).1, (step seed c l.start).2.markReturned l.size)) ∧
    ∀ {α : Type} {S : Session ν ω} {number n : Nat} {c : α → Course ν ω} {receive : ν → α},
      S.Forward → OneShot number c → number < S.ledger.size →
      S.kept[n]? = some (fun v => c (receive v)) → ∀ (v v' : ν) (resumes : List (Nat × ν)),
        (S.after ((n, v) :: resumes)).resume? n v' =
          some (.error .resumedTwice, S.after ((n, v) :: resumes)) := by
  refine ⟨?_, ?_, fun hS hc hNumber hKept => hc.resume_again hS hNumber hKept⟩
  · intro α β step k hStep hk rounds seed resumes looped nested hLooped hNested
    choose step' hStep' using fun b => (hStep b).exists_mirrors
    have hk' (a : α) : Course.Mirrors .nothing .nothing (k a) (k a) := .of_portable (hk a)
    have hLoop := (Cont.Mirrors.loop hStep' rounds seed hk').transcript_eq hLooped
    have hNest := (Cont.Mirrors.unrolled hStep' rounds seed hk').transcript_eq hNested
    exact hLoop.trans hNest.symm
  · intro α β step k hStep hk rounds seed l
    exact ⟨_, Cont.oneShot_continuation hk (Cont.forward_round hStep hk rounds) rounds l.size, rfl⟩

/-- Each round of the outer loop runs an inner one that asks the host for a number, and the host
answers twice. After the loop comes another one, whose only round forks into two suspensions: the
host can go on with either, and is refused the other. A suspension of the first loop that it resumes
again, at once or after another, is refused, and so is the second branch of a round. -/
theorem trampoline_refines_nesting_asked :
    let ask (b : Nat) : Cont Nat Nat Nat :=
      Cont.loop 3 (fun c => if c = 0 then .suspend b fun v => .next (v + 1) else pure (.done c)) 0
    let step (b : Nat) : Cont Nat Nat (Turn Nat Nat) :=
      if b < 20 then ask b >>= fun v => pure (.next (b + v)) else pure (.done b)
    let final (a : Nat) : Course Nat Nat := fun l => (.answer (.final (a * 2)), l)
    let fork (a : Nat) : Cont Nat Nat Nat :=
      Cont.loop 2 (fun b => .branch [1, 2] >>= fun i => .suspend (b + i) fun v => .done (b + v)) a
    let looped : Course Nat Nat := Cont.loop 5 step 0 fun a => fork a final
    let nested : Course Nat Nat :=
      unrolled (Computation.fault .exhausted) step 5 0 fun a => fork a final
    let resumes : List (Nat × Nat) := [(0, 9), (1, 12), (3, 4), (2, 4)]
    let bare (b : Nat) : Cont Nat Nat (Turn Nat Nat) := .suspend b .next
    let asked : Session Nat Nat := (Session.fresh.run (Cont.loop 5 bare 0 final)).2
    let both (b : Nat) : Cont Nat Nat (Turn Nat Nat) := .branch [.next (b + 1), .done b]
    looped.transcript resumes = nested.transcript resumes ∧
      looped.transcript resumes =
        [some (.ok (.suspended 0 0)), some (.ok (.suspended 1 10)),
          some (.ok (.branches [.suspended 2 24, .suspended 3 25])), some (.ok (.final 54)),
          some (.error .resumedTwice)] ∧
      looped.transcript [(0, 9), (0, 9)] =
        [some (.ok (.suspended 0 0)), some (.ok (.suspended 1 10)), some (.error .resumedTwice)] ∧
      (asked.after [(0, 5), (1, 6)]).resume? 0 7 =
        some (.error .resumedTwice, asked.after [(0, 5), (1, 6)]) ∧
      Course.transcript (Cont.loop 5 both 0 final) [] = [some (.error .resumedTwice)] ∧
      ∃ c, OneShot 0 c ∧ Cont.round both final 5 0 .empty =
        ((both 0 c Ledger.empty.start).1, (both 0 c Ledger.empty.start).2.markReturned 0) := by
  intro ask step final fork looped nested resumes bare asked both
  obtain ⟨hSame, hRounds, hAgain⟩ := trampoline_refines_nesting (ν := Nat) (ω := Nat)
  have hAsk (b : Nat) : Linear (ask b) := by
    apply Linear.loop
    intro c
    split
    · exact .suspend b _
    · exact .pure _
  have hStep (b : Nat) : Linear (step b) := by
    change Linear (if b < 20 then _ else _)
    split
    · exact (hAsk b).bind fun v => .pure _
    · exact .pure _
  have hFork (a : Nat) : (fork a).Program :=
    .loop 2 a fun b => (Cont.Program.branch [1, 2]).bind fun i => .suspend (b + i) _
  have hFinal (a : Nat) : (fork a final : Course Nat Nat).Portable :=
    (Closing.run (hFork a) fun b => .final (b * 2)).portable
  have hForward (a : Nat) : (final a).Forward := Course.forward_signal (.answer (.final (a * 2)))
  have hBare (b : Nat) : (bare b).Forward := (Cont.Program.suspend b Turn.next).forward
  have hBoth (b : Nat) : (both b).Forward := (Cont.Program.branch _).forward
  have hAsked : asked.Forward :=
    (Session.Forward.run nofun (Cont.Forward.loop hBare 5 0 hForward)).forward
  have hRound := Cont.oneShot_continuation hForward (Cont.forward_round hBare hForward 4) 4 0
  have hKept : asked.kept[0]? = some fun v =>
      Cont.continuation (Cont.round bare final 4) final 4 0 (.next v) := rfl
  have hNodup : (resumes.map Prod.fst).Nodup := by decide
  refine ⟨?_, by cbv, by cbv, ?_, by cbv, ?_⟩
  · exact hSame hStep hFinal 5 0 resumes (looped.once_of_nodup hNodup) (nested.once_of_nodup hNodup)
  · exact hAgain hAsked hRound Nat.zero_lt_one hKept 5 7 [(1, 6)]
  · exact hRounds hBoth hForward 4 0 .empty

end Descent
