import Descent.Proofs.Computation.Trampoline

/-! # Sessions with a host

A host runs a course once and then resumes its suspensions, in any order. What it gets to see, over
the whole session, is the same for a loop and for its nested rounds, as long as it does not call a
kept continuation of a round twice; resuming no suspension twice is enough for this. -/

namespace Descent

open Ledger

variable {ν ω : Type}

namespace Session

/-- What the host sees of the resumptions it asks for; there may be no such suspension. -/
def transcript (session : Session ν ω) :
    List (Nat × ν) → List (Option (Except Fault (Report ν ω)))
  | [] => []
  | (number, value) :: resumes =>
    match session.resume? number value with
    | none => none :: session.transcript resumes
    | some (outcome, session) => some outcome :: session.transcript resumes

theorem length_transcript (session : Session ν ω) (resumes : List (Nat × ν)) :
    (session.transcript resumes).length = resumes.length := by
  induction resumes generalizing session with
  | nil => rfl
  | cons request resumes ih =>
    unfold transcript
    cases session.resume? request.1 request.2 with
    | none => exact congrArg (· + 1) (ih session)
    | some result => exact congrArg (· + 1) (ih result.2)

def keep (session : Session ν ω) (more : List (ν → Course ν ω)) : Session ν ω :=
  { session with kept := session.kept ++ more.toArray }

theorem keep_nil (session : Session ν ω) : session.keep [] = session := by
  simp [keep]

theorem keep_keep (session : Session ν ω) (more more' : List (ν → Course ν ω)) :
    (session.keep more).keep more' = session.keep (more ++ more') := by
  simp [keep]

@[simp] theorem report_final (session : Session ν ω) (result : ω) :
    session.report (.final result) = (.final result, session) := by
  rw [report]

@[simp] theorem report_escaped (session : Session ν ω) (value : ν) :
    session.report (.escaped value) = (.escaped value, session) := by
  rw [report]

@[simp] theorem report_branches (session : Session ν ω) (parts : List (Answer ν ω)) :
    session.report (.branches parts) =
      (.branches (session.reportAll parts).1, (session.reportAll parts).2) := by
  rw [report]

@[simp] theorem report_layered (session : Session ν ω) (consumed : Bool) (inner : Answer ν ω) :
    session.report (.layered consumed inner) =
      (.layered consumed (session.report inner).1, (session.report inner).2) := by
  rw [report]

@[simp] theorem report_suspended (session : Session ν ω) (tag : ν) (resume : ν → Course ν ω) :
    session.report (.suspended tag resume) =
      (.suspended session.kept.size tag, session.keep [resume]) := by
  rw [report]
  simp [keep]

@[simp] theorem reportAll_nil (session : Session ν ω) : session.reportAll [] = ([], session) := by
  rw [reportAll]

@[simp] theorem reportAll_cons (session : Session ν ω) (part : Answer ν ω)
    (parts : List (Answer ν ω)) :
    session.reportAll (part :: parts) =
      ((session.report part).1 :: ((session.report part).2.reportAll parts).1,
        ((session.report part).2.reportAll parts).2) := by
  rw [reportAll]

end Session

/-- What the host sees of a whole session: of the first run, and of the resumptions after it. -/
def Course.transcript (c : Course ν ω) (resumes : List (Nat × ν)) :
    List (Option (Except Fault (Report ν ω))) :=
  match Session.fresh.run c with
  | (outcome, session) => some outcome :: session.transcript resumes

/-- The host calls no kept continuation of a round twice: up to some point it resumes no suspension
twice, and from there on, whatever it resumes, no round is found to be continued twice. -/
def Course.Once (c : Course ν ω) (resumes : List (Nat × ν)) : Prop :=
  ∃ first later, resumes = first ++ later ∧ (first.map Prod.fst).Nodup ∧
    some (.error .resumedTwice) ∉ (c.transcript resumes).drop (first.length + 1)

theorem Course.once_of_nodup (c : Course ν ω) {resumes : List (Nat × ν)}
    (h : (resumes.map Prod.fst).Nodup) : c.Once resumes := by
  refine ⟨resumes, [], (List.append_nil _).symm, h, ?_⟩
  have hLength : (c.transcript resumes).length = resumes.length + 1 :=
    congrArg (· + 1) (Session.length_transcript _ resumes)
  rw [List.drop_eq_nil_of_le hLength.le]
  exact List.not_mem_nil

/-! ## Reports -/

/-- Numbered from the same number on, both are reported alike, and what the sessions keep of them is
alike. -/
def Reported (ρ : Numbering) {γ : Type} (report report' : Session ν ω → γ × Session ν ω) : Prop :=
  ∃ kept : List ((ν → Course ν ω) × (ν → Course ν ω)),
    (∀ p ∈ kept, ∀ v, Course.Alike ρ (p.1 v) (p.2 v)) ∧
    ∀ S R : Session ν ω, S.kept.size = R.kept.size → ∃ r,
      report S = (r, S.keep (kept.map Prod.fst)) ∧ report' R = (r, R.keep (kept.map Prod.snd))

namespace Reported

variable {ρ : Numbering} {γ δ ζ : Type} {report report' : Session ν ω → γ × Session ν ω}

theorem pure (r : γ) : Reported ρ (fun S : Session ν ω => (r, S)) fun S => (r, S) :=
  ⟨[], nofun, fun S R _ => ⟨r, by simp [Session.keep_nil], by simp [Session.keep_nil]⟩⟩

theorem map (h : Reported ρ report report') (f : γ → δ) :
    Reported ρ (fun S => (f (report S).1, (report S).2))
      fun S => (f (report' S).1, (report' S).2) := by
  obtain ⟨kept, hKept, hReport⟩ := h
  refine ⟨kept, hKept, fun S R hSize => ?_⟩
  obtain ⟨r, hS, hR⟩ := hReport S R hSize
  refine ⟨f r, ?_, ?_⟩
  · dsimp only
    rw [hS]
  · dsimp only
    rw [hR]

theorem pair {next next' : Session ν ω → δ × Session ν ω} (h : Reported ρ report report')
    (hNext : Reported ρ next next') (f : γ → δ → ζ) :
    Reported ρ (fun S => (f (report S).1 (next (report S).2).1, (next (report S).2).2))
      fun S => (f (report' S).1 (next' (report' S).2).1, (next' (report' S).2).2) := by
  obtain ⟨kept, hKept, hReport⟩ := h
  obtain ⟨kept', hKept', hReport'⟩ := hNext
  refine ⟨kept ++ kept', ?_, fun S R hSize => ?_⟩
  · intro p hp
    rcases List.mem_append.mp hp with hp | hp
    · exact hKept p hp
    · exact hKept' p hp
  · obtain ⟨r, hS, hR⟩ := hReport S R hSize
    obtain ⟨r', hS', hR'⟩ := hReport' (S.keep (kept.map Prod.fst)) (R.keep (kept.map Prod.snd))
      (by simp [Session.keep, hSize])
    refine ⟨f r r', ?_, ?_⟩
    · dsimp only
      rw [hS, hS', Session.keep_keep, List.map_append]
    · dsimp only
      rw [hR, hR', Session.keep_keep, List.map_append]

theorem reportAll {parts parts' : List (Answer ν ω)} (hLength : parts.length = parts'.length)
    (hParts : ∀ a a', (a, a') ∈ parts.zip parts' →
      Reported ρ (fun S : Session ν ω => S.report a) fun S => S.report a') :
    Reported ρ (fun S : Session ν ω => S.reportAll parts) fun S => S.reportAll parts' := by
  induction parts generalizing parts' with
  | nil =>
    obtain rfl := List.eq_nil_of_length_eq_zero hLength.symm
    simp only [Session.reportAll_nil]
    exact .pure _
  | cons part parts ih =>
    cases parts' with
    | nil => cases hLength
    | cons part' parts' =>
      simp only [Session.reportAll_cons]
      refine (hParts part part' List.mem_cons_self).pair (ih (Nat.succ.inj hLength) ?_) List.cons
      exact fun a a' hMem => hParts a a' (List.mem_cons_of_mem _ hMem)

end Reported

theorem Answer.Alike.reported : {ρ : Numbering} → {a a' : Answer ν ω} → Answer.Alike ρ a a' →
    Reported ρ (fun S => S.report a) fun S => S.report a'
  | _, _, _, .final result => by
    simp only [Session.report_final]
    exact .pure _
  | _, _, _, .escaped value => by
    simp only [Session.report_escaped]
    exact .pure _
  | _, _, _, .branches hLength hParts => by
    simp only [Session.report_branches]
    exact (Reported.reportAll hLength fun a a' hMem => (hParts a a' hMem).reported).map
      Report.branches
  | _, _, _, .layered consumed ha => by
    simp only [Session.report_layered]
    exact ha.reported.map (Report.layered consumed)
  | _, _, _, .suspended tag hResume => by
    simp only [Session.report_suspended]
    refine ⟨[(_, _)], List.forall_mem_singleton.mpr hResume, fun S R hSize => ?_⟩
    exact ⟨.suspended S.kept.size tag, rfl, by rw [hSize]; rfl⟩

/-! ## Runs -/

/-- A kept continuation with the rounds that it holds, and the one that it mirrors. -/
structure Suspension (ν ω : Type) where
  held : Numbering
  actual : ν → Course ν ω
  reference : ν → Course ν ω

namespace Suspension

def Apart (e e' : Suspension ν ω) : Prop := e.held.Apart e'.held

/-- A suspension that can be resumed from the ledger, where it knows some paired rounds. -/
structure Sound (ρ : Numbering) (l : Ledger) (e : Suspension ν ω) : Prop where
  mirrors : ∀ v, Course.Mirrors ρ e.held (e.actual v) (e.reference v)
  within : e.held.Within l
  unpaired : e.held.Apart ρ
  idle : ∀ i rounds, e.held i = some rounds → l.isRunning i = false

/-- What a course that holds `w` adds to a session on the way from one ledger to another. -/
structure Added (w : Numbering) (l l₁ : Ledger) (more : List (Suspension ν ω)) : Prop where
  held : ∀ e ∈ more, e.held.From w l
  opened : w.OpenIn l → ∀ e ∈ more, e.held.OpenIn l₁
  apart : more.Pairwise Suspension.Apart

/-- Suspensions that hold no rounds. -/
theorem Added.of_nothing {w : Numbering} {l l₁ : Ledger} {more : List (Suspension ν ω)}
    (h : ∀ e ∈ more, e.held = .nothing) : Added w l l₁ more where
  held e he := by
    rw [h e he]
    exact fun _ _ => nofun
  opened _ e he := by
    rw [h e he]
    exact fun _ _ => nofun
  apart := by
    refine List.pairwise_of_forall_mem_list fun e he e' _ => ?_
    unfold Suspension.Apart
    rw [h e he]
    exact fun _ => .inl rfl

theorem Sound.later {ρ ρ' w : Numbering} {l l₁ : Ledger} {e : Suspension ν ω} (h : e.Sound ρ l)
    (hLe : ρ.Le ρ') (hFrom : ρ'.From ρ l) (hEvolves : l.Evolves ρ w l₁) : e.Sound ρ' l₁ where
  mirrors v := (h.mirrors v).mono hLe
  within := h.within.mono hEvolves.size_le
  unpaired := h.unpaired.of_from h.within hFrom
  idle i left hi := by
    rw [hEvolves.running i (h.within i left hi) (h.unpaired.eq_none hi), h.idle i left hi]

end Suspension

/-- The session and one in which the loops are nested: the rounds that both have started are paired,
and they keep suspensions that mirror each other. -/
structure Session.Mirrors (ρ : Numbering) (S R : Session ν ω) (es : List (Suspension ν ω)) :
    Prop where
  actual : S.kept = (es.map Suspension.actual).toArray
  reference : R.kept = (es.map Suspension.reference).toArray
  agree : S.ledger.Agree ρ R.ledger
  sound : ∀ e ∈ es, e.Sound ρ S.ledger

theorem Session.Mirrors.run {ρ : Numbering} {S R : Session ν ω} {es : List (Suspension ν ω)}
    {w : Numbering} {c c' : Course ν ω} (h : S.Mirrors ρ R es) (hc : Course.Mirrors ρ w c c')
    (hWithin : w.Within S.ledger) (hApart : w.Apart ρ)
    (hIdle : ∀ i rounds, w i = some rounds → S.ledger.isRunning i = false)
    (hOnce : w.OpenIn S.ledger ∨ (S.run c).1 ≠ .error .resumedTwice) :
    (S.run c).1 = (R.run c').1 ∧ ∃ ρ' more, (S.run c).2.Mirrors ρ' (R.run c').2 (es ++ more) ∧
      S.ledger.Evolves ρ w (S.run c).2.ledger ∧
      Suspension.Added w S.ledger (S.run c).2.ledger more := by
  have hRun := hc.run h.agree hWithin hApart
  unfold Session.run at hOnce ⊢
  generalize c S.ledger = result at hRun hOnce ⊢
  generalize c' R.ledger = result' at hRun ⊢
  cases hRun with
  | twice hHeld hContinued =>
    rcases hOnce with hOpen | hNot
    · rw [hOpen _ _ hHeld] at hContinued
      cases hContinued
    · exact absurd rfl hNot
  | rewind hTarget hRunning _ _ _ _ _ _ =>
    rw [hIdle _ _ hTarget] at hRunning
    cases hRunning
  | @suspended _ _ v _ _ l₁ resume resume' tag hEvolves hFrom hIn hOpen hIdle' hResume =>
    have hEvolves' : S.ledger.Evolves ρ w l₁ := hEvolves.mono (Numbering.nothing_le ρ) (.refl w)
    have hUnpaired : v.Apart ρ := (hApart.symm.of_from h.agree.within hFrom).symm
    have hNowIdle (i left : Nat) (hi : v i = some left) : l₁.isRunning i = false := by
      rcases hIdle' i left hi with hHeld | hReturned
      · rw [hEvolves.running i (hWithin i left hHeld) rfl, hIdle i left hHeld]
      · exact hReturned
    have hSize : S.kept.size = R.kept.size := by simp [h.actual, h.reference]
    refine ⟨?_, ρ, [⟨v, resume, resume'⟩], ⟨?_, ?_, ?_, ?_⟩, hEvolves', ⟨?_, ?_, ?_⟩⟩
    · simp [hSize]
    · simp [Session.keep, h.actual]
    · simp [Session.keep, h.reference]
    · exact h.agree.evolves hEvolves hApart
    · rw [List.forall_mem_append]
      refine ⟨fun e he => (h.sound e he).later (.refl ρ) (.refl ρ _) hEvolves', ?_⟩
      rw [List.forall_mem_singleton]
      exact ⟨hResume, hIn, hUnpaired, hNowIdle⟩
    · rw [List.forall_mem_singleton]
      exact hFrom
    · intro hw
      rw [List.forall_mem_singleton]
      exact hOpen hw
    · exact List.pairwise_singleton _ _
  | lockstep h' =>
    cases h' with
    | @intro _ ρ' _ _ l₁ l₁' _ _ hLe hFrom hEvolves hAgree hSignal =>
      have hOld (e) (he : e ∈ es) : e.Sound ρ' l₁ := (h.sound e he).later hLe hFrom hEvolves
      have hNoMore : Session.Mirrors ρ' { S with ledger := l₁ } { R with ledger := l₁' }
          (es ++ []) := by
        rw [List.append_nil]
        exact ⟨h.actual, h.reference, hAgree, hOld⟩
      cases hSignal with
      | fault f => exact ⟨rfl, ρ', [], hNoMore, hEvolves, .of_nothing nofun⟩
      | rewind hTarget hRest => exact ⟨rfl, ρ', [], hNoMore, hEvolves, .of_nothing nofun⟩
      | answer ha =>
        obtain ⟨kept, hKept, hReport⟩ := ha.reported
        obtain ⟨r, hS, hR⟩ := hReport { S with ledger := l₁ } { R with ledger := l₁' }
          (by simp [h.actual, h.reference])
        dsimp only at hS hR ⊢
        rw [hS, hR]
        let more : List (Suspension ν ω) := kept.map fun p => ⟨.nothing, p.1, p.2⟩
        refine ⟨rfl, ρ', more, ⟨?_, ?_, hAgree, ?_⟩, hEvolves, .of_nothing ?_⟩
        · simp [Session.keep, h.actual, more, Function.comp_def]
        · simp [Session.keep, h.reference, more, Function.comp_def]
        · rw [List.forall_mem_append]
          refine ⟨hOld, ?_⟩
          rw [List.forall_mem_map]
          exact fun p hp => ⟨fun v => .of_alike (hKept p hp v), nofun, fun _ => .inl rfl, nofun⟩
        · rw [List.forall_mem_map]
          exact fun p _ => rfl

/-- The suspensions that were not resumed yet hold rounds of their own, none of them continued. -/
structure Session.Unspent (S : Session ν ω) (es : List (Suspension ν ω)) (used : List Nat) :
    Prop where
  opened : ∀ n e, es[n]? = some e → n ∉ used → e.held.OpenIn S.ledger
  apart : ∀ n n' e e', es[n]? = some e → es[n']? = some e' → n ∉ used → n' ∉ used → n < n' →
    e.Apart e'

theorem Session.Unspent.added {ρ : Numbering} {S S' : Session ν ω} {es more : List (Suspension ν ω)}
    {used used' : List Nat} {w : Numbering} (h : S.Unspent es used) (hUsed : used ⊆ used')
    (hSound : ∀ e ∈ es, e.Sound ρ S.ledger) (hOpen : w.OpenIn S.ledger)
    (hApart : ∀ n e, es[n]? = some e → n ∉ used' → e.held.Apart w)
    (hEvolves : S.ledger.Evolves ρ w S'.ledger)
    (hAdded : Suspension.Added w S.ledger S'.ledger more) : S'.Unspent (es ++ more) used' := by
  have hOld {n : Nat} {e : Suspension ν ω} (hn : n < es.length) (he : (es ++ more)[n]? = some e) :
      es[n]? = some e := by rwa [List.getElem?_append_left hn] at he
  have hNew {n : Nat} {e : Suspension ν ω} (hn : es.length ≤ n) (he : (es ++ more)[n]? = some e) :
      more[n - es.length]? = some e := by rwa [List.getElem?_append_right hn] at he
  constructor
  · intro n e he hn i left hi
    rcases lt_or_ge n es.length with hLt | hGe
    · -- What was kept before lies apart from the course, which continues no rounds but its own.
      have he := hOld hLt he
      have hKept := hSound e (List.mem_of_getElem? he)
      rw [hEvolves.continued i (hKept.within i left hi) (hKept.unpaired.eq_none hi)
        ((hApart n e he hn).eq_none hi)]
      exact h.opened n e he (fun hMem => hn (hUsed hMem)) i left hi
    · exact hAdded.opened hOpen e (List.mem_of_getElem? (hNew hGe he)) i left hi
  · intro n n' e e' he he' hn hn' hLt
    rcases lt_or_ge n' es.length with hLt' | hGe'
    · exact h.apart n n' e e' (hOld (hLt.trans hLt') he) (hOld hLt' he')
        (fun hMem => hn (hUsed hMem)) (fun hMem => hn' (hUsed hMem)) hLt
    have he' := hNew hGe' he'
    rcases lt_or_ge n es.length with hLt | hGe
    · -- What is new holds rounds of the course, or rounds that were started since.
      have he := hOld hLt he
      have hWithin := (hSound e (List.mem_of_getElem? he)).within
      exact (hApart n e he hn).of_from hWithin (hAdded.held e' (List.mem_of_getElem? he'))
    · obtain ⟨hn, rfl⟩ := List.getElem?_eq_some_iff.mp (hNew hGe he)
      obtain ⟨hn', rfl⟩ := List.getElem?_eq_some_iff.mp he'
      exact List.pairwise_iff_getElem.mp hAdded.apart _ _ hn hn' (by omega)

theorem Session.Unspent.resumed {ρ : Numbering} {S S' : Session ν ω}
    {es more : List (Suspension ν ω)} {used : List Nat} {number : Nat} {e : Suspension ν ω}
    (h : S.Unspent es used)
    (hSound : ∀ e ∈ es, e.Sound ρ S.ledger) (he : es[number]? = some e) (hNew : number ∉ used)
    (hEvolves : S.ledger.Evolves ρ e.held S'.ledger)
    (hAdded : Suspension.Added e.held S.ledger S'.ledger more) :
    S'.Unspent (es ++ more) (number :: used) := by
  refine h.added (List.subset_cons_self number used) hSound (h.opened number e he hNew) ?_ hEvolves
    hAdded
  intro n e' he' hn
  rw [List.mem_cons, not_or] at hn
  rcases lt_or_gt_of_ne hn.1 with hLt | hGt
  · exact h.apart n number e' e he' he hn.2 hNew hLt
  · exact (h.apart number n e e' he he' hNew hn.2 hGt).symm

section Resumption

variable {ρ : Numbering} {S R : Session ν ω} {es : List (Suspension ν ω)}

theorem Session.Mirrors.resume? (h : S.Mirrors ρ R es) (number : Nat) (value : ν) :
    S.resume? number value = (es[number]?).map (fun e => S.run (e.actual value)) ∧
      R.resume? number value = (es[number]?).map fun e => R.run (e.reference value) := by
  simp [Session.resume?, h.actual, h.reference, Function.comp_def]

theorem Session.Mirrors.transcript_eq_of_not_mem {resumes : List (Nat × ν)}
    (h : S.Mirrors ρ R es) (hNot : some (.error .resumedTwice) ∉ S.transcript resumes) :
    S.transcript resumes = R.transcript resumes := by
  induction resumes generalizing ρ S R es with
  | nil => rfl
  | cons request resumes ih =>
    obtain ⟨number, value⟩ := request
    unfold Session.transcript at hNot ⊢
    rw [(h.resume? number value).1] at hNot ⊢
    rw [(h.resume? number value).2]
    cases he : es[number]? with
    | none =>
      rw [he] at hNot
      exact congrArg (none :: ·) (ih h fun hMem => hNot (List.mem_cons_of_mem _ hMem))
    | some e =>
      rw [he] at hNot
      have hSound := h.sound e (List.mem_of_getElem? he)
      obtain ⟨hSame, ρ', more, hNext, -, -⟩ := h.run (hSound.mirrors value) hSound.within
        hSound.unpaired hSound.idle (.inr fun hTwice => hNot (hTwice ▸ List.mem_cons_self))
      exact congrArg₂ (some · :: ·) hSame (ih hNext fun hMem => hNot (List.mem_cons_of_mem _ hMem))

theorem Session.Mirrors.transcript_eq {used : List Nat} {first later : List (Nat × ν)}
    (h : S.Mirrors ρ R es) (hUnspent : S.Unspent es used) (hNodup : (first.map Prod.fst).Nodup)
    (hUnused : ∀ n ∈ first.map Prod.fst, n ∉ used)
    (hNot : some (.error .resumedTwice) ∉ (S.transcript (first ++ later)).drop first.length) :
    S.transcript (first ++ later) = R.transcript (first ++ later) := by
  induction first generalizing ρ S R es used with
  | nil => exact h.transcript_eq_of_not_mem hNot
  | cons request first ih =>
    obtain ⟨number, value⟩ := request
    rw [List.map_cons, List.nodup_cons] at hNodup
    rw [List.map_cons, List.forall_mem_cons] at hUnused
    rw [List.cons_append] at hNot ⊢
    unfold Session.transcript at hNot ⊢
    rw [(h.resume? number value).1] at hNot ⊢
    rw [(h.resume? number value).2]
    cases he : es[number]? with
    | none =>
      rw [he] at hNot
      exact congrArg (none :: ·) (ih h hUnspent hNodup.2 hUnused.2 hNot)
    | some e =>
      rw [he] at hNot
      have hSound := h.sound e (List.mem_of_getElem? he)
      obtain ⟨hSame, ρ', more, hNext, hEvolves, hAdded⟩ :=
        h.run (hSound.mirrors value) hSound.within hSound.unpaired hSound.idle
          (.inl (hUnspent.opened number e he hUnused.1))
      have hUnspent' := hUnspent.resumed h.sound he hUnused.1 hEvolves hAdded
      refine congrArg₂ (some · :: ·) hSame (ih hNext hUnspent' hNodup.2 ?_ hNot)
      intro n hn hMem
      rcases List.mem_cons.mp hMem with rfl | hMem
      · exact hNodup.1 hn
      · exact hUnused.2 n hn hMem

end Resumption

theorem Course.Mirrors.transcript_eq {c c' : Course ν ω} {resumes : List (Nat × ν)}
    (h : Course.Mirrors .nothing .nothing c c') (hOnce : c.Once resumes) :
    c.transcript resumes = c'.transcript resumes := by
  have hFresh : Session.Mirrors .nothing (Session.fresh : Session ν ω) .fresh [] :=
    ⟨rfl, rfl, ⟨nofun, nofun, nofun, nofun, nofun⟩, nofun⟩
  have hOpen : Numbering.nothing.OpenIn (Session.fresh : Session ν ω).ledger := nofun
  obtain ⟨hSame, ρ, more, hNext, hEvolves, hAdded⟩ :=
    hFresh.run h nofun (fun _ => .inl rfl) nofun (.inl hOpen)
  have hUnspent : (Session.fresh : Session ν ω).Unspent [] [] := ⟨nofun, nofun⟩
  have hUnspent' := hUnspent.added (List.nil_subset []) nofun hOpen nofun hEvolves hAdded
  obtain ⟨first, later, rfl, hNodup, hNot⟩ := hOnce
  unfold Course.transcript at hNot ⊢
  exact congrArg₂ (some · :: ·) hSame
    (hNext.transcript_eq hUnspent' hNodup (fun _ _ => List.not_mem_nil) hNot)

end Descent
