import Descent.Proofs.Parser.HintPosition
import Descent.Proofs.Parser.Observation

/-! # Traces are well bracketed

A traced parser records its start in its outer layer and its end in its inner one, so the events of
one layer alone are not balanced. Those of both layers are: every combinator runs the inner layer of
a parser once and right after its outer one. Each end is matched with its start, and what it says of
the outcome agrees with where the two stand. -/

namespace Descent

/-- The start and the end of a traced parser, put together. -/
structure Span where
  name : Bytes
  start : Position
  stop : Position
  ok : Bool
  consumed : Bool
  deriving DecidableEq

namespace Span

def enter (x : Span) : Event := .enter x.name x.start

def exit (x : Span) : Event := .exit x.name x.stop x.ok x.consumed

/-- A success has consumed input exactly when it stands further on, and has not exactly when it
stands where it started; a failure does not stand before its start. -/
def Truthful (x : Span) : Prop :=
  if x.ok then
    (x.consumed = true ↔ x.start.offset < x.stop.offset) ∧ (x.consumed = false ↔ x.stop = x.start)
  else x.start.offset ≤ x.stop.offset

instance (x : Span) : Decidable x.Truthful :=
  inferInstanceAs (Decidable (if x.ok then _ ∧ _ else _))

end Span

/-- Matches every end with the last start before it that is still open, which must have its name.
The open starts are given with the last one first, and none may stay open. -/
def Event.spans (opened : List (Bytes × Position)) : List Event → Option (List Span)
  | [] => if opened = [] then some [] else none
  | .enter name pos :: rest => spans ((name, pos) :: opened) rest
  | .exit name pos ok consumed :: rest =>
    match opened with
    | [] => none
    | (name', start) :: opened =>
      if name' = name then (⟨name, start, pos, ok, consumed⟩ :: ·) <$> spans opened rest else none

/-- Events that stand in truthful spans, one after another and inside one another. -/
inductive Bracketed : List Event → Prop where
  | nil : Bracketed []
  | append {events events' : List Event} :
      Bracketed events → Bracketed events' → Bracketed (events ++ events')
  | span {x : Span} {inside : List Event} :
      x.Truthful → Bracketed inside → Bracketed (x.enter :: (inside ++ [x.exit]))

/-- Bracketed events leave the open starts alone, whatever comes after them. -/
theorem Bracketed.spans_append {events : List Event} (h : Bracketed events) :
    ∃ found : List Span, (∀ x ∈ found, x.Truthful) ∧ ∀ opened rest,
      Event.spans opened (events ++ rest) = (found ++ ·) <$> Event.spans opened rest := by
  induction h with
  | nil =>
    refine ⟨[], by simp, fun opened rest => ?_⟩
    simp
  | append _ _ ih ih' =>
    obtain ⟨found, hFound, hSpans⟩ := ih
    obtain ⟨found', hFound', hSpans'⟩ := ih'
    refine ⟨found ++ found', List.forall_mem_append.mpr ⟨hFound, hFound'⟩, fun opened rest => ?_⟩
    rw [List.append_assoc, hSpans, hSpans']
    simp [Function.comp_def]
  | @span x inside hTruthful _ ih =>
    obtain ⟨found, hFound, hSpans⟩ := ih
    refine ⟨found ++ [x], ?_, fun opened rest => ?_⟩
    · rw [List.forall_mem_append, List.forall_mem_singleton]
      exact ⟨hFound, hTruthful⟩
    · have hInside := hSpans ((x.name, x.start) :: opened) (x.exit :: rest)
      have hClosed : Event.spans ((x.name, x.start) :: opened) (x.exit :: rest) =
          (x :: ·) <$> Event.spans opened rest := if_pos rfl
      rw [List.cons_append, List.append_assoc, Span.enter, Event.spans, List.singleton_append,
        hInside, hClosed]
      simp [Function.comp_def]

theorem Bracketed.spans_eq_some {events : List Event} (h : Bracketed events) :
    ∃ found, Event.spans [] events = some found ∧ ∀ x ∈ found, x.Truthful := by
  obtain ⟨found, hFound, hSpans⟩ := h.spans_append
  refine ⟨found, ?_, hFound⟩
  have hAll := hSpans [] []
  rw [List.append_nil] at hAll
  simpa [Event.spans] using hAll

namespace Writer

variable {α β : Type}

/-- What the computation delivers stands behind bracketed events. -/
def Brackets (x : Writer α) : Prop := ∀ a events, x = .ok (a, events) → Bracketed events

theorem brackets_pure (a : α) : Brackets (pure a) := by
  rintro a' events ⟨⟩
  exact .nil

theorem brackets_fault (f : Fault) : Brackets (Computation.fault f : Writer α) := nofun

theorem Brackets.bind {x : Writer α} {f : α → Writer β} (hx : x.Brackets)
    (hf : ∀ a, (f a).Brackets) : (x >>= f).Brackets := by
  intro b events hEvents
  rcases x with fault | ⟨a, before⟩
  · cases hEvents
  change Writer.after before (f a) = _ at hEvents
  cases hAfter : f a with
  | error fault =>
    rw [hAfter] at hEvents
    cases hEvents
  | ok result =>
    rw [hAfter] at hEvents
    cases hEvents
    exact (hx a before rfl).append (hf a _ _ hAfter)

theorem Brackets.map {x : Writer α} (hx : x.Brackets) (f : α → β) : (f <$> x).Brackets := by
  rw [map_eq_pure_bind]
  exact hx.bind fun a => brackets_pure (f a)

theorem brackets_unrolled {step : β → Writer (Turn β α)} (hStep : ∀ b, (step b).Brackets)
    (rounds : Nat) (seed : β) :
    Brackets (unrolled (Computation.fault .exhausted) step rounds seed) := by
  induction rounds generalizing seed with
  | zero => exact brackets_fault .exhausted
  | succ rounds ih =>
    apply (hStep seed).bind
    rintro (seed' | result)
    · exact ih seed'
    · exact brackets_pure result

end Writer

theorem Trace.exists_of_toWriter {α : Type} {x : Trace α} {a : α} {events : List Event}
    (h : x.toWriter = .ok (a, events)) : ∃ log, x = .ok (a, log) ∧ log.toList = events := by
  rcases x with f | ⟨a', log⟩ <;> cases h
  exact ⟨log, rfl, rfl⟩

variable {σ τ υ : Type}

namespace Parser

variable {α β : Type}

/-- Both layers together record bracketed events. -/
def Brackets (p : Parser Trace σ υ α) : Prop := ∀ s, (p.view Transfer.events s).Brackets

namespace Brackets

variable {p q : Parser Trace σ υ α}

theorem reply (consumed : Bool) (f : State σ υ → Reply σ υ α) :
    Brackets fun s => Parser.reply consumed (f s) := by
  intro s
  rw [view_reply]
  exact Writer.brackets_pure _

theorem map (hp : Brackets p) (f : α → β) : Brackets (p.map f) := by
  intro s
  rw [view_map]
  exact (hp s).map _

theorem bind (hp : Brackets p) {f : α → Parser Trace σ υ β} (hf : ∀ a, Brackets (f a)) :
    Brackets (p.bind f) := by
  intro s
  rw [view_bind]
  apply (hp s).bind
  rintro ⟨consumed, ⟨a, s', h⟩ | h⟩
  · exact (hf a s').map _
  · exact Writer.brackets_pure _

theorem orElse (hp : Brackets p) (hq : Brackets q) : Brackets (p.orElse q) := by
  intro s
  rw [view_orElse]
  apply (hp s).bind
  intro t
  cases t.refused? with
  | some h => exact (hq s).map _
  | none => exact Writer.brackets_pure t

theorem attempt (hp : Brackets p) : Brackets p.attempt := by
  intro s
  rw [view_attempt]
  exact (hp s).map _

theorem label (hp : Brackets p) (name : Bytes) : Brackets (p.label name) := by
  intro s
  rw [view_label]
  exact (hp s).map _

variable [Source σ τ]

theorem lookAhead (hp : Brackets p) : Brackets p.lookAhead := by
  intro s
  rw [view_lookAhead]
  exact (hp s).map _

theorem turned (outcome : Except Fault (Turn α β)) :
    Writer.Brackets (Parser.turned outcome) := by
  cases outcome with
  | error f => exact Writer.brackets_fault f
  | ok turn => exact Writer.brackets_pure turn

theorem gather {p : Parser Trace σ υ (Yield α)} (hp : Brackets p) (rounds : Nat)
    (rule : Repetition) : Brackets (gather rounds rule p) := by
  have hRound : ∀ g, (roundView rule (p.view Transfer.events) g).Brackets :=
    fun g => (hp g.state).bind fun t => turned _
  have hRounds : ∀ left g,
      (gatherView rounds rule (p.view Transfer.events) left g).Brackets := by
    intro left
    induction left with
    | zero => exact fun g => Writer.brackets_fault .exhausted
    | succ left ih =>
      intro g
      apply (hp g.state).bind
      rintro ⟨consumed, r⟩
      apply (turned _).bind
      rintro (g' | final)
      · cases consumed with
        | true => exact (Writer.brackets_unrolled hRound rounds g').map _
        | false => exact ih g'
      · exact Writer.brackets_pure _
  intro s
  rw [view_gather]
  exact hRounds rounds (.start s)

theorem exitEvent_truthful [Source.Advancing σ] {s : State σ υ} {t : Tagged (Reply σ υ α)}
    (hAllowed : Contract.hint.Allows s t.consumed t.value) (name : Bytes) :
    ∃ x : Span, x.Truthful ∧ x.enter = .enter name s.pos ∧
      x.exit = exitEvent name t.consumed t.value := by
  obtain ⟨consumed, ⟨a, s', h⟩ | h⟩ := t
  · refine ⟨⟨name, s.pos, s'.pos, true, consumed⟩, ?_, rfl, rfl⟩
    obtain ⟨hMoved, _⟩ := hAllowed
    change (consumed = true ↔ s.pos.offset < s'.pos.offset) ∧ (consumed = false ↔ s'.pos = s.pos)
    cases consumed with
    | false =>
      have hPos : s'.pos = s.pos := congrArg Source.pos (moved_false.mp hMoved)
      simp [hPos]
    | true =>
      obtain ⟨passed, hPassed, hPasses⟩ := moved_true.mp hMoved
      have hLength : 0 < passed.length := List.length_pos_iff.mpr hPassed
      have hOffset : s.pos.offset + passed.length ≤ s'.pos.offset := hPasses.offset_add_length_le
      have hFurther : s.pos.offset < s'.pos.offset := by omega
      have hElsewhere : s'.pos ≠ s.pos := fun hPos => absurd hFurther (by rw [hPos]; omega)
      simp [hFurther, hElsewhere]
  · exact ⟨⟨name, s.pos, h.pos, false, consumed⟩, Hint.PointsBehind.offset_le hAllowed, rfl, rfl⟩

theorem traced [Source.Advancing σ] (hKeeps : Keeps Contract.hint p) (hp : Brackets p)
    (name : Bytes) : Brackets (p.traced name) := by
  intro s t events hEvents
  rw [view_traced] at hEvents
  change Writer.after [.enter name s.pos] (p.view Transfer.events s >>= fun t =>
    Writer.after [exitEvent name t.consumed t.value] (pure t)) = _ at hEvents
  cases hSeen : p.view Transfer.events s with
  | error f =>
    rw [hSeen] at hEvents
    cases hEvents
  | ok result =>
    obtain ⟨t', inside⟩ := result
    rw [hSeen] at hEvents
    obtain rfl : t' = t := congrArg Prod.fst (Except.ok.inj hEvents)
    obtain ⟨log, hObserved, _⟩ := Trace.exists_of_toWriter hSeen
    have hAllowed : Contract.hint.Allows s t'.consumed t'.value :=
      Trace.delivers_iff.mp (hKeeps.observe s) t' log hObserved
    obtain ⟨x, hTruthful, hEnter, hExit⟩ := exitEvent_truthful hAllowed name
    have hSpan := (hp s t' inside hSeen).span hTruthful
    rw [hEnter, hExit] at hSpan
    cases hEvents
    exact hSpan

end Brackets

end Parser

variable [Source σ τ] [Shown τ] {ε ρ : Type → Type} {perform : {α : Type} → ε α → Trace α}

theorem Prim.parser_brackets {α : Type} (primitive : Prim τ α) :
    Parser.Brackets (primitive.parser : Parser Trace σ υ α) := by
  intro s
  obtain ⟨consumed, r, hReply⟩ := primitive.exists_reply s
  rw [Parser.view_eq, hReply]
  exact Writer.brackets_pure (Tagged.mk consumed r)

/-- Performing an effect records no event. -/
def Silent (perform : {α : Type} → ε α → Trace α) : Prop :=
  ∀ {α : Type} (e : ε α) (a : α) (log : EventLog), perform e = .ok (a, log) → log.toList = []

theorem Silent.brackets (hSilent : Silent perform) {α : Type} (e : ε α) :
    (perform e).toWriter.Brackets := by
  intro a events hEvents
  obtain ⟨log, hPerform, rfl⟩ := Trace.exists_of_toWriter hEvents
  rw [hSilent e a log hPerform]
  exact .nil

variable [Source.Advancing σ]

theorem Grammar.parser_brackets (hSilent : Silent perform) (rounds : Nat)
    {rules : {α : Type} → ρ α → Parser Trace σ υ α}
    (hKeeps : ∀ {α : Type} (name : ρ α), Parser.Keeps Contract.hint (rules name))
    (hRules : ∀ {α : Type} (name : ρ α), Parser.Brackets (rules name)) {α : Type}
    (g : Grammar τ υ ε ρ α) : Parser.Brackets (g.parser perform rounds rules) := by
  induction g with
  | pure a => exact .reply _ _
  | never => exact .reply _ _
  | fail text => exact .reply _ _
  | unexpected text => exact .reply _ _
  | lift effect =>
    intro s
    change ((Parser.lift (perform effect)).view Transfer.events s).Brackets
    rw [Parser.view_lift]
    exact (hSilent.brackets effect).map _
  | rule name => exact hRules name
  | bind p f ihp ihf => exact ihp.bind ihf
  | map f p ih => exact ih.map f
  | orElse p q ihp ihq => exact ihp.orElse ihq
  | attempt p ih => exact ih.attempt
  | label p name ih => exact ih.label name
  | lookAhead p ih => exact ih.lookAhead
  | many p ih => exact (ih.map Yield.value).gather rounds .untilFailure
  | count n p ih =>
    change Parser.Brackets (Parser.count rounds n _)
    unfold Parser.count
    split
    · exact .reply _ _
    · exact (ih.map Yield.value).gather rounds (.times n)
  | manyTill p stop ihp ihStop =>
    exact ((ihStop.map fun _ => Yield.over).orElse (ihp.map Yield.value)).gather rounds .untilOver
  | getUser => exact .reply _ _
  | putUser user => exact .reply _ _
  | modifyUser f => exact .reply _ _
  | position => exact .reply _ _
  | traced name p ih =>
    exact .traced (p.parser_keeps Contract.hint_closed perform rounds hKeeps) ih name
  | prim primitive => exact primitive.parser_brackets

theorem Rulebook.resolve_brackets (hSilent : Silent perform) (rounds : Nat)
    (rules : {α : Type} → ρ α → Grammar τ υ ε ρ α) (depth : Nat) {α : Type} (name : ρ α) :
    Parser.Brackets (resolve (σ := σ) perform rounds (ofGrammars rules) depth name) := by
  induction depth generalizing α with
  | zero =>
    intro s t events hEvents
    cases hEvents
  | succ depth ih =>
    have hKeeps : ∀ {α : Type} (name : ρ α), Parser.Keeps Contract.hint
        (resolve (σ := σ) perform rounds (ofGrammars rules) depth name) :=
      resolve_keeps Contract.hint_closed perform rounds rules depth
    exact (rules name).parser_brackets hSilent rounds hKeeps ih

theorem trace_bracketed (hSilent : Silent perform) (bound : Nat)
    (rules : {α : Type} → ρ α → Grammar τ υ ε ρ α) {α : Type} (g : Grammar τ υ ε ρ α)
    (s : State σ υ) {r : Reply σ υ α} {log : EventLog}
    (hRun : (Rulebook.parser perform bound (Rulebook.ofGrammars rules) g).run s = .ok (r, log)) :
    ∃ spans, Event.spans [] log.toList = some spans ∧ ∀ x ∈ spans, x.Truthful := by
  have hBrackets : Parser.Brackets
      (Rulebook.parser (σ := σ) perform bound (Rulebook.ofGrammars rules) g) :=
    g.parser_brackets hSilent bound
      (Rulebook.resolve_keeps Contract.hint_closed perform bound rules bound)
      (Rulebook.resolve_brackets hSilent bound rules bound)
  have hEvents := (hBrackets s).map Tagged.value
  rw [← Parser.carry_run, hRun] at hEvents
  exact (hEvents r log.toList rfl).spans_eq_some

/-- On `ab`, a traced repetition reads an `a`, looks at the `b` in vain and delivers a value. -/
theorem trace_bracketed_repeated :
    let g : Grammar Rune Unit id (fun _ => Empty) Unit :=
      (((Grammar.char (.ofChar 'a')).traced [97]).many.andThen (.lift (α := Unit) ())).traced [120]
    let p : Parser Trace Text Unit Unit :=
      Rulebook.parser (fun a => pure a) 3 (Rulebook.ofGrammars nofun) g
    let at' (offset : Int) : Position := ⟨[], offset, 1, offset + 1⟩
    ∃ r log, p.run ⟨.ofBytes [] [97, 98], ()⟩ = .ok (r, log) ∧
      Event.spans [] log.toList = some [⟨[97], at' 0, at' 1, true, true⟩,
        ⟨[97], at' 1, at' 1, false, false⟩, ⟨[120], at' 0, at' 1, true, true⟩] ∧
      ∀ x ∈ (Event.spans [] log.toList).getD [], x.Truthful := by
  intro g p at'
  have hSilent : Silent (ε := id) fun a => pure a := by
    rintro α e a log ⟨⟩
    rfl
  have hRun : p.run ⟨.ofBytes [] [97, 98], ()⟩ = .ok _ := rfl
  obtain ⟨spans, hSpans, hTruthful⟩ := trace_bracketed hSilent 3 nofun g _ hRun
  refine ⟨_, _, hRun, rfl, ?_⟩
  rw [hSpans]
  exact hTruthful

end Descent
