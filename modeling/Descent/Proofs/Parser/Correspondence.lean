import Descent.Grammar.Parser
import Descent.Proofs.Computation.Simulation
import Descent.Proofs.Parser.Contract

/-! # Two runs of one grammar

A grammar is tied neither to a base computation nor to a kind of input. Here it is run twice: in two
bases related by a simulation, and from states that correspond in some way, over two inputs with the
same elements. Layer by layer both runs are related: the tags agree, the values are the same, and
states and hints correspond again. What the simulation or the correspondence does not support, an
effect, a record of events, a look at the position or at the user state, the grammar must not ask
for. -/

namespace Descent

variable {α α' β : Type}

/-- The same tag around related values. -/
inductive Tagged.Related (r : α → α' → Prop) : Tagged α → Tagged α' → Prop where
  | intro (consumed : Bool) {a : α} {a' : α'} : r a a' → Related r ⟨consumed, a⟩ ⟨consumed, a'⟩

/-- Which states and which hints of two runs belong together. -/
structure Correspondence (σ σ' υ : Type) where
  state : State σ υ → State σ' υ → Prop
  hint : Hint → Hint → Prop

variable {σ σ' τ υ : Type}

inductive Reply.Related (K : Correspondence σ σ' υ) : Reply σ υ α → Reply σ' υ α → Prop where
  | ok (a : α) {s : State σ υ} {s' : State σ' υ} {h h' : Hint} : K.state s s' → K.hint h h' →
      Related K (.ok a s h) (.ok a s' h')
  | error {h h' : Hint} : K.hint h h' → Related K (.error h) (.error h')

structure Gathered.Related (K : Correspondence σ σ' υ) (g : Gathered σ υ α)
    (g' : Gathered σ' υ α) : Prop where
  backward : g.backward = g'.backward
  count : g.count = g'.count
  state : K.state g.state g'.state
  hint : K.hint g.hint g'.hint

namespace Correspondence

/-- The correspondence is kept under what parsers do with states and hints. -/
structure Closed [Source σ τ] [Source σ' τ] (K : Correspondence σ σ' υ) : Prop where
  next {s : State σ υ} {s' : State σ' υ} : K.state s s' →
    Option.Rel (fun x x' => x.1 = x'.1 ∧ K.state (s.withInput x.2) (s'.withInput x'.2))
      (Source.next? s.input) (Source.next? s'.input)
  stand {s : State σ υ} {s' : State σ' υ} (messages : List Message) : K.state s s' →
    K.hint ⟨s.pos, messages⟩ ⟨s'.pos, messages⟩
  merge {h₁ h₁' h₂ h₂' : Hint} : K.hint h₁ h₁' → K.hint h₂ h₂' →
    K.hint (h₁.merge h₂) (h₁'.merge h₂')
  relabel {h h' : Hint} (name : Bytes) : K.hint h h' → K.hint (h.relabel name) (h'.relabel name)

/-- Positions are the same on both sides. -/
structure SharesPlaces [Source σ τ] [Source σ' τ] (K : Correspondence σ σ' υ) : Prop where
  state {s : State σ υ} {s' : State σ' υ} : K.state s s' → s.pos = s'.pos
  hint {h h' : Hint} : K.hint h h' → h.pos = h'.pos

/-- User states are the same on both sides, and may be changed together. -/
structure SharesUsers (K : Correspondence σ σ' υ) : Prop where
  user {s : State σ υ} {s' : State σ' υ} : K.state s s' → s.user = s'.user
  withUser {s : State σ υ} {s' : State σ' υ} (user : υ) : K.state s s' →
    K.state (s.withUser user) (s'.withUser user)

end Correspondence

namespace Reply.Related

variable {K : Correspondence σ σ' υ}

theorem map (f : α → β) {r : Reply σ υ α} {r' : Reply σ' υ α} (h : Related K r r') :
    Related K (r.map f) (r'.map f) := by
  cases h with
  | ok a hs hh => exact .ok (f a) hs hh
  | error hh => exact .error hh

theorem isOk_eq {r : Reply σ υ α} {r' : Reply σ' υ α} (h : Related K r r') :
    r.isOk = r'.isOk := by
  cases h <;> rfl

variable [Source σ τ] [Source σ' τ]

theorem after (hK : K.Closed) {h h' : Hint} (hEarlier : K.hint h h') {r : Reply σ υ α}
    {r' : Reply σ' υ α} (hr : Related K r r') : Related K (r.after h) (r'.after h') := by
  cases hr with
  | ok a hs hh => exact .ok a hs (hK.merge hEarlier hh)
  | error hh => exact .error (hK.merge hEarlier hh)

theorem exitEvent_eq (hPlaces : K.SharesPlaces) (name : Bytes) (consumed : Bool)
    {r : Reply σ υ α} {r' : Reply σ' υ α} (hr : Related K r r') :
    Parser.exitEvent name consumed r = Parser.exitEvent name consumed r' := by
  cases hr with
  | ok a hs _ => simp [Parser.exitEvent, hPlaces.state hs]
  | error hh => simp [Parser.exitEvent, hPlaces.hint hh]

end Reply.Related

namespace Parser

variable {m n : Type → Type} [Computation m] [Computation n] (S : Simulation m n)
  (K : Correspondence σ σ' υ)

/-- Both layers of the parsers are related, from all states that correspond. -/
def Corresponds (p : Parser m σ υ α) (p' : Parser n σ' υ α) : Prop :=
  ∀ s s', K.state s s' → S.rel (Tagged.Related (S.rel (Reply.Related K))) (p s) (p' s')

namespace Corresponds

variable {S K} {p q : Parser m σ υ α} {p' q' : Parser n σ' υ α} {s : State σ υ} {s' : State σ' υ}

theorem observe (hp : Corresponds S K p p') (hs : K.state s s') :
    S.rel (Tagged.Related (Reply.Related K)) (p.observe s) (p'.observe s') := by
  apply S.bind (hp s s' hs)
  rintro _ _ ⟨consumed, hInner⟩
  exact S.bind hInner fun r r' hr => S.pure (.intro consumed hr)

theorem reply (consumed : Bool) {r : Reply σ υ α} {r' : Reply σ' υ α} (hr : Reply.Related K r r') :
    S.rel (Tagged.Related (S.rel (Reply.Related K))) (Parser.reply consumed r)
      (Parser.reply consumed r') :=
  S.pure (.intro consumed (S.pure hr))

theorem map (hp : Corresponds S K p p') (f : α → β) : Corresponds S K (p.map f) (p'.map f) := by
  intro s s' hs
  apply S.bind (hp s s' hs)
  rintro _ _ ⟨consumed, hInner⟩
  exact S.pure (.intro consumed (S.bind hInner fun r r' hr => S.pure (hr.map f)))

theorem attempt (hp : Corresponds S K p p') : Corresponds S K p.attempt p'.attempt := by
  intro s s' hs
  apply S.bind (hp s s' hs)
  rintro _ _ ⟨consumed, hInner⟩
  cases consumed with
  | true =>
    apply S.bind hInner
    intro r r' hr
    rw [hr.isOk_eq]
    exact reply r'.isOk hr
  | false => exact S.pure (.intro false hInner)

variable [Source σ τ] [Source σ' τ]

/-- Both sides succeed on the spot with the same value and user state. -/
theorem gets (hK : K.Closed) {f : State σ υ → α × υ} {f' : State σ' υ → α × υ}
    (hf : ∀ s s', K.state s s' → (f s).1 = (f' s').1 ∧
      K.state (s.withUser (f s).2) (s'.withUser (f' s').2)) :
    Corresponds S K (Parser.gets f) (Parser.gets f') := by
  intro s s' hs
  obtain ⟨hValue, hState⟩ := hf s s' hs
  unfold Parser.gets
  dsimp only
  rw [hValue]
  exact reply false (.ok _ hState (hK.stand [] hs))

theorem getUser (hK : K.Closed) (hUsers : K.SharesUsers) :
    Corresponds S K Parser.getUser Parser.getUser := by
  apply gets hK
  intro s s' hs
  rw [hUsers.user hs]
  exact ⟨rfl, hUsers.withUser _ hs⟩

theorem putUser (hK : K.Closed) (hUsers : K.SharesUsers) (user : υ) :
    Corresponds S K (Parser.putUser user) (Parser.putUser user) :=
  gets hK fun _ _ hs => ⟨rfl, hUsers.withUser user hs⟩

theorem modifyUser (hK : K.Closed) (hUsers : K.SharesUsers) (f : υ → υ) :
    Corresponds S K (Parser.modifyUser f) (Parser.modifyUser f) := by
  apply gets hK
  intro s s' hs
  rw [hUsers.user hs]
  exact ⟨rfl, hUsers.withUser _ hs⟩

theorem position (hK : K.Closed) (hPlaces : K.SharesPlaces) :
    Corresponds S K Parser.position Parser.position :=
  gets hK fun _ _ hs => ⟨hPlaces.state hs, hs⟩

theorem pure (hK : K.Closed) (a : α) : Corresponds S K (Parser.pure a) (Parser.pure a) :=
  fun _ _ hs => reply false (.ok a hs (hK.stand [] hs))

/-- Both sides fail on the spot with the same messages. -/
theorem refuse (hK : K.Closed) (messages : List Message) :
    Corresponds S K (fun s => Parser.reply false (.error ⟨s.pos, messages⟩) : Parser m σ υ α)
      (fun s => Parser.reply false (.error ⟨s.pos, messages⟩)) :=
  fun _ _ hs => reply false (.error (hK.stand messages hs))

theorem lift (hK : K.Closed) {x : m α} {x' : n α} (hx : S.rel Eq x x') :
    Corresponds S K (Parser.lift x) (Parser.lift x') := fun _ _ hs =>
  S.bind_eq hx fun a => reply false (.ok a hs (hK.stand [] hs))

theorem afterHint (hK : K.Closed) {h h' : Hint} (hEarlier : K.hint h h')
    {next : m (Tagged (m (Reply σ υ α)))} {next' : n (Tagged (n (Reply σ' υ α)))}
    (hNext : S.rel (Tagged.Related (S.rel (Reply.Related K))) next next') :
    S.rel (Tagged.Related (S.rel (Reply.Related K))) (Parser.afterHint h next)
      (Parser.afterHint h' next') := by
  apply S.bind hNext
  rintro _ _ ⟨consumed, hInner⟩
  cases consumed with
  | true => exact S.pure (.intro true hInner)
  | false =>
    exact S.pure (.intro false (S.bind hInner fun r r' hr => S.pure (hr.after hK hEarlier)))

theorem joined (hK : K.Closed) {h h' : Hint} (hEarlier : K.hint h h')
    {next : m (Tagged (m (Reply σ υ α)))} {next' : n (Tagged (n (Reply σ' υ α)))}
    (hNext : S.rel (Tagged.Related (S.rel (Reply.Related K))) next next') :
    S.rel (Reply.Related K) (Parser.joined h next) (Parser.joined h' next') := by
  apply S.bind hNext
  rintro _ _ ⟨consumed, hInner⟩
  cases consumed with
  | true => exact hInner
  | false => exact S.bind hInner fun r r' hr => S.pure (hr.after hK hEarlier)

theorem bind (hK : K.Closed) (hp : Corresponds S K p p') {f : α → Parser m σ υ β}
    {f' : α → Parser n σ' υ β} (hf : ∀ a, Corresponds S K (f a) (f' a)) :
    Corresponds S K (p.bind f) (p'.bind f') := by
  intro s s' hs
  apply S.bind (hp s s' hs)
  rintro _ _ ⟨consumed, hInner⟩
  apply S.bind hInner
  rintro _ _ (⟨a, hs', hh⟩ | hh)
  · cases consumed with
    | true => exact S.pure (.intro true (joined hK hh (hf a _ _ hs')))
    | false => exact afterHint hK hh (hf a _ _ hs')
  · exact reply consumed (.error hh)

theorem orElse (hK : K.Closed) (hp : Corresponds S K p p') (hq : Corresponds S K q q') :
    Corresponds S K (p.orElse q) (p'.orElse q') := by
  intro s s' hs
  apply S.bind (hp s s' hs)
  rintro _ _ ⟨consumed, hInner⟩
  cases consumed with
  | true => exact S.pure (.intro true hInner)
  | false =>
    apply S.bind hInner
    rintro _ _ (⟨a, hs', hh⟩ | hh)
    · exact reply false (.ok a hs' hh)
    · exact afterHint hK hh (hq s s' hs)

theorem label (hK : K.Closed) (hp : Corresponds S K p p') (name : Bytes) :
    Corresponds S K (p.label name) (p'.label name) := by
  intro s s' hs
  apply S.bind (hp s s' hs)
  rintro _ _ ⟨consumed, hInner⟩
  cases consumed with
  | true => exact S.pure (.intro true hInner)
  | false =>
    apply S.pure
    apply Tagged.Related.intro
    apply S.bind hInner
    rintro _ _ (⟨a, hs', hh⟩ | hh)
    · exact S.pure (.ok a hs' hh)
    · exact S.pure (.error (hK.relabel name hh))

theorem lookAhead (hK : K.Closed) (hp : Corresponds S K p p') :
    Corresponds S K p.lookAhead p'.lookAhead := by
  intro s s' hs
  apply S.bind (hp s s' hs)
  rintro _ _ ⟨consumed, hInner⟩
  apply S.bind hInner
  rintro _ _ (⟨a, _, _⟩ | hh)
  · exact reply false (.ok a hs (hK.stand [] hs))
  · exact reply consumed (.error hh)

theorem traced (hTell : S.Tells) (hPlaces : K.SharesPlaces) (hp : Corresponds S K p p')
    (name : Bytes) : Corresponds S K (p.traced name) (p'.traced name) := by
  unfold Parser.traced
  unfold Simulation.Tells at hTell
  generalize (Computation.tell? : Option (Event → m Unit)) = tell at hTell
  generalize (Computation.tell? : Option (Event → n Unit)) = tell' at hTell
  cases hTell with
  | none => exact hp
  | some hTell =>
    intro s s' hs
    dsimp only
    rw [hPlaces.state hs]
    apply S.bind_eq (hTell _)
    intro _
    apply S.bind (hp s s' hs)
    rintro _ _ ⟨consumed, hInner⟩
    apply S.pure
    apply Tagged.Related.intro
    apply S.bind hInner
    intro r r' hr
    rw [hr.exitEvent_eq hPlaces]
    exact S.bind_eq (hTell _) fun _ => S.pure hr

/-! ## Repetition -/

/-- Related rounds are taken in alike. -/
theorem absorb (hK : K.Closed) (rule : Repetition) {g : Gathered σ υ α} {g' : Gathered σ' υ α}
    (hg : Gathered.Related K g g') (consumed : Bool) {r : Reply σ υ (Yield α)}
    {r' : Reply σ' υ (Yield α)} (hr : Reply.Related K r r') :
    S.rel (Turn.Related (Gathered.Related K) (Reply.Related K))
      (turned (rule.absorb g consumed r)) (turned (rule.absorb g' consumed r')) := by
  have hValues : g.values = g'.values := congrArg List.reverse hg.backward
  unfold Repetition.absorb
  cases hr with
  | error hh =>
    dsimp only
    rw [hValues]
    cases consumed with
    | true => exact S.pure (.done (.error hh))
    | false =>
      cases rule.forgiving with
      | true => exact S.pure (.done (.ok _ hg.state hh))
      | false => exact S.pure (.done (.error (hK.merge hg.hint hh)))
  | @ok yield s s' h h' hs hh =>
    have hHint : K.hint (if consumed then h else g.hint.merge h)
        (if consumed then h' else g'.hint.merge h') := by
      cases consumed with
      | true => exact hh
      | false => exact hK.merge hg.hint hh
    dsimp only
    generalize (if consumed = true then h else g.hint.merge h) = hint at hHint ⊢
    generalize (if consumed = true then h' else g'.hint.merge h') = hint' at hHint ⊢
    rcases yield with a | _
    · have hPushed : Gathered.Related K (g.push a s hint) (g'.push a s' hint') :=
        ⟨congrArg (a :: ·) hg.backward, congrArg (· + 1) hg.count, hs, hHint⟩
      have hGathered : (g.push a s hint).values = (g'.push a s' hint').values :=
        congrArg List.reverse hPushed.backward
      dsimp only
      rw [hPushed.count, hGathered]
      by_cases hEmpty : (rule.mustConsume && !consumed) = true
      · rw [if_pos hEmpty, if_pos hEmpty]
        exact S.fault .emptyRound
      rw [if_neg hEmpty, if_neg hEmpty]
      by_cases hEnough : rule.enough = some (g'.push a s' hint').count
      · rw [if_pos hEnough, if_pos hEnough]
        exact S.pure (.done (.ok _ hs hHint))
      · rw [if_neg hEnough, if_neg hEnough]
        exact S.pure (.next hPushed)
    · dsimp only
      rw [hValues]
      exact S.pure (.done (.ok _ hs hHint))

variable {p : Parser m σ υ (Yield α)} {p' : Parser n σ' υ (Yield α)} {rounds rounds' : Nat}
  {g : Gathered σ υ α} {g' : Gathered σ' υ α}

theorem innerRound (hK : K.Closed) (rule : Repetition) (hp : Corresponds S K p p')
    (hg : Gathered.Related K g g') :
    S.rel (Turn.Related (Gathered.Related K) (Reply.Related K)) (Parser.innerRound rule p g)
      (Parser.innerRound rule p' g') := by
  apply S.bind (hp g.state g'.state hg.state)
  rintro _ _ ⟨consumed, hInner⟩
  exact S.bind hInner fun r r' hr => absorb hK rule hg consumed hr

theorem innerRounds (hK : K.Closed) (hRounds : S.bounds rounds rounds') (rule : Repetition)
    (hp : Corresponds S K p p') (hg : Gathered.Related K g g') {r : Reply σ υ (Yield α)}
    {r' : Reply σ' υ (Yield α)} (hr : Reply.Related K r r') :
    S.rel (Reply.Related K) (Parser.innerRounds rounds rule p g r)
      (Parser.innerRounds rounds' rule p' g' r') := by
  apply S.bind (absorb hK rule hg true hr)
  intro _ _ hTurn
  cases hTurn with
  | next hg => exact S.loop hRounds (fun _ _ => innerRound hK rule hp) hg
  | done hFinal => exact S.pure hFinal

theorem outerRound (hK : K.Closed) (hRounds : S.bounds rounds rounds') (rule : Repetition)
    (hp : Corresponds S K p p') (hg : Gathered.Related K g g') :
    S.rel (Turn.Related (Gathered.Related K) (Tagged.Related (S.rel (Reply.Related K))))
      (Parser.outerRound rounds rule p g) (Parser.outerRound rounds' rule p' g') := by
  apply S.bind (hp g.state g'.state hg.state)
  rintro _ _ ⟨consumed, hInner⟩
  cases consumed with
  | true =>
    apply S.pure
    apply Turn.Related.done
    apply Tagged.Related.intro
    exact S.bind hInner fun r r' hr => innerRounds hK hRounds rule hp hg hr
  | false =>
    apply S.bind hInner
    intro r r' hr
    apply S.bind (absorb hK rule hg false hr)
    intro _ _ hTurn
    cases hTurn with
    | next hg => exact S.pure (.next hg)
    | done hFinal => exact S.pure (.done (.intro false (S.pure hFinal)))

theorem gather (hK : K.Closed) (hRounds : S.bounds rounds rounds') (rule : Repetition)
    (hp : Corresponds S K p p') :
    Corresponds S K (gather rounds rule p) (gather rounds' rule p') := fun _ _ hs =>
  S.loop hRounds (fun _ _ => outerRound hK hRounds rule hp) ⟨rfl, rfl, hs, hK.stand [] hs⟩

end Corresponds

end Parser

/-! ## Parsers of elements -/

namespace Correspondence.Closed

variable [Source σ τ] [Source σ' τ] {K : Correspondence σ σ' υ} {s : State σ υ} {s' : State σ' υ}

theorem met_eq [Shown τ] (hK : K.Closed) (hs : K.state s s') :
    Parser.met s.input = Parser.met s'.input := by
  have hNext := hK.next hs
  unfold Parser.met
  generalize Source.next? s.input = next at hNext ⊢
  generalize Source.next? s'.input = next' at hNext ⊢
  cases hNext with
  | none => rfl
  | some h => simp [h.1]

/-- Both runs of elements are the same, and the states after them correspond. -/
theorem spanAfter (hK : K.Closed) (test : τ → Bool) (before : List τ) (hs : K.state s s') :
    (Source.spanAfter test before s.input).1 = (Source.spanAfter test before s'.input).1 ∧
      K.state (s.withInput (Source.spanAfter test before s.input).2)
        (s'.withInput (Source.spanAfter test before s'.input).2) := by
  induction hSize : Source.size s.input using Nat.strongRecOn generalizing s s' before with
  | _ size ih =>
    have hNext := hK.next hs
    generalize hLeft : Source.next? s.input = next at hNext
    generalize hRight : Source.next? s'.input = next' at hNext
    cases hNext with
    | none =>
      rw [Source.spanAfter_of_end hLeft, Source.spanAfter_of_end hRight]
      exact ⟨rfl, hs⟩
    | @some x x' h =>
      obtain ⟨t, rest⟩ := x
      obtain ⟨t', rest'⟩ := x'
      obtain ⟨rfl, hRest⟩ := h
      rw [Source.spanAfter_of_next hLeft, Source.spanAfter_of_next hRight]
      split
      · have hLess : Source.size rest < size := hSize ▸ Source.size_next hLeft
        exact ih _ hLess (t :: before) hRest rfl
      · exact ⟨rfl, hs⟩

/-- Both inputs agree with a list of runes equally far. -/
theorem follow [Source σ Rune] [Source σ' Rune] {K : Correspondence σ σ' υ} (hK : K.Closed)
    (moved : Bool) (hs : K.state s s') (runes : List Rune) :
    (∃ rest rest', Parser.follow moved s.input runes = .ok rest ∧
      Parser.follow moved s'.input runes = .ok rest' ∧
      K.state (s.withInput rest) (s'.withInput rest')) ∨
    ∃ moved' rest rest', Parser.follow moved s.input runes = .error (moved', rest) ∧
      Parser.follow moved s'.input runes = .error (moved', rest') ∧
      K.state (s.withInput rest) (s'.withInput rest') := by
  induction runes generalizing moved s s' with
  | nil => exact .inl ⟨_, _, rfl, rfl, hs⟩
  | cons want runes ih =>
    have hNext := hK.next hs
    unfold Parser.follow
    generalize Source.next? s.input = next at hNext ⊢
    generalize Source.next? s'.input = next' at hNext ⊢
    cases hNext with
    | none => exact .inr ⟨_, _, _, rfl, rfl, hs⟩
    | @some x x' h =>
      obtain ⟨t, rest⟩ := x
      obtain ⟨t', rest'⟩ := x'
      obtain ⟨rfl, hRest⟩ := h
      dsimp only
      by_cases hWant : t = want
      · rw [if_pos hWant, if_pos hWant]
        exact ih true hRest
      · rw [if_neg hWant, if_neg hWant]
        exact .inr ⟨_, _, _, rfl, rfl, hs⟩

end Correspondence.Closed

variable {m n : Type → Type} [Computation m] [Computation n] {S : Simulation m n}
  {K : Correspondence σ σ' υ}

namespace Parser.Corresponds

theorem satisfy [Source σ τ] [Source σ' τ] [Shown τ] (hK : K.Closed) (test : τ → Bool) :
    Corresponds S K (Parser.satisfy test) (Parser.satisfy test) := by
  intro s s' hs
  have hNext := hK.next hs
  unfold Parser.satisfy
  dsimp only
  rw [hK.met_eq hs]
  generalize Source.next? s.input = next at hNext ⊢
  generalize Source.next? s'.input = next' at hNext ⊢
  cases hNext with
  | none => exact reply false (.error (hK.stand _ hs))
  | @some x x' h =>
    obtain ⟨t, rest⟩ := x
    obtain ⟨t', rest'⟩ := x'
    obtain ⟨rfl, hRest⟩ := h
    dsimp only
    by_cases hTest : test t = true
    · rw [if_pos hTest, if_pos hTest]
      exact reply true (.ok t hRest (hK.stand [] hRest))
    · rw [if_neg hTest, if_neg hTest]
      exact reply false (.error (hK.stand _ hs))

theorem eof [Source σ τ] [Source σ' τ] [Shown τ] (hK : K.Closed) :
    Corresponds S K Parser.eof Parser.eof := by
  intro s s' hs
  have hNext := hK.next hs
  unfold Parser.eof
  generalize Source.next? s.input = next at hNext ⊢
  generalize Source.next? s'.input = next' at hNext ⊢
  cases hNext with
  | none => exact reply false (.ok () hs (hK.stand [] hs))
  | @some x x' h =>
    obtain ⟨t, rest⟩ := x
    obtain ⟨t', rest'⟩ := x'
    obtain ⟨rfl, _⟩ := h
    exact reply false (.error (hK.stand _ hs))

variable [Source σ Rune] [Source σ' Rune]

theorem literal (hK : K.Closed) (text : Bytes) :
    Corresponds S K (Parser.literal text) (Parser.literal text) := by
  intro s s' hs
  unfold Parser.literal
  dsimp only
  rcases hK.follow false hs (Utf8.runes text) with
    ⟨rest, rest', hLeft, hRight, hRest⟩ | ⟨moved, rest, rest', hLeft, hRight, hRest⟩
  · rw [hLeft, hRight]
    exact reply _ (.ok text hRest (hK.stand [] hRest))
  · have hMet : Parser.met rest = Parser.met rest' := hK.met_eq hRest
    rw [hLeft, hRight]
    dsimp only
    rw [hMet]
    exact reply moved (.error (hK.stand _ hs))

theorem keyword (hK : K.Closed) (distance : Bytes → Bytes → Nat) (words : List Bytes) :
    Corresponds S K (Parser.keyword distance words) (Parser.keyword distance words) := by
  intro s s' hs
  obtain ⟨hRunes, hRest⟩ := hK.spanAfter Rune.isWord [] hs
  have hRefusal : ∀ word,
      refusal distance words word s.input = refusal distance words word s'.input := by
    intro word
    unfold refusal
    rw [hK.met_eq hs]
  unfold Parser.keyword Source.span
  dsimp only
  rw [hRunes, hRefusal]
  split
  · exact reply true (.ok _ hRest (hK.stand [] hRest))
  · exact reply false (.error (hK.stand _ hs))

end Parser.Corresponds

theorem Prim.parser_corresponds [Source σ τ] [Source σ' τ] [Shown τ] (hK : K.Closed)
    (primitive : Prim τ α) : Parser.Corresponds S K primitive.parser primitive.parser := by
  cases primitive with
  | satisfy test => exact .satisfy hK test
  | eof => exact .eof hK
  | literal text => exact .literal hK text
  | keyword distance words => exact .keyword hK distance words

end Descent
