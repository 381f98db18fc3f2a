import Descent.Grammar.Parser
import Descent.Proofs.Computation.Delivery
import Descent.Proofs.Source.Passage

/-! # Contracts of parsers

A contract says which outcomes a parser may have from a state, whatever its value: with which tag,
state and hint it may succeed, and with which tag and hint it may fail. It is closed when the
outcomes it allows can be put together the way the combinators do. Every parser made of the
combinators keeps a closed contract, in every uniform base computation; the two layers of a parser
are followed here once and for all. Nothing is said of parsers made by hand. -/

namespace Descent

/-- Which outcomes are allowed from a state. -/
structure Contract (σ υ : Type) where
  ok : State σ υ → Bool → State σ υ → Hint → Prop
  error : State σ υ → Bool → Hint → Prop

namespace Contract

variable {σ υ α β : Type}

def Allows (C : Contract σ υ) (s : State σ υ) (consumed : Bool) : Reply σ υ α → Prop
  | .ok _ s' h => C.ok s consumed s' h
  | .error h => C.error s consumed h

/-- The contract is kept under the ways in which combinators make replies: a success on the spot, in
which the user state may change, or behind some elements; a failure reported where the parser
started; a reply that follows a success, takes the place of a failure without consumption, or ends a
repetition with one; a failure taken back or renamed. -/
structure Closed {τ : Type} [Source σ τ] (C : Contract σ υ) : Prop where
  stay {s s' : State σ υ} : s'.input = s.input → C.ok s false s' (.unknown s.pos)
  pass {s : State σ υ} {passed : List τ} {rest : σ} : passed ≠ [] →
    Source.Passes s.input passed rest → C.ok s true (s.withInput rest) (.unknown (Source.pos rest))
  refuse {s : State σ υ} {consumed : Bool} {h : Hint} : h.pos = s.pos → C.error s consumed h
  follow {α : Type} {s s' : State σ υ} {consumed consumed' : Bool} {h : Hint}
    {r : Reply σ υ α} : C.ok s consumed s' h → C.Allows s' consumed' r →
    C.Allows s (consumed || consumed') (if consumed' then r else r.after h)
  replace {α : Type} {s : State σ υ} {h : Hint} {r : Reply σ υ α} : C.error s false h →
    C.Allows s false r → C.Allows s false (r.after h)
  halt {s s' : State σ υ} {consumed : Bool} {h h' : Hint} : C.ok s consumed s' h →
    C.error s' false h' → C.ok s consumed s' h'
  attempt {s : State σ υ} {h : Hint} : C.error s true h → C.error s false h
  relabel {s : State σ υ} {h : Hint} (name : Bytes) : C.error s false h →
    C.error s false (h.relabel name)

variable {C : Contract σ υ} {s : State σ υ} {consumed : Bool}

theorem allows_map (f : α → β) {r : Reply σ υ α} (h : C.Allows s consumed r) :
    C.Allows s consumed (r.map f) := by
  cases r <;> exact h

end Contract

namespace Parser

variable {m : Type → Type} [Computation m] {σ τ υ α β γ : Type}

def Kept (C : Contract σ υ) (s : State σ υ) (t : Tagged (m (Reply σ υ α))) : Prop :=
  Delivers (C.Allows s t.consumed) t.value

/-- The parser has only outcomes that the contract allows. -/
def Keeps (C : Contract σ υ) (p : Parser m σ υ α) : Prop := ∀ s, Delivers (Kept C s) (p s)

namespace Keeps

variable [UniformComputation m] {C : Contract σ υ}

theorem reply {s : State σ υ} {consumed : Bool} {r : Reply σ υ α} (h : C.Allows s consumed r) :
    Delivers (Kept C s) (Parser.reply consumed r : m (Tagged (m (Reply σ υ α)))) :=
  .pure (.pure h)

theorem observe {p : Parser m σ υ α} (hp : Keeps C p) (s : State σ υ) :
    Delivers (fun t => C.Allows s t.consumed t.value) (p.observe s) :=
  (hp s).bind fun _ ht => ht.bind fun _ hr => .pure hr

theorem map {p : Parser m σ υ α} (hp : Keeps C p) (f : α → β) : Keeps C (p.map f) := fun s =>
  (hp s).bind fun _ ht => .pure (ht.bind fun _ hr => .pure (Contract.allows_map f hr))

theorem afterHint {s s' : State σ υ} {h : Hint} {next : m (Tagged (m (Reply σ υ α)))}
    (hNext : Delivers (Kept C s') next)
    (hConsumed : ∀ r : Reply σ υ α, C.Allows s' true r → C.Allows s true r)
    (hEmpty : ∀ r : Reply σ υ α, C.Allows s' false r → C.Allows s false (r.after h)) :
    Delivers (Kept C s) (Parser.afterHint h next) := by
  apply hNext.bind
  rintro ⟨consumed, inner⟩ hInner
  cases consumed with
  | true => exact .pure (hInner.mono hConsumed)
  | false => exact .pure (hInner.bind fun r hr => .pure (hEmpty r hr))

variable [Source σ τ]

theorem joined (hC : C.Closed) {s s' : State σ υ} {h : Hint}
    {next : m (Tagged (m (Reply σ υ α)))} (hFirst : C.ok s true s' h)
    (hNext : Delivers (Kept C s') next) :
    Delivers (C.Allows s true) (Parser.joined h next) := by
  apply hNext.bind
  rintro ⟨consumed, inner⟩ hInner
  cases consumed with
  | true => exact hInner.mono fun r hr => hC.follow hFirst hr
  | false => exact hInner.bind fun r hr => .pure (hC.follow hFirst hr)

theorem bind (hC : C.Closed) {p : Parser m σ υ α} {f : α → Parser m σ υ β} (hp : Keeps C p)
    (hf : ∀ a, Keeps C (f a)) : Keeps C (p.bind f) := by
  intro s
  apply (hp s).bind
  rintro ⟨consumed, inner⟩ hInner
  apply Delivers.bind hInner
  rintro (⟨a, s', h⟩ | h) hr
  · cases consumed with
    | true => exact .pure (joined hC hr (hf a s'))
    | false =>
      exact afterHint (hf a s') (fun r h' => hC.follow hr h') fun r h' => hC.follow hr h'
  · exact reply hr

theorem orElse (hC : C.Closed) {p q : Parser m σ υ α} (hp : Keeps C p) (hq : Keeps C q) :
    Keeps C (p.orElse q) := by
  intro s
  apply (hp s).bind
  rintro ⟨consumed, inner⟩ hInner
  cases consumed with
  | true => exact .pure hInner
  | false =>
    apply Delivers.bind hInner
    rintro (⟨a, s', h⟩ | h) hr
    · exact reply hr
    · exact afterHint (hq s) (fun _ h' => h') fun r h' => hC.replace hr h'

theorem attempt (hC : C.Closed) {p : Parser m σ υ α} (hp : Keeps C p) : Keeps C p.attempt := by
  intro s
  apply (hp s).bind
  rintro ⟨consumed, inner⟩ hInner
  cases consumed with
  | true =>
    apply Delivers.bind hInner
    rintro (⟨a, s', h⟩ | h) hr
    · exact reply hr
    · exact reply (hC.attempt hr)
  | false => exact .pure hInner

theorem label (hC : C.Closed) {p : Parser m σ υ α} (hp : Keeps C p) (name : Bytes) :
    Keeps C (p.label name) := by
  intro s
  apply (hp s).bind
  rintro ⟨consumed, inner⟩ hInner
  cases consumed with
  | true => exact .pure hInner
  | false =>
    apply Delivers.pure
    apply Delivers.bind hInner
    rintro (⟨a, s', h⟩ | h) hr
    · exact .pure hr
    · exact .pure (hC.relabel name hr)

theorem lookAhead (hC : C.Closed) {p : Parser m σ υ α} (hp : Keeps C p) :
    Keeps C p.lookAhead := by
  intro s
  apply (hp s).bind
  rintro ⟨consumed, inner⟩ hInner
  apply Delivers.bind hInner
  rintro (⟨a, s', h⟩ | h) hr
  · exact reply (hC.stay rfl)
  · exact reply hr

theorem traced {p : Parser m σ υ α} (hp : Keeps C p) (name : Bytes) :
    Keeps C (p.traced name) := by
  unfold Parser.traced
  cases (Computation.tell? : Option (Event → m Unit)) with
  | none => exact hp
  | some tell =>
    intro s
    apply (Delivers.anything _).bind
    intro _ _
    apply (hp s).bind
    intro t ht
    apply Delivers.pure
    apply Delivers.bind ht
    intro r hr
    exact (Delivers.anything _).bind fun _ _ => .pure hr

/-! ## Repetition -/

/-- What a round adds to what was gathered with a tag is allowed with the tag of both. -/
theorem absorb (hC : C.Closed) (rule : Repetition) {s : State σ υ} {g : Gathered σ υ α}
    {consumed consumed' : Bool} (hg : C.ok s consumed g.state g.hint) {r : Reply σ υ (Yield α)}
    (hr : C.Allows g.state consumed' r) {turn : Turn (Gathered σ υ α) (Reply σ υ (List α))}
    (hTurn : rule.absorb g consumed' r = .ok turn) :
    turn.All (fun g => C.ok s (consumed || consumed') g.state g.hint)
      (C.Allows s (consumed || consumed')) := by
  have hFollow := hC.follow hg hr
  rcases r with ⟨yield, s', h⟩ | h
  · have hOk : C.ok s (consumed || consumed') s' (if consumed' then h else g.hint.merge h) := by
      cases consumed' <;> exact hFollow
    unfold Repetition.absorb at hTurn
    dsimp only at hTurn
    generalize (if consumed' = true then h else g.hint.merge h) = hint at hOk hTurn
    rcases yield with a | _
    · dsimp only at hTurn
      split at hTurn
      · cases hTurn
      · split at hTurn <;> cases hTurn <;> exact hOk
    · cases hTurn
      exact hOk
  · unfold Repetition.absorb at hTurn
    cases consumed' with
    | true =>
      cases hTurn
      exact hFollow
    | false =>
      dsimp only at hTurn
      rw [if_neg Bool.false_ne_true] at hTurn
      split at hTurn <;> cases hTurn
      · rw [Bool.or_false]
        exact hC.halt hg hr
      · exact hFollow

theorem turned {I : α → Prop} {P : β → Prop} {outcome : Except Fault (Turn α β)}
    (h : ∀ turn, outcome = .ok turn → turn.All I P) :
    Delivers (Turn.All I P) (Parser.turned outcome : m (Turn α β)) := by
  cases outcome with
  | error f => exact .fault f
  | ok turn => exact .pure (h turn rfl)

theorem innerRound (hC : C.Closed) (rule : Repetition) {p : Parser m σ υ (Yield α)}
    (hp : Keeps C p) {s : State σ υ} (g : Gathered σ υ α) (hg : C.ok s true g.state g.hint) :
    Delivers (Turn.All (fun g => C.ok s true g.state g.hint) (C.Allows s true))
      (Parser.innerRound rule p g) :=
  (hp g.state).bind fun _ ht => ht.bind fun _ hr => turned fun _ => absorb hC rule hg hr

theorem innerRounds (hC : C.Closed) (rounds : Nat) (rule : Repetition)
    {p : Parser m σ υ (Yield α)} (hp : Keeps C p) {s : State σ υ} {g : Gathered σ υ α}
    (hg : C.ok s false g.state g.hint) {r : Reply σ υ (Yield α)} (hr : C.Allows g.state true r) :
    Delivers (C.Allows s true) (Parser.innerRounds rounds rule p g r) := by
  apply (turned fun _ => absorb hC rule hg hr).bind
  rintro (g' | final) hTurn
  · exact Delivers.loop (innerRound hC rule hp) rounds hTurn
  · exact .pure hTurn

theorem outerRound (hC : C.Closed) (rounds : Nat) (rule : Repetition)
    {p : Parser m σ υ (Yield α)} (hp : Keeps C p) {s : State σ υ} (g : Gathered σ υ α)
    (hg : C.ok s false g.state g.hint) :
    Delivers (Turn.All (fun g => C.ok s false g.state g.hint) (Kept C s))
      (Parser.outerRound rounds rule p g) := by
  apply (hp g.state).bind
  rintro ⟨consumed, inner⟩ hInner
  cases consumed with
  | true => exact .pure (Delivers.bind hInner fun r hr => innerRounds hC rounds rule hp hg hr)
  | false =>
    apply Delivers.bind hInner
    intro r hr
    apply (turned fun _ => absorb hC rule hg hr).bind
    rintro (g' | final) hTurn
    · exact .pure hTurn
    · exact .pure (Delivers.pure hTurn)

theorem gather (hC : C.Closed) (rounds : Nat) (rule : Repetition) {p : Parser m σ υ (Yield α)}
    (hp : Keeps C p) : Keeps C (Parser.gather rounds rule p) := fun _ =>
  Delivers.loop (outerRound hC rounds rule hp) rounds (hC.stay rfl)

theorem many (hC : C.Closed) (rounds : Nat) {p : Parser m σ υ α} (hp : Keeps C p) :
    Keeps C (Parser.many rounds p) :=
  gather hC rounds .untilFailure (hp.map Yield.value)

theorem count (hC : C.Closed) (rounds n : Nat) {p : Parser m σ υ α} (hp : Keeps C p) :
    Keeps C (Parser.count rounds n p) := by
  unfold Parser.count
  split
  · exact fun _ => reply (hC.stay rfl)
  · exact gather hC rounds (.times n) (hp.map Yield.value)

theorem manyTill (hC : C.Closed) (rounds : Nat) {p : Parser m σ υ α} {stop : Parser m σ υ β}
    (hp : Keeps C p) (hStop : Keeps C stop) : Keeps C (Parser.manyTill rounds p stop) :=
  gather hC rounds .untilOver (orElse hC (hStop.map fun _ => Yield.over) (hp.map Yield.value))

/-! ## Parsers of elements -/

theorem satisfy [Shown τ] (hC : C.Closed) (test : τ → Bool) :
    Keeps C (Parser.satisfy test : Parser m σ υ τ) := by
  intro s
  unfold Parser.satisfy
  dsimp only
  split
  · exact reply (hC.refuse rfl)
  · rename_i t rest hNext
    split
    · exact reply (hC.pass (List.cons_ne_nil t []) (.one hNext))
    · exact reply (hC.refuse rfl)

theorem eof [Shown τ] (hC : C.Closed) : Keeps C (Parser.eof : Parser m σ υ Unit) := by
  intro s
  unfold Parser.eof
  split
  · exact reply (hC.stay rfl)
  · exact reply (hC.refuse rfl)

end Keeps

section Runes

variable {σ : Type} [Source σ Rune]

theorem follow_eq_ok {moved : Bool} {input rest : σ} {runes : List Rune}
    (h : follow moved input runes = .ok rest) : Source.Passes input runes rest := by
  fun_induction follow moved input runes with
  | case1 =>
    cases h
    exact .stay _
  | case2 => cases h
  | case3 moved input runes r after hNext ih => exact .move hNext (ih h)
  | case4 => cases h

namespace Keeps

variable [UniformComputation m] {C : Contract σ υ}

theorem literal (hC : C.Closed) (text : Bytes) :
    Keeps C (Parser.literal text : Parser m σ υ Bytes) := by
  intro s
  unfold Parser.literal
  dsimp only
  split
  · rename_i rest hFollow
    have hPasses := follow_eq_ok hFollow
    generalize Utf8.runes text = runes at hPasses
    cases runes with
    | nil =>
      cases hPasses
      exact reply (hC.stay rfl)
    | cons r runes => exact reply (hC.pass (List.cons_ne_nil r runes) hPasses)
  · exact reply (hC.refuse rfl)

theorem keyword (hC : C.Closed) (distance : Bytes → Bytes → Nat) (words : List Bytes) :
    Keeps C (Parser.keyword distance words : Parser m σ υ Bytes) := by
  intro s
  unfold Parser.keyword
  dsimp only
  split
  · rename_i hWord
    apply reply
    apply hC.pass _ (Source.passes_span Rune.isWord s.input)
    intro hEmpty
    rw [hEmpty] at hWord
    exact hWord.1 rfl
  · exact reply (hC.refuse rfl)

end Keeps

end Runes

end Parser

/-! ## Grammars -/

/-- A primitive replies at once, and its reply does not depend on the base computation. -/
theorem Prim.exists_reply {σ τ υ α : Type} [Source σ τ] [Shown τ] (primitive : Prim τ α)
    (s : State σ υ) : ∃ consumed r, ∀ (m : Type → Type) [Computation m],
      (primitive.parser : Parser m σ υ α) s = Parser.reply consumed r := by
  cases primitive with
  | satisfy test =>
    change ∃ consumed r, ∀ m [Computation m], (Parser.satisfy test s : m _) = _
    unfold Parser.satisfy
    dsimp only
    split
    · exact ⟨_, _, fun _ => rfl⟩
    · split <;> exact ⟨_, _, fun _ => rfl⟩
  | eof =>
    change ∃ consumed r, ∀ m [Computation m], (Parser.eof s : m _) = _
    unfold Parser.eof
    split <;> exact ⟨_, _, fun _ => rfl⟩
  | literal text =>
    change ∃ consumed r, ∀ m [Computation m], (Parser.literal text s : m _) = _
    unfold Parser.literal
    dsimp only
    split <;> exact ⟨_, _, fun _ => rfl⟩
  | keyword distance words =>
    change ∃ consumed r, ∀ m [Computation m], (Parser.keyword distance words s : m _) = _
    unfold Parser.keyword
    dsimp only
    split <;> exact ⟨_, _, fun _ => rfl⟩

variable {m : Type → Type} [Computation m] [UniformComputation m] {σ τ υ : Type} [Source σ τ]
  [Shown τ] {ε ρ : Type → Type} {C : Contract σ υ}

theorem Prim.parser_keeps (hC : C.Closed) {α : Type} (primitive : Prim τ α) :
    Parser.Keeps C (primitive.parser : Parser m σ υ α) := by
  cases primitive with
  | satisfy test => exact .satisfy hC test
  | eof => exact .eof hC
  | literal text => exact .literal hC text
  | keyword distance words => exact .keyword hC distance words

theorem Grammar.parser_keeps (hC : C.Closed) (perform : {α : Type} → ε α → m α) (rounds : Nat)
    {rules : {α : Type} → ρ α → Parser m σ υ α}
    (hRules : ∀ {α : Type} (name : ρ α), Parser.Keeps C (rules name)) {α : Type}
    (g : Grammar τ υ ε ρ α) : Parser.Keeps C (g.parser perform rounds rules) := by
  induction g with
  | pure a => exact fun s => Parser.Keeps.reply (hC.stay rfl)
  | never => exact fun s => Parser.Keeps.reply (hC.refuse rfl)
  | fail text => exact fun s => Parser.Keeps.reply (hC.refuse rfl)
  | unexpected text => exact fun s => Parser.Keeps.reply (hC.refuse rfl)
  | lift effect =>
    intro s
    exact (Delivers.anything _).bind fun a _ => Parser.Keeps.reply (hC.stay rfl)
  | rule name => exact hRules name
  | bind p f ihp ihf => exact .bind hC ihp ihf
  | map f p ih => exact ih.map f
  | orElse p q ihp ihq => exact .orElse hC ihp ihq
  | attempt p ih => exact .attempt hC ih
  | label p name ih => exact .label hC ih name
  | lookAhead p ih => exact .lookAhead hC ih
  | many p ih => exact .many hC rounds ih
  | count n p ih => exact .count hC rounds n ih
  | manyTill p stop ihp ihStop => exact .manyTill hC rounds ihp ihStop
  | getUser => exact fun s => Parser.Keeps.reply (hC.stay rfl)
  | putUser user => exact fun s => Parser.Keeps.reply (hC.stay rfl)
  | modifyUser f => exact fun s => Parser.Keeps.reply (hC.stay rfl)
  | position => exact fun s => Parser.Keeps.reply (hC.stay rfl)
  | traced name p ih => exact .traced ih name
  | prim primitive => exact primitive.parser_keeps hC

/-- A rulebook in which every rule is a grammar. -/
def Rulebook.ofGrammars (rules : {α : Type} → ρ α → Grammar τ υ ε ρ α) :
    Rulebook m σ τ υ ε ρ :=
  fun name => .grammar (rules name)

theorem Rulebook.resolve_keeps (hC : C.Closed) (perform : {α : Type} → ε α → m α) (rounds : Nat)
    (rules : {α : Type} → ρ α → Grammar τ υ ε ρ α) (depth : Nat) {α : Type} (name : ρ α) :
    Parser.Keeps C (resolve (σ := σ) perform rounds (ofGrammars rules) depth name) := by
  induction depth generalizing α with
  | zero => exact fun s => .fault .exhausted
  | succ depth ih => exact fun s => (rules name).parser_keeps hC perform rounds ih s

/-- Every grammar over a rulebook of grammars keeps every closed contract. -/
theorem Rulebook.parser_keeps (hC : C.Closed) (perform : {α : Type} → ε α → m α) (bound : Nat)
    (rules : {α : Type} → ρ α → Grammar τ υ ε ρ α) {α : Type} (g : Grammar τ υ ε ρ α) :
    Parser.Keeps C (parser (σ := σ) perform bound (ofGrammars rules) g) :=
  g.parser_keeps hC perform bound (resolve_keeps hC perform bound rules bound)

/-- The parser belongs to a grammar whose rules are grammars too: no part of it is made by hand. -/
def Parser.Built {α : Type} (p : Parser m σ υ α) : Prop :=
  ∃ (ε ρ : Type → Type) (perform : {α : Type} → ε α → m α) (bound : Nat)
    (rules : {α : Type} → ρ α → Grammar τ υ ε ρ α) (g : Grammar τ υ ε ρ α),
    p = Rulebook.parser perform bound (Rulebook.ofGrammars rules) g

theorem Parser.Built.keeps (hC : C.Closed) {α : Type} {p : Parser m σ υ α} (hp : p.Built) :
    Parser.Keeps C p := by
  obtain ⟨_, _, perform, bound, rules, g, rfl⟩ := hp
  exact Rulebook.parser_keeps hC perform bound rules g

end Descent
