import Descent.Computation.Effect
import Descent.Proofs.Grammar.Guarded
import Descent.Proofs.Parser.Progress

/-! # Consuming grammars

Whether a grammar succeeds only after consumption can be read off its text in many cases, and with
that, whether its repetitions may come to an empty round. Rules are taken at their word: which of
them are consuming is given, and their bodies have to agree. -/

namespace Descent

variable {τ υ : Type} {ε ρ : Type → Type} {α β γ : Type}

namespace Grammar

/-- By its text the grammar cannot succeed without consuming input. -/
def Consuming (consuming : {α : Type} → ρ α → Prop) {α : Type} : Grammar τ υ ε ρ α → Prop
  | .never | .fail _ | .unexpected _ => True
  | .prim primitive => primitive.IsToken
  | .rule name => consuming name
  | .bind p f => p.Consuming consuming ∨ ∀ a, (f a).Consuming consuming
  | .orElse p q => p.Consuming consuming ∧ q.Consuming consuming
  | .map _ p | .attempt p | .label p _ | .traced _ p => p.Consuming consuming
  | .count n p => n ≠ 0 ∧ p.Consuming consuming
  | .manyTill _ stop => stop.Consuming consuming
  | .pure _ | .lift _ | .lookAhead _ | .many _ | .getUser | .putUser _ | .modifyUser _
  | .position => False

/-- All that is repeated without a given number is consuming. -/
def Productive (consuming : {α : Type} → ρ α → Prop) {α : Type} : Grammar τ υ ε ρ α → Prop
  | .many p => p.Consuming consuming ∧ p.Productive consuming
  | .manyTill p stop =>
    p.Consuming consuming ∧ p.Productive consuming ∧ stop.Productive consuming
  | .bind p f => p.Productive consuming ∧ ∀ a, (f a).Productive consuming
  | .orElse p q => p.Productive consuming ∧ q.Productive consuming
  | .map _ p | .attempt p | .label p _ | .lookAhead p | .count _ p | .traced _ p =>
    p.Productive consuming
  | .pure _ | .never | .fail _ | .unexpected _ | .lift _ | .rule _ | .getUser | .putUser _
  | .modifyUser _ | .position | .prim _ => True

variable {consuming : {α : Type} → ρ α → Prop} {p : Grammar τ υ ε ρ α} {q : Grammar τ υ ε ρ β}

/-! The forms that are functions. Of parts that run in sequence one is enough. -/

namespace Consuming

theorem andThen (h : p.Consuming consuming ∨ q.Consuming consuming) :
    (p.andThen q).Consuming consuming := h.imp_right fun hq _ => hq

theorem skip (h : p.Consuming consuming ∨ q.Consuming consuming) :
    (p.skip q).Consuming consuming := h.imp_right fun hq _ => hq

theorem between {opening : Grammar τ υ ε ρ γ} (h : opening.Consuming consuming ∨
      p.Consuming consuming ∨ q.Consuming consuming) :
    (Grammar.between opening q p).Consuming consuming := andThen (h.imp_right skip)

theorem choice {ps : List (Grammar τ υ ε ρ α)} (h : ∀ p ∈ ps, p.Consuming consuming) :
    (Grammar.choice ps).Consuming consuming := by
  fun_induction Grammar.choice ps with
  | case1 => trivial
  | case2 p => exact h p List.mem_cons_self
  | case3 p rest _ ih => exact ⟨h p List.mem_cons_self, ih fun q hq => h q (.tail p hq)⟩

theorem many1 (hp : p.Consuming consuming) : p.many1.Consuming consuming := .inl hp

theorem sepBy1 (hp : p.Consuming consuming) : (p.sepBy1 q).Consuming consuming := .inl hp

theorem chainl1 {op : Grammar τ υ ε ρ (α → α → α)} (hp : p.Consuming consuming) :
    (p.chainl1 op).Consuming consuming := .inl hp

end Consuming

namespace Productive

variable (hp : p.Productive consuming)

include hp

theorem many1 (hRound : p.Consuming consuming) : p.many1.Productive consuming :=
  ⟨hp, fun _ => ⟨hRound, hp⟩⟩

theorem skipMany (hRound : p.Consuming consuming) : p.skipMany.Productive consuming := ⟨hRound, hp⟩

theorem sepBy1 (hq : q.Productive consuming)
    (hRound : q.Consuming consuming ∨ p.Consuming consuming) :
    (p.sepBy1 q).Productive consuming :=
  ⟨hp, fun _ => ⟨.andThen hRound, hq, fun _ => hp⟩⟩

theorem sepBy (hq : q.Productive consuming)
    (hRound : q.Consuming consuming ∨ p.Consuming consuming) :
    (p.sepBy q).Productive consuming := ⟨hp.sepBy1 hq hRound, trivial⟩

theorem chainl1 {op : Grammar τ υ ε ρ (α → α → α)} (hOp : op.Productive consuming)
    (hRound : op.Consuming consuming ∨ p.Consuming consuming) :
    (p.chainl1 op).Productive consuming :=
  ⟨hp, fun _ => ⟨hRound.imp_right fun hp _ => hp, hOp, fun _ => hp⟩⟩

end Productive

end Grammar

section

variable {m : Type → Type} [Computation m] {G : Safety m} {σ : Type} [Source σ τ] [Shown τ]
  {consuming : {α : Type} → ρ α → Prop} {perform : {α : Type} → ε α → m α}
  (hPerform : ∀ {α : Type} (e : ε α), G.holds (fun _ => True) (perform e))

theorem Prim.parser_advances (primitive : Prim τ α) :
    Parser.Advances G (fun _ => primitive.IsToken) (primitive.parser : Parser m σ υ α) := by
  intro s
  obtain ⟨consumed, r, hReply, hToken⟩ := primitive.parser_eq_reply (m := m) s
  rw [hReply]
  apply Parser.Advances.reply
  cases r with
  | ok a s' h => exact fun hp => hToken hp rfl
  | error h => trivial

include hPerform

theorem Grammar.parser_advances (rounds : Nat) {rules : {α : Type} → ρ α → Parser m σ υ α}
    (hRules : ∀ {α : Type} (name : ρ α), Parser.Advances G (fun _ => consuming name) (rules name))
    (g : Grammar τ υ ε ρ α) (hg : G.tolerant ∨ g.Productive consuming) :
    Parser.Advances G (fun _ => g.Consuming consuming) (g.parser perform rounds rules) := by
  induction g with
  | pure a => exact fun _ => Parser.Advances.reply False.elim
  | never => exact fun _ => Parser.Advances.reply trivial
  | fail text => exact fun _ => Parser.Advances.reply trivial
  | unexpected text => exact fun _ => Parser.Advances.reply trivial
  | lift effect =>
    exact fun _ => G.bind (hPerform effect) fun _ _ => Parser.Advances.reply False.elim
  | rule name => exact hRules name
  | bind p f ihp ihf =>
    have hf := fun a => ihf a (hg.imp_right fun h => h.2 a)
    exact (ihp (hg.imp_right And.left)).bind hf fun a _ h => h.imp_right fun h => h a
  | map f p ih => exact (ih hg).map fun _ h => h
  | orElse p q ihp ihq =>
    apply Parser.Advances.orElse
    · exact (ihp (hg.imp_right And.left)).mono fun _ => And.left
    · exact (ihq (hg.imp_right And.right)).mono fun _ => And.right
  | attempt p ih => exact (ih hg).attempt
  | label p name ih => exact (ih hg).label name
  | lookAhead p ih => exact (ih hg).lookAhead
  | many p ih => exact (ih (hg.imp_right And.right)).many (hg.imp_right And.left) rounds
  | count n p ih => exact (ih hg).count rounds n
  | manyTill p stop ihp ihStop =>
    have hStop := ihStop (hg.imp_right fun h => h.2.2)
    exact (ihp (hg.imp_right fun h => h.2.1)).manyTill hStop (hg.imp_right And.left) rounds
  | getUser => exact fun _ => Parser.Advances.reply False.elim
  | putUser user => exact fun _ => Parser.Advances.reply False.elim
  | modifyUser f => exact fun _ => Parser.Advances.reply False.elim
  | position => exact fun _ => Parser.Advances.reply False.elim
  | traced name p ih => exact (ih hg).traced name
  | prim primitive => exact primitive.parser_advances

variable {rules : {α : Type} → ρ α → Grammar τ υ ε ρ α}
  (hConsuming : ∀ {α : Type} (name : ρ α), consuming name → (rules name).Consuming consuming)
  (hRules : G.tolerant ∨ ∀ {α : Type} (name : ρ α), (rules name).Productive consuming)

include hConsuming hRules

theorem Rulebook.resolve_advances (rounds depth : Nat) (name : ρ α) :
    Parser.Advances G (fun _ => consuming name)
      (resolve (σ := σ) perform rounds (ofGrammars rules) depth name) := by
  induction depth generalizing α with
  | zero => exact fun _ => G.exhausted
  | succ depth ih =>
    have hBody := (rules name).parser_advances hPerform rounds ih (hRules.imp_right fun h => h name)
    exact fun s => hBody.mono (fun _ => hConsuming name) s

theorem Rulebook.parser_advances (bound : Nat) (g : Grammar τ υ ε ρ α)
    (hg : G.tolerant ∨ g.Productive consuming) :
    Parser.Advances G (fun _ => g.Consuming consuming)
      (parser (σ := σ) perform bound (ofGrammars rules) g) :=
  g.parser_advances hPerform bound (resolve_advances hPerform hConsuming hRules bound bound) hg

end

/-- A success of a consuming grammar is tagged as consumed. Where all that is repeated is consuming,
every safety holds, also one that does not tolerate empty rounds. -/
theorem consuming_rounds_never_empty {m : Type → Type} [Computation m] [UniformComputation m]
    {σ : Type} [Source σ τ] [Shown τ] {rules : {α : Type} → ρ α → Grammar τ υ ε ρ α}
    {consuming : {α : Type} → ρ α → Prop}
    (hConsuming : ∀ {α : Type} (name : ρ α), consuming name → (rules name).Consuming consuming)
    (perform : {α : Type} → ε α → m α) (bound : Nat) (g : Grammar τ υ ε ρ α) (s : State σ υ) :
    let p : Parser m σ υ α := Rulebook.parser perform bound (Rulebook.ofGrammars rules) g
    (g.Consuming consuming →
        Delivers (fun t => t.value.isOk = true → t.consumed = true) (p.observe s)) ∧
      (g.Productive consuming →
        (∀ {α : Type} (name : ρ α), (rules name).Productive consuming) →
        ∀ G : Safety m, (∀ {α : Type} (e : ε α), G.holds (fun _ => True) (perform e)) →
          G.holds (fun _ => True) (p.observe s) ∧ G.holds (fun _ => True) (p.run s)) := by
  intro p
  constructor
  · intro hg
    have hp : p.Advances (.delivery m) fun _ => g.Consuming consuming :=
      Rulebook.parser_advances (fun e => Delivers.anything (perform e)) hConsuming (.inl trivial)
        bound g (.inl trivial)
    exact Delivers.mono (hp.observe s) fun _ ht => Reply.Advanced.consumed_eq_true ht fun _ => hg
  · intro hg hRules G hPerform
    have hp : p.Advances G fun _ => g.Consuming consuming :=
      Rulebook.parser_advances hPerform hConsuming (.inr hRules) bound g (.inr hg)
    exact ⟨G.mono (hp.observe s) fun _ _ => trivial, hp.run s⟩

/-- Rules of a table: a row of sums, and a sum of numbers and of sums in brackets. -/
inductive TableRule : Type → Type where
  | row : TableRule (List Nat)
  | sum : TableRule Nat

namespace TableRule

def symbol (c : Char) : Grammar Rune Unit (Effect Nat) TableRule Rune := .char (.ofChar c)

def term : Grammar Rune Unit (Effect Nat) TableRule Nat :=
  .choice [.between (symbol '(') (symbol ')') (.rule sum), Grammar.digit.many1.map List.length]

def body {α : Type} : TableRule α → Grammar Rune Unit (Effect Nat) TableRule α
  | row => (Grammar.rule sum).sepBy1 (symbol ',')
  | sum => term.chainl1 ((symbol '+').map fun _ => Nat.add)

def table : Grammar Rune Unit (Effect Nat) TableRule Unit :=
  ((Grammar.rule row).sepBy (symbol ';')).andThen Grammar.space.skipMany

def twice : Grammar Rune Unit (Effect Nat) TableRule Unit :=
  (Grammar.lift (.branch [(), ()])).andThen table

theorem term_consuming : term.Consuming fun _ => True := by
  apply Grammar.Consuming.choice
  rw [List.forall_mem_cons, List.forall_mem_singleton]
  exact ⟨.between (.inl trivial), Grammar.Consuming.many1 (p := Grammar.digit) trivial⟩

theorem term_productive : term.Productive fun _ => True :=
  ⟨⟨trivial, fun _ => ⟨trivial, fun _ => trivial⟩⟩,
    Grammar.Productive.many1 (p := Grammar.digit) trivial trivial⟩

theorem body_consuming {α : Type} (name : TableRule α) : name.body.Consuming fun _ => True := by
  cases name with
  | row => exact Grammar.Consuming.sepBy1 (p := .rule sum) trivial
  | sum => exact term_consuming.chainl1

theorem body_productive {α : Type} (name : TableRule α) : name.body.Productive fun _ => True := by
  cases name with
  | row => exact Grammar.Productive.sepBy1 (p := .rule sum) trivial trivial (.inl trivial)
  | sum => exact term_productive.chainl1 trivial (.inl trivial)

theorem table_productive : table.Productive fun _ => True :=
  ⟨Grammar.Productive.sepBy (p := .rule row) trivial trivial (.inl trivial),
    fun _ => Grammar.Productive.skipMany (p := Grammar.space) trivial trivial⟩

/-- What is observed of a grammar on `(12+3),4;5` and a space. -/
def observed (m : Type → Type) [Computation m] [Performs Nat m] {α : Type}
    (g : Grammar Rune Unit (Effect Nat) TableRule α) : m (Tagged (Reply Text Unit α)) :=
  Parser.observe (Rulebook.parser Performs.perform 9 (Rulebook.ofGrammars body) g)
    ⟨.ofBytes [] (utf8 "(12+3),4;5 "), ()⟩

end TableRule

open TableRule

theorem consuming_rounds_never_empty_table :
    (∀ t, observed Plain (.rule .row) = .ok t → t.value.isOk = true → t.consumed = true) ∧
      observed Plain table ≠ .error .emptyRound ∧
      Safety.maybe.holds (fun _ => True) (observed Maybe table) ∧
      (Safety.either Bytes).holds (fun _ => True) (observed (Either Bytes) table) ∧
      Safety.nondet.holds (fun _ => True) (observed Nondet table) ∧
      Safety.writer.holds (fun _ => True) (observed Writer table) ∧
      Safety.trace.holds (fun _ => True) (observed Trace table) ∧
      (Session.fresh.run (Cont.complete (observed (Cont Nat _) twice))).1 ≠ .error .emptyRound := by
  have hGrammar (m : Type → Type) [Computation m] [UniformComputation m] [Performs Nat m]
      {α : Type} (g : Grammar Rune Unit (Effect Nat) TableRule α) :=
    consuming_rounds_never_empty (m := m) (fun name _ => body_consuming name) Performs.perform 9 g
      (⟨.ofBytes [] (utf8 "(12+3),4;5 "), ()⟩ : State Text Unit)
  have hTable (m : Type → Type) [Computation m] [UniformComputation m] [Performs Nat m]
      (G : Safety m)
      (hPerform : ∀ {α : Type} (e : Effect Nat α), G.holds (fun _ => True) (Performs.perform e)) :
      G.holds (fun _ => True) (observed m table) :=
    ((hGrammar m table).2 table_productive body_productive G hPerform).1
  have hPlain := hTable Plain .plain Safety.plain_perform
  refine ⟨?_, ?_, hTable Maybe .maybe Safety.maybe_perform,
    hTable (Either Bytes) (.either Bytes) Safety.either_perform,
    hTable Nondet .nondet Safety.nondet_perform, hTable Writer .writer Safety.writer_perform,
    hTable Trace .trace Safety.trace_perform, ?_⟩
  · exact Plain.delivers_iff.mp ((hGrammar Plain (.rule .row)).1 trivial)
  · intro hEmpty
    rw [hEmpty] at hPlain
    cases hPlain with
    | error hFault => exact hFault rfl
  · have hTwice := (hGrammar (Cont Nat (Tagged (Reply Text Unit Unit))) twice).2
      ⟨trivial, fun _ => table_productive⟩ body_productive (.cont Nat _) Safety.cont_perform
    exact Session.fresh.run_ne_emptyRound (hTwice.1 fun result _ _ => .answer (.final result))

end Descent
