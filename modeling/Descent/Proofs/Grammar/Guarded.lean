import Descent.Proofs.Parser.Ending

/-! # Guarded grammars end

A reference to a rule is guarded when a token has been read before it in the body that it stands in.
Where all references in rule bodies are guarded, every run ends, from every state and with any
grammar on top: between two entries into one rule the input has become shorter, whatever `attempt`
and `lookAhead` go back over. A rule may also be written down inside the body of another; entering
it there takes no guard, since bodies are nested only so deep. -/

namespace Descent

open Filter Source

variable {σ τ υ : Type} {ε ρ : Type → Type}

/-- The primitive cannot succeed without reading. -/
def Prim.IsToken {τ α : Type} : Prim τ α → Prop
  | .satisfy _ => True
  | .eof => False
  | .literal text => text ≠ []
  | .keyword .. => True

namespace Grammar

def IsToken {α : Type} : Grammar τ υ ε ρ α → Prop
  | .prim primitive => primitive.IsToken
  | .label p _ => p.IsToken
  | _ => False

/-- Every reference to a rule stands behind a token, or else it is one of the direct ones. -/
def Guarded (direct : {α : Type} → ρ α → Prop) {α : Type} : Grammar τ υ ε ρ α → Prop
  | .rule name => direct name
  | .bind p f => p.Guarded direct ∧ (p.IsToken ∨ ∀ a, (f a).Guarded direct)
  | .orElse p q => p.Guarded direct ∧ q.Guarded direct
  | .manyTill p stop => p.Guarded direct ∧ stop.Guarded direct
  | .map _ p | .attempt p | .label p _ | .lookAhead p | .many p | .count _ p | .traced _ p =>
    p.Guarded direct
  | .pure _ | .never | .fail _ | .unexpected _ | .lift _ | .getUser | .putUser _ | .modifyUser _
  | .position | .prim _ => True

theorem guarded_of_forall {direct : {α : Type} → ρ α → Prop}
    (h : ∀ {α : Type} (name : ρ α), direct name) {α : Type} (g : Grammar τ υ ε ρ α) :
    g.Guarded direct := by
  induction g with
  | rule name => exact h name
  | bind p f ihp ihf => exact ⟨ihp, .inr ihf⟩
  | orElse p q ihp ihq => exact ⟨ihp, ihq⟩
  | manyTill p stop ihp ihStop => exact ⟨ihp, ihStop⟩
  | map f p ih => exact ih
  | attempt p ih => exact ih
  | label p name ih => exact ih
  | lookAhead p ih => exact ih
  | many p ih => exact ih
  | count n p ih => exact ih
  | traced name p ih => exact ih
  | _ => trivial

end Grammar

variable [Source σ τ] [Shown τ] (value : {α : Type} → ε α → α)
  (rules : {α : Type} → ρ α → Grammar τ υ ε ρ α)

/-- The plain parser of a grammar under bounds on rounds and depth; its effects deliver values. -/
def Grammar.within {α : Type} (g : Grammar τ υ ε ρ α) (b : Nat × Nat) : Parser Plain σ υ α :=
  g.parser (fun e => .ok (value e)) b.1
    (Rulebook.resolve (fun e => .ok (value e)) b.1 (Rulebook.ofGrammars rules) b.2)

theorem Grammar.within_keeps {α : Type} (g : Grammar τ υ ε ρ α) (b : Nat × Nat) :
    Parser.Keeps Contract.tag (g.within value rules b : Parser Plain σ υ α) :=
  g.parser_keeps Contract.tag_closed _ b.1
    (Rulebook.resolve_keeps Contract.tag_closed _ b.1 rules b.2)

theorem Parser.view_of_eq_reply {α : Type} {p : Parser Plain σ υ α} {s : State σ υ}
    {consumed : Bool} {r : Reply σ υ α} (h : p s = reply consumed r) :
    p.view (.refl Plain) s = .ok ⟨consumed, r⟩ := by
  change p.observe s = _
  unfold observe
  rw [h]
  rfl

theorem Prim.parser_eq_reply {m : Type → Type} [Computation m] {α : Type} (primitive : Prim τ α)
    (s : State σ υ) : ∃ consumed r, (primitive.parser : Parser m σ υ α) s =
      Parser.reply consumed r ∧ (primitive.IsToken → r.isOk = true → consumed = true) := by
  cases primitive with
  | satisfy test =>
    change ∃ consumed r, Parser.satisfy test s = Parser.reply consumed r ∧ _
    unfold Parser.satisfy
    dsimp only
    split
    · exact ⟨_, _, rfl, fun _ h => nomatch h⟩
    · split
      · exact ⟨_, _, rfl, fun _ _ => rfl⟩
      · exact ⟨_, _, rfl, fun _ h => nomatch h⟩
  | eof =>
    change ∃ consumed r, Parser.eof s = Parser.reply consumed r ∧ _
    unfold Parser.eof
    split <;> exact ⟨_, _, rfl, fun h => h.elim⟩
  | literal text =>
    change ∃ consumed r, Parser.literal text s = Parser.reply consumed r ∧ _
    unfold Parser.literal
    dsimp only
    split
    · refine ⟨_, _, rfl, fun hText _ => ?_⟩
      cases text with
      | nil => exact absurd rfl hText
      | cons b rest => rfl
    · exact ⟨_, _, rfl, fun _ h => nomatch h⟩
  | keyword distance words =>
    change ∃ consumed r, Parser.keyword distance words s = Parser.reply consumed r ∧ _
    unfold Parser.keyword
    dsimp only
    split
    · exact ⟨_, _, rfl, fun _ _ => rfl⟩
    · exact ⟨_, _, rfl, fun _ h => nomatch h⟩

theorem Prim.view_eq_ok {α : Type} (primitive : Prim τ α) (s : State σ υ) :
    ∃ consumed r, (primitive.parser : Parser Plain σ υ α).view (.refl Plain) s =
      .ok ⟨consumed, r⟩ ∧ (primitive.IsToken → r.isOk = true → consumed = true) := by
  obtain ⟨consumed, r, hReply, hToken⟩ := primitive.parser_eq_reply (m := Plain) s
  exact ⟨consumed, r, Parser.view_of_eq_reply hReply, hToken⟩

theorem Grammar.IsToken.consumed {α : Type} {g : Grammar τ υ ε ρ α} (hg : g.IsToken)
    {b : Nat × Nat} {s s' : State σ υ} {consumed : Bool} {a : α} {h : Hint}
    (hSeen : (g.within value rules b).view (.refl Plain) s = .ok ⟨consumed, .ok a s' h⟩) :
    consumed = true := by
  induction g with
  | prim primitive =>
    obtain ⟨consumed', r, hOk, hToken⟩ := primitive.view_eq_ok s
    cases hOk.symm.trans hSeen
    exact hToken hg rfl
  | label p name ih =>
    change (Parser.label (p.within value rules b) name).view (.refl Plain) s = _ at hSeen
    rw [Parser.view_label] at hSeen
    cases hInner : (p.within value rules b).view (.refl Plain) s with
    | error f =>
      rw [hInner] at hSeen
      cases hSeen
    | ok t =>
      rw [hInner] at hSeen
      have hLabel : t.label name = ⟨consumed, .ok a s' h⟩ := Except.ok.inj hSeen
      obtain ⟨_ | _, _ | _⟩ := t <;> cases hLabel <;> exact ih hg hInner
  | _ => exact hg.elim

namespace Grammar

variable {value rules} {n : Nat}

theorem endsWithin_of_guarded {direct : {α : Type} → ρ α → Prop}
    (hDirect : ∀ {α : Type} (name : ρ α), direct name →
      Parser.EndsWithin (σ := σ) n ((rule name).within value rules))
    (hLater : ∀ {α : Type} (g : Grammar τ υ ε ρ α) (s : State σ υ), size s.input < n →
      Ends fun b => (g.within value rules b).view (.refl Plain) s)
    {α : Type} (g : Grammar τ υ ε ρ α) (hg : g.Guarded direct) :
    Parser.EndsWithin (σ := σ) n (g.within value rules) := by
  induction g with
  | pure a => exact fun s _ => .ok _
  | never => exact fun s _ => .ok _
  | fail text => exact fun s _ => .ok _
  | unexpected text => exact fun s _ => .ok _
  | lift effect => exact fun s _ => .ok _
  | getUser => exact fun s _ => .ok _
  | putUser user => exact fun s _ => .ok _
  | modifyUser f => exact fun s _ => .ok _
  | position => exact fun s _ => .ok _
  | rule name => exact hDirect name hg
  | bind p f ihp ihf =>
    apply Parser.EndsWithin.bind (ihp hg.1)
    intro b s s' consumed a h hs hSeen
    have hMoved : Moved s.input consumed s'.input := (p.within_keeps value rules b).moved hSeen
    rcases hg.2 with hToken | hf
    · -- Behind a token less is left of the input, so that there any grammar ends.
      obtain rfl := hToken.consumed value rules hSeen
      exact hLater (f a) s' (hMoved.size_lt.trans_le hs)
    · exact ihf a (hf a) s' (hMoved.size_le.trans hs)
  | map f p ih => exact (ih hg).map f
  | orElse p q ihp ihq => exact (ihp hg.1).orElse (ihq hg.2)
  | attempt p ih => exact (ih hg).attempt
  | label p name ih => exact (ih hg).label name
  | lookAhead p ih => exact (ih hg).lookAhead
  | many p ih =>
    exact .gather (fun _ => rfl) (fun b => (p.within_keeps value rules b).map _) ((ih hg).map _)
      nofun
  | count k p ih =>
    change Parser.EndsWithin n fun b => Parser.count b.1 k (p.within value rules b)
    unfold Parser.count
    split
    · exact fun s _ => .ok _
    · rename_i hk
      exact .gather nofun (fun b => (p.within_keeps value rules b).map _) ((ih hg).map _)
        (fun h => hk (Option.some.inj h))
  | manyTill p stop ihp ihStop =>
    refine .gather (fun _ => rfl) (fun b => ?_) (((ihStop hg.2).map _).orElse ((ihp hg.1).map _))
      nofun
    exact .orElse Contract.tag_closed ((stop.within_keeps value rules b).map _)
      ((p.within_keeps value rules b).map _)
  | traced name p ih => exact ih hg
  | prim primitive =>
    intro s _
    obtain ⟨consumed, r, hOk, _⟩ := primitive.view_eq_ok s
    exact .of_eq _ (fun _ => hOk) nofun

theorem rule_endsWithin {α : Type} {name : ρ α}
    (hBody : Parser.EndsWithin (σ := σ) n ((rules name).within value rules)) :
    Parser.EndsWithin (σ := σ) n ((rule name).within value rules) := by
  intro s hs
  obtain ⟨outcome, hOutcome, hFault⟩ := hBody s hs
  obtain ⟨least, hLeast⟩ := eventually_atTop.mp hOutcome
  refine ⟨outcome, eventually_atTop.mpr ⟨(least.1, least.2 + 1), ?_⟩, hFault⟩
  rintro ⟨rounds, depth⟩ ⟨hRounds, hDepth⟩
  have hDeep : 1 ≤ depth := (Nat.le_add_left 1 least.2).trans hDepth
  obtain ⟨depth, rfl⟩ : ∃ inner, depth = inner + 1 := Nat.exists_eq_add_of_le' hDeep
  exact hLeast (rounds, depth) ⟨hRounds, Nat.le_of_succ_le_succ hDepth⟩

end Grammar

/-- In the body of every rule a reference is guarded, or it enters a rule that is written down in
that body. -/
def GuardedRules : Prop :=
  ∃ inside : (α : Type) × ρ α → (α : Type) × ρ α → Prop, WellFounded inside ∧
    ∀ {α : Type} (name : ρ α), (rules name).Guarded fun other => inside ⟨_, other⟩ ⟨α, name⟩

variable {rules}

theorem GuardedRules.endsWithin (hRules : GuardedRules rules) (n : Nat) {α : Type}
    (g : Grammar τ υ ε ρ α) : Parser.EndsWithin (σ := σ) n (g.within value rules) := by
  obtain ⟨inside, hInside, hGuarded⟩ := hRules
  -- On what is left of the input, and for the rules at that input on their nesting.
  induction n using Nat.strong_induction_on generalizing α with
  | _ n ih =>
    have hLater : ∀ {α : Type} (g : Grammar τ υ ε ρ α) (s : State σ υ), size s.input < n →
        Ends fun b => (g.within value rules b).view (.refl Plain) s :=
      fun g s hs => ih _ hs g s le_rfl
    have hRule : ∀ named : (α : Type) × ρ α,
        Parser.EndsWithin (σ := σ) n ((Grammar.rule named.2).within value rules) := by
      intro named
      induction named using hInside.induction with
      | _ named ihInside =>
        apply Grammar.rule_endsWithin
        exact Grammar.endsWithin_of_guarded (fun other hOther => ihInside ⟨_, other⟩ hOther) hLater
          (rules named.2) (hGuarded named.2)
    exact Grammar.endsWithin_of_guarded (fun name (_ : True) => hRule ⟨_, name⟩) hLater g
      (Grammar.guarded_of_forall (fun _ => trivial) g)

theorem guarded_run_ends (hRules : GuardedRules rules) {α : Type} (g : Grammar τ υ ε ρ α)
    (s : State σ υ) :
    ∃ outcome : Plain (Tagged (Reply σ υ α)), (∀ f, outcome = .error f → f = .emptyRound) ∧
      ∃ least, ∀ bound ≥ least,
        let p : Parser Plain σ υ α :=
          Rulebook.parser (fun e => .ok (value e)) bound (Rulebook.ofGrammars rules) g
        p.observe s = outcome ∧ p.run s = Tagged.value <$> outcome := by
  obtain ⟨outcome, hOutcome, hFault⟩ := hRules.endsWithin value (size s.input) g s le_rfl
  obtain ⟨least, hLeast⟩ := eventually_atTop.mp hOutcome
  refine ⟨outcome, hFault, max least.1 least.2, ?_⟩
  intro bound hBound p
  have hObserve : p.observe s = outcome :=
    hLeast (bound, bound) ⟨(le_max_left _ _).trans hBound, (le_max_right _ _).trans hBound⟩
  refine ⟨hObserve, ?_⟩
  rw [← hObserve]
  simp [Parser.run, Parser.observe]

/-- Rules of nested words: a group is a group in brackets or else a word, and a word is a letter and
a word, or nothing. -/
inductive NestedRule : Type → Type where
  | group : NestedRule Unit
  | word : NestedRule Unit

namespace NestedRule

def body {α : Type} : NestedRule α → Grammar Rune Unit (fun _ => Empty) NestedRule α
  | group =>
    (Grammar.between (Grammar.char (.ofChar '(')) (Grammar.char (.ofChar ')')) (.rule group)).orElse
      (.rule word)
  | word => (Grammar.letter.andThen (.rule word)).orElse (.pure ())

def rank : (α : Type) × NestedRule α → Nat
  | ⟨_, group⟩ => 1
  | ⟨_, word⟩ => 0

theorem guardedRules : GuardedRules body := by
  refine ⟨InvImage (· < ·) rank, InvImage.wf rank Nat.lt_wfRel.wf, ?_⟩
  intro α name
  cases name with
  | group => exact ⟨⟨trivial, .inl trivial⟩, Nat.zero_lt_one⟩
  | word => exact ⟨⟨trivial, .inl trivial⟩, trivial⟩

end NestedRule

/-- Groups end one after another on `(a)`, also where an empty word stops their repetition. -/
theorem guarded_run_ends_nested :
    let g : Grammar Rune Unit (fun _ => Empty) NestedRule (List Unit) := (Grammar.rule .group).many
    let start : State Text Unit := ⟨.ofBytes [] [40, 97, 41], ()⟩
    GuardedRules NestedRule.body ∧
      ∃ outcome : Plain (Tagged (Reply Text Unit (List Unit))),
        (∀ f, outcome = .error f → f = .emptyRound) ∧ ∃ least, ∀ bound ≥ least,
          let p : Parser Plain Text Unit (List Unit) :=
            Rulebook.parser (fun e => .ok e.elim) bound (Rulebook.ofGrammars NestedRule.body) g
          p.observe start = outcome ∧ p.run start = Tagged.value <$> outcome := by
  intro g start
  exact ⟨NestedRule.guardedRules, guarded_run_ends Empty.elim NestedRule.guardedRules g start⟩

end Descent
