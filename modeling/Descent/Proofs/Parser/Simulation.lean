import Descent.Proofs.Grammar.Correspondence

/-! # One grammar in two base computations

From the same state, what a grammar becomes in two base computations is related by every simulation,
layer by layer: the tags agree, the outer computations are related, and so are the inner ones at
equal replies. -/

namespace Descent

variable {σ τ υ : Type} {ε ρ : Type → Type}

/-- States and hints are the same on both sides. -/
def Correspondence.same : Correspondence σ σ υ where
  state := Eq
  hint := Eq

theorem Reply.related_same {α : Type} :
    Reply.Related (α := α) (.same : Correspondence σ σ υ) = Eq := by
  funext r r'
  apply propext
  constructor
  · rintro (⟨a, rfl, rfl⟩ | rfl) <;> rfl
  · rintro rfl
    cases r with
    | ok a s h => exact .ok a rfl rfl
    | error h => exact .error rfl

namespace Correspondence

variable [Source σ τ]

theorem same_closed : (same : Correspondence σ σ υ).Closed where
  next {s s'} hs := by
    cases hs
    cases Source.next? s.input with
    | none => exact .none
    | some x => exact .some ⟨rfl, rfl⟩
  stand _ hs := by rw [show _ = _ from hs]; rfl
  merge h h' := by rw [show _ = _ from h, show _ = _ from h']; rfl
  relabel _ h := by rw [show _ = _ from h]; rfl

theorem same_sharesPlaces : (same : Correspondence σ σ υ).SharesPlaces where
  state hs := congrArg State.pos hs
  hint h := congrArg Hint.pos h

theorem same_sharesUsers : (same : Correspondence σ σ υ).SharesUsers where
  user hs := congrArg State.user hs
  withUser user hs := congrArg (State.withUser · user) hs

end Correspondence

variable {m n : Type → Type} [Computation m] [Computation n] {S : Simulation m n}

namespace Parser

/-- The parsers are related from every state, in both layers. -/
def Related (S : Simulation m n) {α : Type} (p : Parser m σ υ α) (p' : Parser n σ υ α) : Prop :=
  ∀ s, S.rel (Tagged.Related (S.rel Eq)) (p s) (p' s)

variable {α : Type} {p : Parser m σ υ α} {p' : Parser n σ υ α}

theorem related_iff : Related S p p' ↔ Corresponds S .same p p' := by
  unfold Related Corresponds
  rw [Reply.related_same]
  constructor
  · rintro h s _ rfl
    exact h s
  · exact fun h s => h s s rfl

theorem Related.observe (hp : Related S p p') (s : State σ υ) :
    S.rel Eq (p.observe s) (p'.observe s) := by
  apply S.bind (hp s)
  rintro _ _ ⟨consumed, hInner⟩
  exact S.bind_eq hInner fun r => S.pure rfl

theorem Related.run (hp : Related S p p') (s : State σ υ) : S.rel Eq (p.run s) (p'.run s) := by
  apply S.bind (hp s)
  rintro _ _ ⟨consumed, hInner⟩
  exact hInner

end Parser

variable [Source σ τ]

section

variable {effects : {α : Type} → ε α → Prop} {records : Prop}
  {perform : {α : Type} → ε α → m α} {perform' : {α : Type} → ε α → n α}

theorem Supports.same
    (hPerform : ∀ {α : Type} (e : ε α), effects e → S.rel Eq (perform e) (perform' e))
    (hTell : records → S.Tells) :
    Supports S (.same : Correspondence σ σ υ) perform perform' effects records True True where
  closed := Correspondence.same_closed
  perform := hPerform
  tells h := ⟨hTell h, Correspondence.same_sharesPlaces⟩
  places _ := Correspondence.same_sharesPlaces
  users _ := Correspondence.same_sharesUsers

variable [Shown τ]

theorem Grammar.parser_related
    (hPerform : ∀ {α : Type} (e : ε α), effects e → S.rel Eq (perform e) (perform' e))
    (hTell : records → S.Tells) {rounds rounds' : Nat} (hRounds : S.bounds rounds rounds')
    {rules : {α : Type} → ρ α → Parser m σ υ α} {rules' : {α : Type} → ρ α → Parser n σ υ α}
    (hRules : ∀ {α : Type} (name : ρ α), Parser.Related S (rules name) (rules' name)) {α : Type}
    (g : Grammar τ υ ε ρ α) (hg : g.Asks effects records) :
    Parser.Related S (g.parser perform rounds rules) (g.parser perform' rounds' rules') :=
  Parser.related_iff.mpr (g.parser_corresponds (.same hPerform hTell) hRounds
    (fun name => Parser.related_iff.mp (hRules name)) hg g.reads_anything)

theorem Rulebook.parser_related
    (hPerform : ∀ {α : Type} (e : ε α), effects e → S.rel Eq (perform e) (perform' e))
    (hTell : records → S.Tells) {bound : Nat} (hBound : S.bounds bound bound)
    {rules : {α : Type} → ρ α → Grammar τ υ ε ρ α}
    (hRules : ∀ {α : Type} (name : ρ α), (rules name).Asks effects records) {α : Type}
    (g : Grammar τ υ ε ρ α) (hg : g.Asks effects records) :
    Parser.Related S (Rulebook.parser (σ := σ) perform bound (ofGrammars rules) g)
      (Rulebook.parser perform' bound (ofGrammars rules) g) :=
  Parser.related_iff.mpr (Rulebook.parser_corresponds (.same hPerform hTell) hBound hRules
    (fun name => (rules name).reads_anything) hg g.reads_anything)

end

variable [Shown τ]

/-- Where a plain run ends short of its bound, so does every run with a larger one, with the same
outcome. -/
theorem Rulebook.observe_eq_of_le (perform : {α : Type} → ε α → Plain α)
    (rules : {α : Type} → ρ α → Grammar τ υ ε ρ α) {α : Type} (g : Grammar τ υ ε ρ α)
    (s : State σ υ) {bound bound' : Nat} (hBound : bound ≤ bound')
    (hEnds : (Rulebook.parser perform bound (ofGrammars rules) g).observe s ≠ .error .exhausted) :
    (Rulebook.parser perform bound' (ofGrammars rules) g).observe s =
      (Rulebook.parser perform bound (ofGrammars rules) g).observe s := by
  have hPerform : ∀ {α : Type} (e : ε α), True →
      Simulation.moreRounds.rel Eq (perform e) (perform e) := by
    intro α e _
    cases perform e with
    | ok a => exact .ok rfl
    | error f => exact .error f
  have hTell : True → Simulation.moreRounds.Tells := fun _ => .none
  have hResolved : ∀ (depth depth' : Nat), depth ≤ depth' → ∀ {α : Type} (name : ρ α),
      Parser.Related Simulation.moreRounds
        (resolve (σ := σ) perform bound (ofGrammars rules) depth name)
        (resolve perform bound' (ofGrammars rules) depth' name) := by
    intro depth
    induction depth with
    | zero => exact fun depth' _ {_} name s => .exhausted _
    | succ depth ih =>
      intro depth' hDepth α name s
      obtain ⟨more, rfl⟩ : ∃ more, depth' = more + 1 := ⟨depth' - 1, by omega⟩
      exact (rules name).parser_related hPerform hTell hBound (ih more (by omega))
        (rules name).asks_anything s
  have hRelated := g.parser_related hPerform hTell hBound (hResolved bound bound' hBound)
    g.asks_anything
  exact (hRelated.observe s).eq hEnds

end Descent
