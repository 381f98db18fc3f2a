import Descent.Proofs.Parser.Correspondence

/-! # Grammars run twice

One induction over grammars for all statements about two runs: in two base computations, over two
inputs, or with two user states. Rules are followed to the same depth on both sides, or to a depth
that the simulation allows for. -/

namespace Descent

variable {σ σ' τ υ : Type} {ε ρ : Type → Type}

namespace Grammar

/-- The grammar asks only for the given effects, and records events only where this is allowed. -/
def Asks (effects : {α : Type} → ε α → Prop) (records : Prop) {α : Type} :
    Grammar τ υ ε ρ α → Prop
  | .lift effect => effects effect
  | .traced _ p => records ∧ p.Asks effects records
  | .bind p f => p.Asks effects records ∧ ∀ a, (f a).Asks effects records
  | .orElse p q => p.Asks effects records ∧ q.Asks effects records
  | .manyTill p stop => p.Asks effects records ∧ stop.Asks effects records
  | .map _ p | .attempt p | .label p _ | .lookAhead p | .many p | .count _ p =>
    p.Asks effects records
  | .pure _ | .never | .fail _ | .unexpected _ | .rule _ | .getUser | .putUser _ | .modifyUser _
  | .position | .prim _ => True

/-- The grammar looks at positions and at the user state only where this is allowed. -/
def Reads (places users : Prop) {α : Type} : Grammar τ υ ε ρ α → Prop
  | .position => places
  | .getUser | .putUser _ | .modifyUser _ => users
  | .bind p f => p.Reads places users ∧ ∀ a, (f a).Reads places users
  | .orElse p q => p.Reads places users ∧ q.Reads places users
  | .manyTill p stop => p.Reads places users ∧ stop.Reads places users
  | .map _ p | .attempt p | .label p _ | .lookAhead p | .many p | .count _ p | .traced _ p =>
    p.Reads places users
  | .pure _ | .never | .fail _ | .unexpected _ | .rule _ | .lift _ | .prim _ => True

theorem asks_anything {α : Type} (g : Grammar τ υ ε ρ α) : g.Asks (fun _ => True) True := by
  induction g with
  | bind p f ihp ihf => exact ⟨ihp, ihf⟩
  | orElse p q ihp ihq => exact ⟨ihp, ihq⟩
  | manyTill p stop ihp ihStop => exact ⟨ihp, ihStop⟩
  | traced name p ih => exact ⟨trivial, ih⟩
  | map f p ih => exact ih
  | attempt p ih => exact ih
  | label p name ih => exact ih
  | lookAhead p ih => exact ih
  | many p ih => exact ih
  | count n p ih => exact ih
  | _ => trivial

theorem reads_anything {α : Type} (g : Grammar τ υ ε ρ α) : g.Reads True True := by
  induction g with
  | bind p f ihp ihf => exact ⟨ihp, ihf⟩
  | orElse p q ihp ihq => exact ⟨ihp, ihq⟩
  | manyTill p stop ihp ihStop => exact ⟨ihp, ihStop⟩
  | map f p ih => exact ih
  | attempt p ih => exact ih
  | label p name ih => exact ih
  | lookAhead p ih => exact ih
  | many p ih => exact ih
  | count n p ih => exact ih
  | traced name p ih => exact ih
  | _ => trivial

end Grammar

variable [Source σ τ] [Source σ' τ] [Shown τ] {m n : Type → Type} [Computation m] [Computation n]
  {S : Simulation m n} {K : Correspondence σ σ' υ} {perform : {α : Type} → ε α → m α}
  {perform' : {α : Type} → ε α → n α} {effects : {α : Type} → ε α → Prop}
  {records places users : Prop}

/-- The two sides support whatever a grammar is allowed to ask for. -/
structure Supports (S : Simulation m n) (K : Correspondence σ σ' υ)
    (perform : {α : Type} → ε α → m α) (perform' : {α : Type} → ε α → n α)
    (effects : {α : Type} → ε α → Prop) (records places users : Prop) : Prop where
  closed : K.Closed
  perform {α : Type} (e : ε α) : effects e → S.rel Eq (perform e) (perform' e)
  tells : records → S.Tells ∧ K.SharesPlaces
  places : places → K.SharesPlaces
  users : users → K.SharesUsers

theorem Grammar.parser_corresponds
    (h : Supports S K perform perform' effects records places users) {rounds rounds' : Nat}
    (hRounds : S.bounds rounds rounds') {rules : {α : Type} → ρ α → Parser m σ υ α}
    {rules' : {α : Type} → ρ α → Parser n σ' υ α}
    (hRules : ∀ {α : Type} (name : ρ α), Parser.Corresponds S K (rules name) (rules' name))
    {α : Type} (g : Grammar τ υ ε ρ α) (hAsks : g.Asks effects records)
    (hReads : g.Reads places users) :
    Parser.Corresponds S K (g.parser perform rounds rules) (g.parser perform' rounds' rules') := by
  have hK := h.closed
  induction g with
  | pure a => exact .pure hK a
  | never => exact .refuse hK []
  | fail text => exact .refuse hK [⟨.remark, text⟩]
  | unexpected text => exact .refuse hK [⟨.unexpected, text⟩]
  | lift effect => exact .lift hK (h.perform effect hAsks)
  | rule name => exact hRules name
  | bind p f ihp ihf =>
    exact .bind hK (ihp hAsks.1 hReads.1) fun a => ihf a (hAsks.2 a) (hReads.2 a)
  | map f p ih => exact (ih hAsks hReads).map f
  | orElse p q ihp ihq => exact .orElse hK (ihp hAsks.1 hReads.1) (ihq hAsks.2 hReads.2)
  | attempt p ih => exact (ih hAsks hReads).attempt
  | label p name ih => exact .label hK (ih hAsks hReads) name
  | lookAhead p ih => exact .lookAhead hK (ih hAsks hReads)
  | many p ih => exact .gather hK hRounds .untilFailure ((ih hAsks hReads).map Yield.value)
  | count k p ih =>
    change Parser.Corresponds S K (Parser.count rounds k _) (Parser.count rounds' k _)
    unfold Parser.count
    split
    · exact .pure hK []
    · exact .gather hK hRounds (.times k) ((ih hAsks hReads).map Yield.value)
  | manyTill p stop ihp ihStop =>
    exact .gather hK hRounds .untilOver
      (.orElse hK ((ihStop hAsks.2 hReads.2).map fun _ => Yield.over)
        ((ihp hAsks.1 hReads.1).map Yield.value))
  | getUser => exact .getUser hK (h.users hReads)
  | putUser user => exact .putUser hK (h.users hReads) user
  | modifyUser f => exact .modifyUser hK (h.users hReads) f
  | position => exact .position hK (h.places hReads)
  | traced name p ih =>
    obtain ⟨hTell, hPlaces⟩ := h.tells hAsks.1
    exact .traced hTell hPlaces (ih hAsks.2 hReads) name
  | prim primitive => exact primitive.parser_corresponds hK

theorem Rulebook.resolve_corresponds
    (h : Supports S K perform perform' effects records places users) {rounds rounds' : Nat}
    (hRounds : S.bounds rounds rounds') {rules : {α : Type} → ρ α → Grammar τ υ ε ρ α}
    (hAsks : ∀ {α : Type} (name : ρ α), (rules name).Asks effects records)
    (hReads : ∀ {α : Type} (name : ρ α), (rules name).Reads places users) (depth : Nat) {α : Type}
    (name : ρ α) :
    Parser.Corresponds S K (resolve perform rounds (ofGrammars rules) depth name)
      (resolve perform' rounds' (ofGrammars rules) depth name) := by
  induction depth generalizing α with
  | zero => exact fun _ _ _ => S.fault .exhausted
  | succ depth ih =>
    exact (rules name).parser_corresponds h hRounds ih (hAsks name) (hReads name)

theorem Rulebook.parser_corresponds
    (h : Supports S K perform perform' effects records places users) {bound : Nat}
    (hBound : S.bounds bound bound) {rules : {α : Type} → ρ α → Grammar τ υ ε ρ α}
    (hAsks : ∀ {α : Type} (name : ρ α), (rules name).Asks effects records)
    (hReads : ∀ {α : Type} (name : ρ α), (rules name).Reads places users) {α : Type}
    {g : Grammar τ υ ε ρ α} (hgAsks : g.Asks effects records) (hgReads : g.Reads places users) :
    Parser.Corresponds S K (Rulebook.parser perform bound (ofGrammars rules) g)
      (Rulebook.parser perform' bound (ofGrammars rules) g) :=
  g.parser_corresponds h hBound (resolve_corresponds h hBound hAsks hReads bound) hgAsks hgReads

end Descent
