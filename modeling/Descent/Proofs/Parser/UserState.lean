import Descent.Computation.Effect
import Descent.Proofs.Grammar.Correspondence

/-! # The user state does not interfere

A grammar that neither reads nor writes the user state carries it along and does nothing else with
it: the run from another user state is the same run, layer by layer and effect for effect, with the
user state exchanged in its replies. -/

namespace Descent

variable {σ τ υ α α' : Type}

def Reply.withUser (user : υ) : Reply σ υ α → Reply σ υ α
  | .ok a s h => .ok a (s.withUser user) h
  | .error h => .error h

namespace Coupled

variable {m : Type → Type} [Computation m] [UniformComputation m] {r : α → α' → Prop} {x : m α}
  {x' : m α'}

/-- Where one side of a pair determines the other, so does one computation. -/
theorem eq_map {f : α → α'} (h : Coupled r x x') (hr : ∀ a a', r a a' → a' = f a) :
    x' = f <$> x := by
  obtain ⟨y, rfl, rfl⟩ := h
  rw [← LawfulFunctor.comp_map]
  exact congrArg (· <$> y) (funext fun p => hr p.left p.right p.related)

theorem delivers_left (h : Coupled r x x') : Delivers (fun a => ∃ a', r a a') x := by
  obtain ⟨y, rfl, -⟩ := h
  refine ⟨(fun p : Pair r => ⟨p.left, p.right, p.related⟩) <$> y, ?_⟩
  rw [← LawfulFunctor.comp_map]
  rfl

end Coupled

namespace Correspondence

/-- Both sides carry user states of their own, and are the same otherwise. -/
def users (u u' : υ) : Correspondence σ σ υ where
  state s s' := s.user = u ∧ s' = s.withUser u'
  hint := Eq

variable {u u' : υ} [Source σ τ]

theorem users_closed : (users u u' : Correspondence σ σ υ).Closed where
  next {s s'} hs := by
    obtain ⟨hUser, rfl⟩ := hs
    change Option.Rel _ (Source.next? s.input) (Source.next? s.input)
    cases Source.next? s.input with
    | none => exact .none
    | some x => exact .some ⟨rfl, hUser, rfl⟩
  stand _ hs := by
    obtain ⟨-, rfl⟩ := hs
    rfl
  merge := by
    rintro h₁ _ h₂ _ rfl rfl
    rfl
  relabel _ := by
    rintro rfl
    rfl

theorem users_sharesPlaces : (users u u' : Correspondence σ σ υ).SharesPlaces where
  state hs := by
    obtain ⟨-, rfl⟩ := hs
    rfl
  hint h := congrArg Hint.pos h

end Correspondence

namespace Reply.Related

variable {u u' : υ} {r r' : Reply σ υ α}

theorem eq_withUser (h : Related (.users u u') r r') : r' = r.withUser u' := by
  cases h with
  | ok a hs hh => rw [hs.2, show _ = _ from hh, withUser]
  | error hh => rw [show _ = _ from hh, withUser]

theorem user_eq (h : Related (.users u u') r r') {s : State σ υ} (hState : r.state? = some s) :
    s.user = u := by
  cases h with
  | ok a hs hh =>
    cases hState
    exact hs.1
  | error hh => cases hState

end Reply.Related

variable {ε ρ : Type → Type}

/-- The grammar neither reads nor writes the user state. -/
def Grammar.UserFree (g : Grammar τ υ ε ρ α) : Prop := g.Reads True False

variable [Source σ τ] [Shown τ] {m : Type → Type} [Computation m] [UniformComputation m]

theorem Rulebook.corresponds_of_userFree (perform : {α : Type} → ε α → m α) (bound : Nat)
    {rules : {α : Type} → ρ α → Grammar τ υ ε ρ α}
    (hRules : ∀ {α : Type} (name : ρ α), (rules name).UserFree) {g : Grammar τ υ ε ρ α}
    (hg : g.UserFree) (u u' : υ) :
    Parser.Corresponds (.through (.refl m) (.refl m)) (.users u u' : Correspondence σ σ υ)
      (Rulebook.parser perform bound (ofGrammars rules) g)
      (Rulebook.parser perform bound (ofGrammars rules) g) := by
  let S : Simulation m m := .through (.refl m) (.refl m)
  have hTells : S.Tells := by
    unfold Simulation.Tells
    cases (Computation.tell? : Option (Event → m Unit)) with
    | none => exact .none
    | some tell => exact .some fun e => Coupled.refl (tell e)
  have hSupports : Supports S (.users u u' : Correspondence σ σ υ) perform perform
      (fun _ => True) True True False :=
    { closed := Correspondence.users_closed
      perform := fun e _ => Coupled.refl (perform e)
      tells := fun _ => ⟨hTells, Correspondence.users_sharesPlaces⟩
      places := fun _ => Correspondence.users_sharesPlaces
      users := False.elim }
  have hBound : S.bounds bound bound := rfl
  exact Rulebook.parser_corresponds hSupports hBound (fun name => (rules name).asks_anything)
    hRules g.asks_anything hg

theorem user_state_carried_along (perform : {α : Type} → ε α → m α) (bound : Nat)
    (rules : {α : Type} → ρ α → Grammar τ υ ε ρ α)
    (hRules : ∀ {α : Type} (name : ρ α), (rules name).UserFree) {g : Grammar τ υ ε ρ α}
    (hg : g.UserFree) (input : σ) (u u' : υ) :
    let p : Parser m σ υ α := Rulebook.parser perform bound (Rulebook.ofGrammars rules) g
    p ⟨input, u'⟩ = Tagged.map (Reply.withUser u' <$> ·) <$> p ⟨input, u⟩ ∧
    p.observe ⟨input, u'⟩ = Tagged.map (Reply.withUser u') <$> p.observe ⟨input, u⟩ ∧
    (∀ f, p.observe ⟨input, u⟩ = Computation.fault f ↔
      p.observe ⟨input, u'⟩ = Computation.fault f) ∧
    Delivers (fun t => ∀ s, t.value.state? = some s → s.user = u) (p.observe ⟨input, u⟩) := by
  intro p
  have hRuns (u u' : υ) : Parser.Corresponds (.through (.refl m) (.refl m)) (.users u u') p p :=
    Rulebook.corresponds_of_userFree perform bound hRules hg u u'
  have hObserve (u u' : υ) :
      Coupled (Tagged.Related (Reply.Related (.users u u'))) (p.observe ⟨input, u⟩)
        (p.observe ⟨input, u'⟩) :=
    (hRuns u u').observe ⟨rfl, rfl⟩
  have hExchange (u u' : υ) :
      p.observe ⟨input, u'⟩ = Tagged.map (Reply.withUser u') <$> p.observe ⟨input, u⟩ := by
    apply (hObserve u u').eq_map
    rintro _ _ ⟨consumed, hr⟩
    exact congrArg (Tagged.mk consumed) hr.eq_withUser
  refine ⟨?_, hExchange u u', fun f => ⟨fun hFault => ?_, fun hFault => ?_⟩, ?_⟩
  · have hLayers : Coupled (Tagged.Related (Coupled (Reply.Related (.users u u'))))
        (p ⟨input, u⟩) (p ⟨input, u'⟩) := hRuns u u' _ _ ⟨rfl, rfl⟩
    apply hLayers.eq_map
    rintro _ _ ⟨consumed, hInner⟩
    exact congrArg (Tagged.mk consumed) (hInner.eq_map fun _ _ hr => hr.eq_withUser)
  · rw [hExchange u u', hFault, UniformSequencing.map_fault]
  · rw [hExchange u' u, hFault, UniformSequencing.map_fault]
  · apply (hObserve u u').delivers_left.mono
    rintro _ ⟨_, ⟨consumed, hr⟩⟩ s hState
    exact hr.user_eq hState

/-- On `ab` a rune is read or only looked at, and both outcomes are followed, with a 7 or with an 8
as the user state. -/
theorem user_state_carried_along_branching :
    let g : Grammar Rune Nat (Effect Unit) (fun _ => Empty) (List Rune) :=
      (Grammar.lift (.among [true, false])).bind fun move =>
        if move then Grammar.anyToken.count 1 else (Grammar.anyToken.count 2).lookAhead
    let p : Parser Nondet Text Nat (List Rune) :=
      Rulebook.parser Performs.perform 3 (Rulebook.ofGrammars nofun) g
    let start : Text := .ofBytes [] [97, 98]
    p.observe ⟨start, 8⟩ = Tagged.map (Reply.withUser 8) <$> p.observe ⟨start, 7⟩ ∧
      ∃ results, p.observe ⟨start, 7⟩ = .ok results ∧
        results.map Tagged.consumed = [true, false] ∧
        ∀ t ∈ results, ∀ s, t.value.state? = some s → s.user = 7 := by
  intro g p start
  have hg : g.UserFree := by
    refine ⟨trivial, fun move => ?_⟩
    cases move <;> trivial
  obtain ⟨-, hExchange, -, hUser⟩ :=
    user_state_carried_along (m := Nondet) Performs.perform 3 nofun nofun hg start 7 8
  exact ⟨hExchange, _, rfl, rfl, Nondet.delivers_iff.mp hUser _ rfl⟩

end Descent
