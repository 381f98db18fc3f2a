import Descent.Proofs.Parser.Equivalence
import Descent.Proofs.Parser.HintPosition

/-! # Laws of sequencing

Up to equivalence, parsers obey the monad laws, hints included. Associativity rests on that of
joining hints and asks nothing of the parsers. The unit laws do: the unknown hint of `Parser.pure`
is joined to the hint of its neighbour, and where that is unknown too it must not stand before it.
Parsers built from grammars keep their hints at or behind their states, which is enough; for parsers
made by hand nothing more than this condition is claimed. -/

namespace Descent

open Source

variable {m n : Type → Type} [Computation m] [Computation n] {σ τ υ α β γ : Type}

theorem Reply.after_after (earlier later : Hint) (r : Reply σ υ α) :
    (r.after later).after earlier = r.after (earlier.merge later) := by
  cases r <;> simp only [after, mapHint, Hint.merge_assoc]

namespace Tagged

theorem follow_follow (consumed consumed' : Bool) (h h' : Hint) (t : Tagged (Reply σ υ α)) :
    follow consumed h (follow consumed' h' t) =
      follow (consumed || consumed') (if consumed' then h' else h.merge h') t := by
  obtain ⟨last, r⟩ := t
  cases last <;> cases consumed' <;> simp [follow, Reply.after_after]

theorem map_id (t : Tagged (Reply σ υ α)) : t.map (Reply.map id) = t := by
  obtain ⟨consumed, r⟩ := t
  cases r <;> rfl

theorem map_map (f : α → β) (g : β → γ) (t : Tagged (Reply σ υ α)) :
    (t.map (Reply.map f)).map (Reply.map g) = t.map (Reply.map (g ∘ f)) := by
  obtain ⟨consumed, r⟩ := t
  cases r <;> rfl

theorem map_follow (f : α → β) (consumed : Bool) (h : Hint) (t : Tagged (Reply σ υ α)) :
    (t.follow consumed h).map (Reply.map f) = (t.map (Reply.map f)).follow consumed h := by
  obtain ⟨consumed', r⟩ := t
  cases consumed' <;> cases r <;> rfl

variable [Source σ τ]

def settle (f : α → β) : Tagged (Reply σ υ α) → Tagged (Reply σ υ β)
  | ⟨consumed, .ok a s h⟩ => ⟨consumed, .ok (f a) s (h.merge (.unknown s.pos))⟩
  | ⟨consumed, .error h⟩ => ⟨consumed, .error h⟩

/-- An unknown hint of a success is not left behind by its state. -/
def Settled (t : Tagged (Reply σ υ α)) : Prop :=
  ∀ a s h, t.value = .ok a s h → h.isUnknown → s.pos.offset ≤ h.pos.offset

theorem Settled.settle_eq {t : Tagged (Reply σ υ α)} (ht : t.Settled) (f : α → β) :
    t.settle f = t.map (Reply.map f) := by
  obtain ⟨consumed, r⟩ := t
  cases r with
  | error h => rfl
  | ok a s h =>
    have hMerge : h.merge (.unknown s.pos) = h :=
      Hint.merge_unknown (Hint.rank_unknown_le (ht a s h rfl))
    rw [settle, hMerge]
    rfl

end Tagged

namespace HintSound

variable [Source σ τ] {s : State σ υ} {r : Reply σ υ α}

theorem settled (hr : HintSound s r) (consumed : Bool) : (Tagged.mk consumed r).Settled := by
  rintro a s' h rfl _
  exact hr.behindSuccess s' rfl

theorem after_unknown (hr : HintSound s r) : r.after (.unknown s.pos) = r := by
  have hMerge : (Hint.unknown s.pos).merge r.hint = r.hint := by
    apply Hint.unknown_merge (Hint.rank_unknown_le fun _ => hr.afterStart)
    intro hOffset
    exact (hr.determined s.input (.refl s.input) hOffset.symm).symm
  rcases r with ⟨a, s', h⟩ | h
  · exact congrArg (Reply.ok a s') hMerge
  · exact congrArg Reply.error hMerge

end HintSound

namespace Parser

section

variable (φ : Transfer m n) [LawfulComputation n]

theorem sequel_follow (f : α → Parser m σ υ β) (consumed : Bool) (h : Hint)
    (t : Tagged (Reply σ υ α)) :
    sequel φ f (t.follow consumed h) = Tagged.follow consumed h <$> sequel φ f t := by
  obtain ⟨consumed', r⟩ := t
  cases r with
  | error h' => cases consumed' <;> simp [Tagged.follow, Reply.after, Reply.mapHint]
  | ok a s h' =>
    have hLeft : Tagged.follow consumed h ⟨consumed', .ok a s h'⟩ =
        ⟨consumed || consumed', .ok a s (if consumed' then h' else h.merge h')⟩ := by
      cases consumed' <;> rfl
    rw [hLeft, sequel_ok, sequel_ok, ← comp_map]
    congr 1
    funext t
    exact (Tagged.follow_follow consumed consumed' h h' t).symm

theorem bind_bind (p : Parser m σ υ α) (f : α → Parser m σ υ β) (g : β → Parser m σ υ γ) :
    Equivalent φ ((p.bind f).bind g) (p.bind fun a => (f a).bind g) := by
  intro s
  rw [view_bind, view_bind, view_bind, bind_assoc]
  congr 1
  funext ⟨consumed, r⟩
  cases r with
  | error h => simp only [sequel_error, pure_bind]
  | ok a s' h => simp only [sequel_ok, view_bind, bind_map_left, map_bind, sequel_follow]

theorem bind_then_map (p : Parser m σ υ α) (f : α → Parser m σ υ β) (g : β → γ) :
    Equivalent φ ((p.bind f).map g) (p.bind fun a => (f a).map g) := by
  intro s
  rw [view_map, view_bind, view_bind, map_bind]
  congr 1
  funext ⟨consumed, r⟩
  cases r with
  | error h => exact map_pure _ _
  | ok a s' h => simp only [sequel_ok, view_map, Functor.map_map, Tagged.map_follow]

theorem map_then_bind (f : α → β) (p : Parser m σ υ α) (g : β → Parser m σ υ γ) :
    Equivalent φ ((p.map f).bind g) (p.bind fun a => g (f a)) := by
  intro s
  rw [view_bind, view_bind, view_map, bind_map_left]
  congr 1
  funext ⟨consumed, r⟩
  cases r <;> rfl

theorem map_then_map (f : α → β) (g : β → γ) (p : Parser m σ υ α) :
    Equivalent φ ((p.map f).map g) (p.map (g ∘ f)) := by
  intro s
  simp only [view_map, Functor.map_map, Tagged.map_map]

variable [Source σ τ]

theorem view_pure_bind (a : α) (f : α → Parser m σ υ β) (s : State σ υ) :
    ((Parser.pure a).bind f).view φ s =
      Tagged.follow false (.unknown s.pos) <$> (f a).view φ s := by
  rw [view_bind, view_pure, pure_bind, sequel_ok]

theorem view_bind_pure (f : α → β) (p : Parser m σ υ α) (s : State σ υ) :
    (p.bind fun a => Parser.pure (f a)).view φ s = Tagged.settle f <$> p.view φ s := by
  rw [view_bind, map_eq_pure_bind]
  congr 1
  funext ⟨consumed, r⟩
  cases r with
  | error h => rfl
  | ok a s' h =>
    rw [sequel_ok, view_pure, map_pure]
    simp [Tagged.follow, Tagged.settle, Reply.after, Reply.mapHint]

end

/-- An unknown hint from where a parser starts adds nothing to what is seen of it. -/
theorem Keeps.follow_unknown [UniformComputation m] [LawfulMonad n] [Source σ τ] [Advancing σ]
    (φ : Transfer m n) {p : Parser m σ υ α} (hp : Keeps Contract.hint p) (s : State σ υ) :
    Tagged.follow false (.unknown s.pos) <$> p.view φ s = p.view φ s := by
  have hSame : Tagged.follow false (.unknown s.pos) <$> p.view φ s = id <$> p.view φ s := by
    apply φ.map_carry_congr (hp.hintSound s)
    intro ⟨consumed, r⟩ ht
    cases consumed with
    | true => rfl
    | false => exact congrArg (Tagged.mk false) ht.after_unknown
  rw [hSame, id_map]

variable [UniformComputation m] [LawfulComputation n] [Source σ τ]

/-- No success of the parser leaves an unknown hint behind. -/
def Settled (p : Parser m σ υ α) : Prop := ∀ s, Delivers Tagged.Settled (p.observe s)

theorem Settled.map_equivalent (φ : Transfer m n) {p : Parser m σ υ α} (hp : p.Settled)
    (f : α → β) : Equivalent φ (p.map f) (p.bind fun a => Parser.pure (f a)) := by
  intro s
  rw [view_map, view_bind_pure]
  exact φ.map_carry_congr (hp s) fun t ht => (ht.settle_eq f).symm

theorem Settled.bind_pure_equivalent (φ : Transfer m n) {p : Parser m σ υ α} (hp : p.Settled) :
    Equivalent φ (p.bind Parser.pure) p := by
  intro s
  have hMap : (p.map id).view φ s = (p.bind Parser.pure).view φ s := hp.map_equivalent φ id s
  rw [← hMap, view_map, funext Tagged.map_id, id_map']

variable [Shown τ] [Advancing σ]

theorem Built.settled {p : Parser m σ υ α} (hp : p.Built) : p.Settled := fun s =>
  ((hp.keeps Contract.hint_closed).hintSound s).mono fun t ht => ht.settled t.consumed

theorem Built.pure_bind_equivalent (φ : Transfer m n) (a : α) {f : α → Parser m σ υ β}
    (hf : (f a).Built) : Equivalent φ ((Parser.pure a).bind f) (f a) := by
  intro s
  rw [view_pure_bind]
  exact (hf.keeps Contract.hint_closed).follow_unknown φ s

/-- The monad laws up to equivalence. -/
structure MonadLaws (φ : Transfer m n) (σ υ : Type) {τ : Type} [Source σ τ] [Shown τ] : Prop where
  pure_bind {α β : Type} (a : α) {f : α → Parser m σ υ β} :
    (f a).Built → Equivalent φ ((Parser.pure a).bind f) (f a)
  bind_pure {α : Type} {p : Parser m σ υ α} :
    p.Settled → Equivalent φ (p.bind Parser.pure) p
  bind_assoc {α β γ : Type} (p : Parser m σ υ α) (f : α → Parser m σ υ β)
    (g : β → Parser m σ υ γ) : Equivalent φ ((p.bind f).bind g) (p.bind fun a => (f a).bind g)
  map_eq_bind {α β : Type} {p : Parser m σ υ α} (f : α → β) :
    p.Settled → Equivalent φ (p.map f) (p.bind fun a => Parser.pure (f a))
  built_settled {α : Type} {p : Parser m σ υ α} : p.Built → p.Settled

theorem monadLaws (φ : Transfer m n) : MonadLaws φ σ υ where
  pure_bind a _ hf := hf.pure_bind_equivalent φ a
  bind_pure hp := hp.bind_pure_equivalent φ
  bind_assoc := bind_bind φ
  map_eq_bind f hp := hp.map_equivalent φ f
  built_settled hp := hp.settled

/-- An `a` that may be missing is looked for in one of two branches: `Parser.pure` on either side
keeps the order of the branches and the hint that names the `a`. -/
theorem monadLaws_branching :
    let g : Grammar Rune Unit (Effect Unit) (fun _ => Empty) Unit :=
      (Grammar.lift (.among [true, false])).bind fun look =>
        if look then (Grammar.char (.ofChar 'a')).optional else .pure ()
    let p : Parser Nondet Text Unit Unit :=
      Rulebook.parser Performs.perform 1 (Rulebook.ofGrammars nofun) g
    Equivalent Transfer.results (p.bind Parser.pure) p ∧
      Equivalent Transfer.results ((Parser.pure ()).bind fun _ => p) p := by
  intro g p
  have hLaws : MonadLaws Transfer.results Text Unit := monadLaws Transfer.results
  have hBuilt : p.Built := ⟨Effect Unit, fun _ => Empty, Performs.perform, 1, nofun, g, rfl⟩
  constructor
  · exact hLaws.bind_pure (hLaws.built_settled hBuilt)
  · exact hLaws.pure_bind () (f := fun _ => p) hBuilt

/-- A parser made by hand may read an element and leave its unknown hint before it: the unknown hint
of what follows it stands further on and wins. -/
theorem bind_pure_moves_hint :
    ¬ ∀ p : Parser Plain Text Unit Nat,
      Equivalent (Transfer.refl Plain) (p.bind Parser.pure) p := by
  intro h
  let p : Parser Plain Text Unit Nat := fun s =>
    match Source.next? s.input with
    | none => never s
    | some (_, rest) => reply true (.ok 1 { s with input := rest } (.unknown s.pos))
  have hOffset := congrArg (fun x => x.toOption.map fun t => t.value.hint.pos.offset)
    (h p ⟨.ofBytes [] [97, 98], ()⟩)
  exact absurd hOffset (by decide)

end Parser

end Descent
