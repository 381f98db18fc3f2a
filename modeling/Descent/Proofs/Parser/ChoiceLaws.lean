import Descent.Proofs.Parser.Alternatives

/-! # Laws of choice

Up to equivalence, parsers form a monoid under choice, hints included, and the choice among a list
is the product of its members. Regrouping rests on the associativity of joining hints and asks
nothing of the parsers. The unit laws do: the empty choice leaves an unknown hint where it started,
which must not displace the hint of the other side. Parsers built from grammars keep their hints at
or behind that place. The base computation may be any uniform one with the monad laws. -/

namespace Descent.Parser

open Source

variable {m n : Type → Type} [Computation m] [Computation n] {σ τ υ α : Type}

theorem fallback_follow [LawfulMonad n] (next : n (Tagged (Reply σ υ α))) (h : Hint)
    (t : Tagged (Reply σ υ α)) :
    fallback next (t.follow false h) = Tagged.follow false h <$> fallback next t := by
  unfold fallback
  rw [Tagged.refused?_follow]
  cases t.refused? with
  | none => exact (map_pure _ t).symm
  | some h' => simp [Tagged.follow_follow]

theorem bind_fallback_assoc [LawfulMonad n] (x y z : n (Tagged (Reply σ υ α))) :
    x >>= fallback y >>= fallback z = x >>= fallback (y >>= fallback z) := by
  rw [bind_assoc]
  congr 1
  funext t
  cases hRefused : t.refused? with
  | none => simp [fallback, hRefused]
  | some h =>
    have hTaken (w : n (Tagged (Reply σ υ α))) : fallback w t = Tagged.follow false h <$> w := by
      simp [fallback, hRefused]
    rw [hTaken, hTaken, bind_map_left, map_bind]
    simp only [fallback_follow]

theorem orElse_orElse [LawfulMonad n] (φ : Transfer m n) (p q r : Parser m σ υ α) :
    Equivalent φ ((p.orElse q).orElse r) (p.orElse (q.orElse r)) := by
  intro s
  simp only [view_orElse_eq, bind_fallback_assoc]

section

variable [UniformComputation m] [Source σ τ]

theorem Keeps.choice {C : Contract σ υ} (hC : C.Closed) {ps : List (Parser m σ υ α)}
    (hps : ∀ p ∈ ps, Keeps C p) : Keeps C (choice ps) := by
  induction ps with
  | nil => exact fun s => reply (hC.refuse rfl)
  | cons p later ih =>
    rw [List.forall_mem_cons] at hps
    cases later with
    | nil => exact hps.1
    | cons q later => exact orElse hC hps.1 (ih hps.2)

variable [LawfulMonad n] [Advancing σ] (φ : Transfer m n)

theorem Keeps.never_orElse {p : Parser m σ υ α} (hp : Keeps Contract.hint p) :
    Equivalent φ (never.orElse p) p := by
  intro s
  rw [view_orElse_eq, view_never, pure_bind]
  exact hp.follow_unknown φ s

theorem Keeps.orElse_never {p : Parser m σ υ α} (hp : Keeps Contract.hint p) :
    Equivalent φ (p.orElse never) p := by
  intro s
  rw [view_orElse_eq, view_never]
  refine Eq.trans ?_ (bind_pure (p.view φ s))
  apply φ.carry_bind_congr (hp.hintSound s)
  intro t ht
  unfold fallback
  cases hRefused : t.refused? with
  | none => rfl
  | some h =>
    -- The hint of the refusal stands at or behind the start, where `never` leaves its own.
    obtain rfl := Tagged.eq_of_refused? hRefused
    have hStart : s.pos.offset ≤ h.pos.offset := ht.afterStart
    have hMerge : h.merge (.unknown s.pos) = h :=
      Hint.merge_unknown (Hint.rank_unknown_le fun _ => hStart)
    simp [Tagged.follow, Reply.after, Reply.mapHint, hMerge]

theorem Keeps.view_choice_cons {p : Parser m σ υ α} (hp : Keeps Contract.hint p)
    (later : List (Parser m σ υ α)) (s : State σ υ) :
    (Parser.choice (p :: later)).view φ s =
      p.view φ s >>= fallback ((Parser.choice later).view φ s) := by
  cases later with
  | nil => exact (hp.orElse_never φ s).symm.trans (view_orElse_eq φ p never s)
  | cons q later => exact view_orElse_eq φ p (Parser.choice (q :: later)) s

theorem Keeps.choice_append {ps qs : List (Parser m σ υ α)}
    (hps : ∀ p ∈ ps, Keeps Contract.hint p) (hqs : ∀ q ∈ qs, Keeps Contract.hint q) :
    Equivalent φ (Parser.choice (ps ++ qs)) ((Parser.choice ps).orElse (Parser.choice qs)) := by
  intro s
  induction ps with
  | nil => exact ((Keeps.choice Contract.hint_closed hqs).never_orElse φ s).symm
  | cons p later ih =>
    rw [List.forall_mem_cons] at hps
    have hLater : (Parser.choice (later ++ qs)).view φ s =
        (Parser.choice later).view φ s >>= fallback ((Parser.choice qs).view φ s) :=
      (ih hps.2).trans (view_orElse_eq φ _ _ s)
    rw [List.cons_append, hps.1.view_choice_cons, hLater, view_orElse_eq,
      hps.1.view_choice_cons, bind_fallback_assoc]

end

/-- The laws of choice up to equivalence. -/
structure ChoiceLaws [UniformComputation m] (φ : Transfer m n) (σ υ : Type) {τ : Type} [Source σ τ]
    [Shown τ] : Prop where
  orElse_assoc {α : Type} (p q r : Parser m σ υ α) :
    Equivalent φ ((p.orElse q).orElse r) (p.orElse (q.orElse r))
  nil_orElse {α : Type} {p : Parser m σ υ α} : p.Built → Equivalent φ ((choice []).orElse p) p
  orElse_nil {α : Type} {p : Parser m σ υ α} : p.Built → Equivalent φ (p.orElse (choice [])) p
  append {α : Type} {ps qs : List (Parser m σ υ α)} : (∀ p ∈ ps, p.Built) → (∀ q ∈ qs, q.Built) →
    Equivalent φ (choice (ps ++ qs)) ((choice ps).orElse (choice qs))

theorem choiceLaws [UniformComputation m] [LawfulMonad n] [Source σ τ] [Shown τ] [Advancing σ]
    (φ : Transfer m n) : ChoiceLaws φ σ υ where
  orElse_assoc := orElse_orElse φ
  nil_orElse hp := (hp.keeps Contract.hint_closed).never_orElse φ
  orElse_nil hp := (hp.keeps Contract.hint_closed).orElse_never φ
  append hps hqs := Keeps.choice_append φ
    (fun p hp => (hps p hp).keeps Contract.hint_closed)
    fun q hq => (hqs q hq).keeps Contract.hint_closed

/-- Whether an `a` is looked for at all is left to the host, who may resume the run at any time. -/
theorem choiceLaws_suspended :
    let parser (g : Grammar Rune Unit (Effect Bool) (fun _ => Empty) Rune) :
        Parser (Cont Bool (Reply Text Unit Rune)) Text Unit Rune :=
      Rulebook.parser Performs.perform 1 (Rulebook.ofGrammars nofun) g
    let asked := parser ((Grammar.lift (.suspend true id)).bind fun look =>
      if look then .char (.ofChar 'a') else .fail (utf8 "not asked for"))
    let b := parser (.char (.ofChar 'b'))
    Equivalent (.refl _) ((asked.orElse b).orElse asked) (asked.orElse (b.orElse asked)) ∧
      Equivalent (.refl _) ((choice []).orElse asked) asked ∧
      Equivalent (.refl _) (asked.orElse (choice [])) asked ∧
      Equivalent (.refl _) (choice ([asked, b] ++ [b, asked]))
        ((choice [asked, b]).orElse (choice [b, asked])) := by
  intro parser asked b
  have hLaws : ChoiceLaws (.refl (Cont Bool (Reply Text Unit Rune))) Text Unit := choiceLaws _
  have hBuilt (g) : (parser g).Built :=
    ⟨Effect Bool, fun _ => Empty, Performs.perform, 1, nofun, g, rfl⟩
  have hPair (g g') : ∀ p ∈ [parser g, parser g'], p.Built :=
    List.forall_mem_cons.mpr ⟨hBuilt g, List.forall_mem_singleton.mpr (hBuilt g')⟩
  exact ⟨hLaws.orElse_assoc asked b asked, hLaws.nil_orElse (hBuilt _),
    hLaws.orElse_nil (hBuilt _), hLaws.append (hPair _ _) (hPair _ _)⟩

end Descent.Parser
