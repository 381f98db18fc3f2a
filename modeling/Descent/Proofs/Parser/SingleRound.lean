import Descent.Proofs.Parser.MonadLaws
import Descent.Proofs.Parser.Rounds

/-! # Repetition after a single round

`many p` and `option [] (many1 p)` run the same rounds and differ in one place only: where the first
round is a success and the second is refused, `many1` joins the hint that the success left to that
of the refusal, and `many` drops it. From the second success on both drop it. So the two are
equivalent as long as no hint that a first success leaves counts beside that of a refusal behind
it. -/

namespace Descent

open Source

variable {m n : Type → Type} [Computation m] [Computation n] {σ τ υ α : Type}

namespace Parser

variable [LawfulComputation n] (φ : Transfer m n) (rounds : Nat) (p : Parser m σ υ α)

/-- A value in front of at least one other changes nothing but the values. -/
theorem consumedRounds_cons (seen : State σ υ → n (Tagged (Reply σ υ α))) (a : α) (h : Hint)
    (left : Nat) {values : List α} (hValues : 0 < values.length) (s : State σ υ) :
    (fun t => Tagged.follow true h (t.map (Reply.map (a :: ·)))) <$>
        (consumedRounds seen left ⟨values, s⟩ >>= concluded) =
      consumedRounds seen left ⟨a :: values, s⟩ >>= concluded := by
  induction left generalizing values s with
  | zero => simp [consumedRounds]
  | succ left ih =>
    rw [consumedRounds_concluded, consumedRounds_concluded, map_bind]
    congr 1
    funext t
    obtain ⟨_ | _, ⟨b, s', h'⟩ | h'⟩ := t
    · simp
    · simp [hValues, Tagged.follow, Tagged.map, Reply.map]
    · exact ih (by simp) s'
    · simp [Tagged.follow, Tagged.map, Reply.map]

/-- The second round, behind a success with the value `a`, and all rounds after it. -/
def secondRound (a : α) (s : State σ υ) (keep : Hint → Hint) :
    Tagged (Reply σ υ α) → n (Tagged (Reply σ υ (List α)))
  | ⟨true, .ok b s' _⟩ => consumedRounds (p.view φ) (rounds + 1) ⟨[a, b], s'⟩ >>= concluded
  | ⟨true, .error h⟩ => pure ⟨true, .error h⟩
  | ⟨false, .error h⟩ => pure ⟨true, .ok [a] s (keep h)⟩
  | ⟨false, .ok _ _ _⟩ => Computation.fault .emptyRound

/-- A repetition by its first two rounds. What becomes of the hint of a single success, and of that
of the refusal behind it, is left to `keep`. -/
def twoRounds (keep : Hint → Hint → Hint) (s : State σ υ) :
    Tagged (Reply σ υ α) → n (Tagged (Reply σ υ (List α)))
  | ⟨true, .ok a s' h⟩ => p.view φ s' >>= secondRound φ rounds p a s' (keep h)
  | ⟨true, .error h⟩ => pure ⟨true, .error h⟩
  | ⟨false, .error h⟩ => pure ⟨false, .ok [] s h⟩
  | ⟨false, .ok _ _ _⟩ => Computation.fault .emptyRound

variable [Source σ τ]

theorem view_many_eq (s : State σ υ) :
    (many (rounds + 2) p).view φ s =
      p.view φ s >>= twoRounds φ rounds p (fun _ h => h) s := by
  rw [view_many_first]
  congr 1
  funext t
  obtain ⟨_ | _, ⟨a, s', h⟩ | h⟩ := t
  · rfl
  · rfl
  · exact consumedRounds_concluded (p.view φ) (rounds + 1) ⟨[a], s'⟩
  · rfl

theorem view_cons_many (a : α) (s : State σ υ) (h : Hint) :
    Tagged.follow true h <$> ((many (rounds + 1) p).map (a :: ·)).view φ s =
      p.view φ s >>= secondRound φ rounds p a s h.merge := by
  rw [view_map, ← comp_map, view_many_first, map_bind]
  congr 1
  funext t
  obtain ⟨_ | _, ⟨b, s', h'⟩ | h'⟩ := t
  · simp [secondRound]
  · simp [secondRound, Tagged.follow, Tagged.map, Reply.map, Reply.after, Reply.mapHint]
  · exact consumedRounds_cons (p.view φ) a h (rounds + 1) (by simp) s'
  · simp [secondRound, Tagged.follow, Tagged.map, Reply.map]

variable {p} [UniformComputation m] [Shown τ] [Advancing σ]

theorem view_option_many1_eq (hp : p.Built) {s : State σ υ}
    (hFirst : Delivers (fun t => t.value.isOk = true → t.consumed = true) (p.observe s)) :
    (option [] (many1 (rounds + 1) p)).view φ s =
      p.view φ s >>= twoRounds φ rounds p Hint.merge s := by
  rw [option, view_orElse, many1, view_bind, bind_assoc, view_pure]
  have hSound : Delivers (fun t => HintSound s t.value) (p.observe s) :=
    (hp.keeps Contract.hint_closed).hintSound s
  apply φ.carry_bind_congr_and hSound hFirst
  intro t hSound hFirst
  obtain ⟨_ | _, ⟨a, s', h⟩ | h⟩ := t
  · cases hFirst rfl
  · -- The hint of the refusal stands at or behind the start, where `Parser.pure` leaves its own.
    have hStart : s.pos.offset ≤ h.pos.offset := hSound.afterStart
    have hMerge : h.merge (.unknown s.pos) = h :=
      Hint.merge_unknown (Hint.rank_unknown_le fun _ => hStart)
    simp [twoRounds, Tagged.refused?, Tagged.follow, Reply.after, Reply.mapHint, hMerge]
  · have hTaken (t : Tagged (Reply σ υ (List α))) : (Tagged.follow true h t).refused? = none := rfl
    simp only [sequel_ok, twoRounds, bind_map_left, hTaken]
    rw [← view_cons_many, map_eq_pure_bind]
  · simp [twoRounds, Tagged.refused?]

/-- The hint that a single success leaves is displaced by that of the refusal behind it. -/
def HintYields (p : Parser m σ υ α) (s : State σ υ) : Prop :=
  Delivers (fun t => ∀ a s' h, t = ⟨true, .ok a s' h⟩ →
    Delivers (fun t' => ∀ h', t' = ⟨false, .error h'⟩ → h.merge h' = h') (p.observe s'))
    (p.observe s)

theorem many_or_option_many1 (hp : p.Built) {s : State σ υ}
    (hFirst : Delivers (fun t => t.value.isOk = true → t.consumed = true) (p.observe s)) :
    (many (rounds + 2) p).view φ s = p.view φ s >>= twoRounds φ rounds p (fun _ h => h) s ∧
    (option [] (many1 (rounds + 1) p)).view φ s =
      p.view φ s >>= twoRounds φ rounds p Hint.merge s ∧
    (HintYields p s →
      (many (rounds + 2) p).view φ s = (option [] (many1 (rounds + 1) p)).view φ s) := by
  have hMany := view_many_eq φ rounds p s
  have hOption := view_option_many1_eq φ rounds hp hFirst
  refine ⟨hMany, hOption, fun hYields => ?_⟩
  rw [hMany, hOption]
  apply φ.carry_bind_congr hYields
  intro t ht
  obtain ⟨_ | _, ⟨a, s', h⟩ | h⟩ := t
  · rfl
  · rfl
  · apply φ.carry_bind_congr (ht a s' h rfl)
    intro t' ht'
    obtain ⟨_ | _, ⟨b, s'', h'⟩ | h'⟩ := t'
    · rfl
    · rw [secondRound, secondRound, ht' h' rfl]
    · rfl
    · rfl
  · rfl

/-- On `ab` the `b` is refused behind a single `a`, whose hint is unknown. -/
theorem many_or_option_many1_char :
    let g : Grammar Rune Unit (fun _ => Empty) (fun _ => Empty) Rune := .char (.ofChar 'a')
    let p : Parser Plain Text Unit Rune := Rulebook.parser nofun 1 (Rulebook.ofGrammars nofun) g
    let start : State Text Unit := ⟨.ofBytes [] [97, 98], ()⟩
    HintYields p start ∧
      (many 3 p).view (.refl Plain) start = (option [] (many1 2 p)).view (.refl Plain) start := by
  intro g p start
  have hBuilt : p.Built := ⟨fun _ => Empty, fun _ => Empty, nofun, 1, nofun, g, rfl⟩
  have hFirst : Delivers (fun t => t.value.isOk = true → t.consumed = true) (p.observe start) := by
    rw [Plain.delivers_iff]
    rintro t ⟨⟩ -
    rfl
  have hYields : HintYields p start := by
    apply Plain.delivers_iff.mpr
    rintro t ⟨⟩ _ _ _ ⟨⟩
    apply Plain.delivers_iff.mpr
    rintro t' ⟨⟩ _ ⟨⟩
    rfl
  exact ⟨hYields, (many_or_option_many1 (.refl Plain) 1 hBuilt hFirst).2.2 hYields⟩

/-- On `ab`, an `a` is read and an `x` behind it is missed: a repetition of this no longer says that
an `x` was expected. -/
theorem many_drops_recovered_hint :
    let observed {α : Type} (g : Grammar Rune Unit (fun _ => Empty) (fun _ => Empty) α)
        (src : Bytes) : Plain (Tagged (Reply Text Unit α)) :=
      (Rulebook.parser nofun 9 (Rulebook.ofGrammars nofun) g).observe ⟨.ofBytes [] src, ()⟩
    ¬ ∀ (g : Grammar Rune Unit (fun _ => Empty) (fun _ => Empty) Rune) (src : Bytes)
      (t : Tagged (Reply Text Unit (List Rune))),
      observed g.many src = .ok t → observed (g.many1.option []) src = .ok t := by
  intro observed h
  let g : Grammar Rune Unit (fun _ => Empty) (fun _ => Empty) Rune :=
    (Grammar.char (.ofChar 'a')).skip (Grammar.char (.ofChar 'x')).optional
  have hSame := h g [97, 98] _ rfl
  have hExpected := congrArg (fun x => x.toOption.map fun t => t.value.hint.expected) hSame
  exact absurd hExpected (by decide)

end Parser

end Descent
