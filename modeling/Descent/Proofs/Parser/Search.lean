import Mathlib.Data.List.Infix
import Descent.Proofs.Parser.Primitives
import Descent.Proofs.Parser.Recursion
import Descent.Proofs.Source.Reading

/-! # Searching for a terminator

Any elements up to a literal: in every round the literal is tried where the input stands, and a part
of it that was met is undone before the next element is passed. The search ends behind the first
occurrence, however the literal overlaps with itself, and only at the end of the input does it
fail. -/

namespace Descent

open Source

/-- The word stands between `before` and `after`, and nowhere earlier. -/
structure FirstOccurrence {τ : Type} (word before after whole : List τ) : Prop where
  eq : whole = before ++ word ++ after
  first {before' after' : List τ} : whole = before' ++ word ++ after' →
    before.length ≤ before'.length

namespace FirstOccurrence

variable {τ : Type} {word before after whole : List τ}

theorem start (word after : List τ) : FirstOccurrence word [] after (word ++ after) where
  eq := rfl
  first _ := Nat.zero_le _

/-- An element in front of which the word does not stand. -/
theorem cons {x : τ} (hHead : ¬ word <+: x :: whole)
    (h : FirstOccurrence word before after whole) :
    FirstOccurrence word (x :: before) after (x :: whole) where
  eq := by rw [h.eq]; rfl
  first {before' after'} hWhole := by
    cases before' with
    | nil => exact absurd ⟨after', hWhole.symm⟩ hHead
    | cons y before' => exact Nat.succ_le_succ (h.first (List.cons.inj hWhole).2)

theorem unique {before' after' : List τ} (h : FirstOccurrence word before after whole)
    (h' : FirstOccurrence word before' after' whole) : before = before' ∧ after = after' := by
  have hLength : before.length = before'.length := Nat.le_antisymm (h.first h'.eq) (h'.first h.eq)
  have hWhole : before ++ (word ++ after) = before' ++ (word ++ after') := by
    rw [← List.append_assoc, ← List.append_assoc, ← h.eq, ← h'.eq]
  obtain ⟨hBefore, hRest⟩ := List.append_inj hWhole hLength
  exact ⟨hBefore, List.append_cancel_left hRest⟩

end FirstOccurrence

variable {σ υ : Type} [Source σ Rune]

/-- What a search for a word from the state `s` comes to, where `hay` is left to read and ends at
the offset `last`. -/
structure Finds (word hay : List Rune) (last : Int) (s : State σ υ)
    (out : Plain (Tagged (Reply σ υ (List Rune)))) : Prop where
  found : word <:+: hay → ∃ before after cursor h, FirstOccurrence word before after hay ∧
    Passes s.input (before ++ word) cursor ∧ remaining cursor = after ∧
    out = .ok ⟨decide (before ++ word ≠ []), .ok before (s.withInput cursor) h⟩
  missing : ¬ word <:+: hay → ∃ h, h.pos.offset = last ∧
    out = .ok ⟨decide (hay ≠ []), .error h⟩

namespace Parser

variable (text : Bytes) (s : State σ υ)

theorem view_attempt_literal_of_isPrefix (h : Utf8.runes text <+: remaining s.input) :
    ∃ rest, Passes s.input (Utf8.runes text) rest ∧
      (attempt (literal text)).view (.refl Plain) s =
        .ok ⟨!(Utf8.runes text).isEmpty, .ok text (s.withInput rest) (.unknown (pos rest))⟩ := by
  obtain ⟨rest, hPasses, hLiteral⟩ := view_literal_of_isPrefix (.refl Plain) h
  refine ⟨rest, hPasses, ?_⟩
  rw [view_attempt, hLiteral]
  cases (Utf8.runes text).isEmpty <;> rfl

/-- A part of the literal that was met is undone. -/
theorem view_attempt_literal_of_not_isPrefix (h : ¬ Utf8.runes text <+: remaining s.input) :
    ∃ messages,
      (attempt (literal text)).view (.refl Plain) s = .ok ⟨false, .error ⟨s.pos, messages⟩⟩ := by
  obtain ⟨messages, hLiteral⟩ := view_literal_of_not_isPrefix (.refl Plain) h
  refine ⟨messages, ?_⟩
  rw [view_attempt, hLiteral]
  cases (commonPrefix (Utf8.runes text) (remaining s.input)).isEmpty <;> rfl

/-! ## The rounds of a search -/

/-- How the rounds of a search end, behind the tag and the values of the rounds before. -/
inductive Searched (word : List Rune) (consumed : Bool) (values : List Rune) (s : State σ υ) :
    Plain (TillHalt σ υ Rune) → Prop where
  | found {before after values' : List Rune} {consumed' : Bool} {cursor : σ} {h : Hint} :
      FirstOccurrence word before after (remaining s.input) →
      Passes s.input (before ++ word) cursor →
      consumed' = (consumed || decide (before ++ word ≠ [])) → values' = values ++ before →
      Searched word consumed values s
        (.ok (.over ⟨consumed', .ok values' (s.withInput cursor) h⟩))
  | missing {consumed' : Bool} {h : Hint} : ¬ word <:+: remaining s.input →
      h.pos = pos (final s.input) → consumed' = (consumed || decide (remaining s.input ≠ [])) →
      Searched word consumed values s (.ok (.over ⟨consumed', .error h⟩))

/-- An element in front of a search, at which the word does not stand. -/
theorem Searched.cons {word values : List Rune} {consumed : Bool} {s : State σ υ} {t : Rune}
    {rest : σ} {out : Plain (TillHalt σ υ Rune)} (hNext : next? s.input = some (t, rest))
    (hHead : ¬ word <+: remaining s.input)
    (h : Searched word true (values ++ [t]) (s.withInput rest) out) :
    Searched word consumed values s out := by
  have hRemaining : remaining s.input = t :: remaining rest := remaining_of_next hNext
  cases h with
  | @found before after _ _ cursor h hFirst hPasses hConsumed hValues =>
    have hFirst' : FirstOccurrence word (t :: before) after (remaining s.input) := by
      rw [hRemaining] at hHead ⊢
      exact hFirst.cons hHead
    refine .found hFirst' (.move hNext hPasses) ?_ ?_
    · rw [hConsumed]
      simp
    · rw [hValues, List.append_assoc]
      rfl
  | @missing _ h hNone hPos hConsumed =>
    have hNone' : ¬ word <:+: remaining s.input := by
      rw [hRemaining] at hHead ⊢
      rw [List.infix_cons_iff]
      exact fun h => h.elim hHead hNone
    refine .missing hNone' (hPos.trans ?_) ?_
    · rw [(Passes.one hNext).remaining_eq.2]
      rfl
    · rw [hConsumed, hRemaining]
      simp

theorem tillRounds_searched (left : Nat) (consumed : Bool) (g : Gathered σ υ Rune)
    (hHint : g.hint.pos = g.state.pos) (hLeft : (remaining g.state.input).length < left) :
    Searched (Utf8.runes text) consumed g.values g.state
      (tillRounds (anyToken.view (.refl Plain)) ((attempt (literal text)).view (.refl Plain)) left
        consumed g) := by
  -- The hint stays where the input stands: an element that is passed leaves its refusals behind.
  induction left generalizing consumed g with
  | zero => exact absurd hLeft (Nat.not_lt_zero _)
  | succ left ih =>
    rw [tillRounds]
    by_cases hHead : Utf8.runes text <+: remaining g.state.input
    · obtain ⟨rest, hPasses, hStop⟩ := view_attempt_literal_of_isPrefix text g.state hHead
      obtain ⟨after, hAfter⟩ := hHead
      rw [hStop]
      have hFirst : FirstOccurrence (Utf8.runes text) [] after (remaining g.state.input) :=
        hAfter ▸ .start (Utf8.runes text) after
      generalize Utf8.runes text = word at hFirst hPasses
      cases word with
      | nil => exact .found hFirst hPasses rfl rfl
      | cons r word => exact .found hFirst hPasses rfl rfl
    · obtain ⟨messages, hStop⟩ := view_attempt_literal_of_not_isPrefix text g.state hHead
      rw [hStop]
      cases hNext : next? g.state.input with
      | none =>
        have hEnd : remaining g.state.input = [] := remaining_of_end hNext
        have hAny : (anyToken : Parser Plain σ υ Rune).view (.refl Plain) g.state =
            pure ⟨false, .error ⟨g.state.pos, [met g.state.input]⟩⟩ := by
          apply view_satisfy_of_refused
          intro t rest h
          rw [hNext] at h
          cases h
        change Searched _ _ _ _ (anyToken.view (.refl Plain) g.state >>= _)
        rw [hAny]
        have hNone : ¬ Utf8.runes text <:+: remaining g.state.input := by
          rw [hEnd] at hHead ⊢
          intro hInfix
          exact hHead (List.prefix_nil.mpr (List.infix_nil.mp hInfix))
        refine .missing hNone ?_ (by rw [hEnd]; rfl)
        have hFinal : pos (final g.state.input) = g.state.pos :=
          congrArg pos ((passes_final g.state.input).eq_of_final hNext).2
        rw [hFinal]
        exact Hint.merge_pos_of_eq (Hint.merge_pos_of_eq hHint rfl) rfl
      | some x =>
        change Searched _ _ _ _ (anyToken.view (.refl Plain) g.state >>= _)
        rw [anyToken, view_satisfy_of_next (.refl Plain) hNext rfl]
        refine .cons hNext hHead ?_
        rw [remaining_of_next hNext] at hLeft
        have hTail := ih true ((g.refuse ⟨g.state.pos, messages⟩).take true x.1
          (g.state.withInput x.2) (.unknown (pos x.2))) rfl (Nat.lt_of_succ_lt_succ hLeft)
        rw [Gathered.take, Gathered.values_push] at hTail
        exact hTail

/-- Any elements up to a literal, which is passed too. -/
def upTo (rounds : Nat) (text : Bytes) : Parser Plain σ υ (List Rune) :=
  manyTill rounds anyToken (attempt (literal text))

theorem upTo_finds {rounds : Nat} (hRounds : (remaining s.input).length < rounds) :
    Finds (Utf8.runes text) (remaining s.input) (pos (final s.input)).offset s
      ((upTo rounds text).observe s) := by
  obtain ⟨rounds, rfl⟩ := Nat.exists_eq_add_one_of_ne_zero (Nat.ne_zero_of_lt hRounds)
  have hView := view_manyTill (.refl Plain) anyToken (attempt (literal text)) rounds s
  have hSearched := tillRounds_searched text (rounds + 2) false (.start s) rfl
    (Nat.lt_succ_of_lt hRounds)
  change (upTo (rounds + 1) text).observe s = _ at hView
  rw [hView]
  generalize tillRounds (anyToken.view (.refl Plain)) ((attempt (literal text)).view (.refl Plain))
    (rounds + 2) false (.start s) = out at hSearched
  cases hSearched with
  | @found before after _ _ cursor h hFirst hPasses hConsumed hValues =>
    have hAfter : remaining cursor = after :=
      List.append_cancel_left (hPasses.remaining_eq.1.symm.trans hFirst.eq)
    constructor
    · intro _
      refine ⟨before, after, cursor, h, hFirst, hPasses, hAfter, ?_⟩
      rw [hConsumed, hValues]
      rfl
    · intro hNone
      exact absurd ⟨before, after, hFirst.eq.symm⟩ hNone
  | @missing _ h hNone hPos hConsumed =>
    subst hConsumed
    constructor
    · intro hInfix
      exact absurd hInfix hNone
    · intro _
      exact ⟨h, congrArg Position.offset hPos, rfl⟩

/-- In texts and in lists of runes, the search ends at the first terminator. -/
theorem upTo_finds_first (user : υ) :
    (∀ (t : Text) (rounds : Nat), (Utf8.runes t.rest).length < rounds →
      Finds (Utf8.runes text) (Utf8.runes t.rest) (t.pos.offset + t.rest.length) ⟨t, user⟩
        ((upTo rounds text).observe ⟨t, user⟩)) ∧
    ∀ (t : Tokens Rune) (rounds : Nat), t.rest.length < rounds →
      Finds (Utf8.runes text) t.rest (t.offset + t.rest.length) ⟨t, user⟩
        ((upTo rounds text).observe ⟨t, user⟩) := by
  constructor
  · intro t rounds hRounds
    have hEnd : (pos (final t)).offset = t.pos.offset + t.rest.length := by
      have hOffset := Text.offset_add_length_of_passes (passes_final t)
      rw [Text.rest_of_end (next?_final t)] at hOffset
      exact (Int.add_zero _).symm.trans hOffset
    rw [← Text.remaining_eq_runes] at hRounds ⊢
    rw [← hEnd]
    exact upTo_finds text ⟨t, user⟩ hRounds
  · intro t rounds hRounds
    have hEnd : (pos (final t)).offset = t.offset + t.rest.length := by
      have hOffset := Tokens.offset_of_passes (passes_final t)
      rw [Tokens.remaining_eq_rest] at hOffset
      exact congrArg Int.ofNat hOffset
    rw [← Tokens.remaining_eq_rest] at hRounds
    rw [← hEnd, ← Tokens.remaining_eq_rest]
    exact upTo_finds text ⟨t, user⟩ hRounds

/-- A terminator that overlaps with a part of itself, and one that the end of the input cuts off. -/
theorem upTo_finds_first_overlapping :
    (Utf8.runes (utf8 "a--->b" ++ [0xFF])).length < 8 ∧ (Utf8.runes (utf8 "a--")).length < 4 ∧
      (∃ cursor h, remaining cursor = [.ofChar 'b', .replacement] ∧
        (upTo 8 (utf8 "-->")).observe ⟨Text.ofBytes [] (utf8 "a--->b" ++ [0xFF]), ()⟩ =
          .ok ⟨true, .ok [.ofChar 'a', .ofChar '-'] ⟨cursor, ()⟩ h⟩) ∧
      ∃ h, h.pos.offset = 3 ∧
        (upTo 4 (utf8 "-->")).observe ⟨Tokens.ofList [] (Utf8.runes (utf8 "a--")), ()⟩ =
          .ok ⟨true, .error h⟩ := by
  obtain ⟨hText, hTokens⟩ := upTo_finds_first (utf8 "-->") ()
  refine ⟨by decide, by decide, ?_, ?_⟩
  · have hThere : FirstOccurrence (Utf8.runes (utf8 "-->")) [.ofChar 'a', .ofChar '-']
        [.ofChar 'b', .replacement] (Utf8.runes (utf8 "a--->b" ++ [0xFF])) :=
      .cons (by decide) (.cons (by decide) (.start _ _))
    obtain ⟨before, after, cursor, h, hFirst, -, hAfter, hObserve⟩ :=
      (hText (.ofBytes [] (utf8 "a--->b" ++ [0xFF])) 8 (by decide)).found (by decide)
    obtain ⟨rfl, rfl⟩ := hFirst.unique hThere
    exact ⟨cursor, h, hAfter, hObserve⟩
  · exact (hTokens (.ofList [] (Utf8.runes (utf8 "a--"))) 4 (by decide)).missing (by decide)

end Parser

end Descent
