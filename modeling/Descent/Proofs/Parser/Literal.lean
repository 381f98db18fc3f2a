import Descent.Computation.Plain
import Descent.Proofs.Hint.Grouping
import Descent.Proofs.Parser.Primitives
import Descent.Proofs.Text.Encoding

/-! # Literals

A literal is accepted as a whole or not at all. How far it agrees with the input decides its reply,
and apart from values and hints it replies as its runes do one after the other, however they are
grouped. -/

namespace Descent

open Source

theorem Grouping.elements_ne_nil {α : Type} (t : Grouping α) : t.elements ≠ [] := by
  induction t with
  | single a => exact List.cons_ne_nil a []
  | pair left right ihLeft _ => exact List.append_ne_nil_of_left_ne_nil ihLeft _

/-- Only the first elements decide whether anything is shared. -/
theorem isEmpty_commonPrefix_append {α : Type} [DecidableEq α] {xs : List α} (ys zs : List α)
    (h : xs ≠ []) : (commonPrefix (xs ++ ys) zs).isEmpty = (commonPrefix xs zs).isEmpty := by
  cases xs with
  | nil => exact absurd rfl h
  | cons x xs =>
    cases zs with
    | nil => rfl
    | cons z zs =>
      rw [List.cons_append, commonPrefix, commonPrefix]
      split <;> rfl

theorem Tagged.follow_error {σ υ α : Type} (consumed consumed' : Bool) (h h' : Hint) :
    (follow consumed h ⟨consumed', .error h'⟩ : Tagged (Reply σ υ α)) =
      ⟨consumed || consumed', .error (if consumed' then h' else h.merge h')⟩ := by
  cases consumed' <;> rfl

/-- What a tagged reply tells without its value and its hint. -/
def Tagged.footprint {σ υ α : Type} (t : Tagged (Reply σ υ α)) : Bool × Bool × Option (State σ υ) :=
  (t.consumed, t.value.isOk, t.value.state?)

namespace Parser

section Chains

variable {m n : Type → Type} [Computation m] [Computation n] [LawfulMonad n] (φ : Transfer m n)
  {σ υ : Type} [Source σ Rune] [CharacterClasses] {s : State σ υ}

/-- The runes of a sequence one after the other. -/
def chars (t : Grouping Rune) : Parser m σ υ Rune := t.combine andThen char

theorem chars_pair (left right : Grouping Rune) :
    (chars (.pair left right) : Parser m σ υ Rune) = (chars left).bind fun _ => chars right := rfl

theorem view_chars_of_isPrefix {t : Grouping Rune} (h : t.elements <+: remaining s.input) :
    ∃ cursor a hint, Passes s.input t.elements cursor ∧
      (chars t).view φ s = pure ⟨true, .ok a (s.withInput cursor) hint⟩ := by
  induction t generalizing s with
  | single c =>
    cases hNext : next? s.input with
    | none =>
      rw [remaining_of_end hNext] at h
      cases List.prefix_nil.mp h
    | some x =>
      rw [remaining_of_next hNext] at h
      obtain ⟨rfl, -⟩ := List.cons_prefix_cons.mp h
      exact ⟨x.2, x.1, _, .one hNext, view_char_of_next φ hNext⟩
  | pair left right ihLeft ihRight =>
    obtain ⟨middle, a, hint, hLeft, hViewLeft⟩ := ihLeft ((List.prefix_append _ _).trans h)
    have hRest : right.elements <+: remaining (s.withInput middle).input := by
      rw [hLeft.remaining_eq.1] at h
      exact (List.prefix_append_right_inj _).mp h
    obtain ⟨cursor, b, hint', hRight, hViewRight⟩ := ihRight hRest
    refine ⟨cursor, b, hint', hLeft.trans hRight, ?_⟩
    rw [chars_pair, view_bind, hViewLeft, pure_bind, sequel_ok, hViewRight, map_pure]
    rfl

theorem view_chars_of_not_isPrefix {t : Grouping Rune} (h : ¬ t.elements <+: remaining s.input) :
    ∃ hint, (chars t).view φ s =
      pure ⟨!(commonPrefix t.elements (remaining s.input)).isEmpty, .error hint⟩ := by
  induction t generalizing s with
  | single c =>
    have hRefused (rest : σ) : next? s.input ≠ some (c, rest) := by
      intro hNext
      rw [remaining_of_next hNext] at h
      exact h (List.cons_prefix_cons.mpr ⟨rfl, List.nil_prefix⟩)
    obtain ⟨hint, hView, -⟩ := view_char_of_refused φ hRefused
    refine ⟨hint, ?_⟩
    rw [Grouping.elements, commonPrefix_singleton h]
    exact hView
  | pair left right ihLeft ihRight =>
    rw [Grouping.elements, isEmpty_commonPrefix_append _ _ left.elements_ne_nil]
    by_cases hLeft : left.elements <+: remaining s.input
    · obtain ⟨middle, a, hint, hPasses, hView⟩ := view_chars_of_isPrefix φ hLeft
      have hRest : ¬ right.elements <+: remaining (s.withInput middle).input := by
        intro hRight
        rw [hPasses.remaining_eq.1] at h
        exact h ((List.prefix_append_right_inj _).mpr hRight)
      obtain ⟨hint', hView'⟩ := ihRight hRest
      -- The left part was passed, so the failure of the right one comes after consuming.
      rw [commonPrefix_eq_left_iff.mpr hLeft, List.isEmpty_eq_false_iff.mpr left.elements_ne_nil,
        chars_pair, view_bind, hView, pure_bind, sequel_ok, hView', map_pure, Tagged.follow_error]
      exact ⟨_, rfl⟩
    · obtain ⟨hint, hView⟩ := ihLeft hLeft
      refine ⟨hint, ?_⟩
      rw [chars_pair, view_bind, hView, pure_bind]
      rfl

theorem footprint_literal_eq_chars {text : Bytes} {t : Grouping Rune}
    (ht : t.elements = Utf8.runes text) (s : State σ υ) :
    Tagged.footprint <$> (literal text).view φ s = Tagged.footprint <$> (chars t).view φ s := by
  by_cases h : t.elements <+: remaining s.input
  · obtain ⟨cursor, a, hint, hPasses, hChars⟩ := view_chars_of_isPrefix φ h
    rw [ht] at h hPasses
    obtain ⟨cursor', hPasses', hLiteral⟩ := view_literal_of_isPrefix φ h
    cases hPasses.unique hPasses'
    rw [hLiteral, hChars, map_pure, map_pure, ← ht,
      List.isEmpty_eq_false_iff.mpr t.elements_ne_nil]
    rfl
  · obtain ⟨hint, hChars⟩ := view_chars_of_not_isPrefix φ h
    rw [ht] at h hChars
    obtain ⟨messages, hLiteral⟩ := view_literal_of_not_isPrefix φ h
    rw [hLiteral, hChars, map_pure, map_pure]
    rfl

theorem footprint_literal_eq_pure {text : Bytes} (h : Utf8.runes text = []) {α : Type} (a : α)
    (s : State σ υ) :
    Tagged.footprint <$> (literal text).view φ s =
      Tagged.footprint <$> (Parser.pure a : Parser m σ υ α).view φ s := by
  have hPrefix : Utf8.runes text <+: remaining s.input := h ▸ List.nil_prefix
  obtain ⟨cursor, hPasses, hLiteral⟩ := view_literal_of_isPrefix φ hPrefix
  rw [h] at hPasses hLiteral
  cases hPasses
  rw [hLiteral, view_pure, map_pure, map_pure]
  rfl

end Chains

/-- What a literal comes to from the state `s`, where the runes `x` are left to read. -/
structure AllOrNothing [CharacterClasses] {σ υ : Type} [Source σ Rune] (text : Bytes)
    (x : List Rune) (s : State σ υ) : Prop where
  matched : commonPrefix (Utf8.runes text) x = Utf8.runes text →
    ∃ cursor, Passes s.input (Utf8.runes text) cursor ∧
      ∀ (m : Type → Type) [Computation m], (literal text : Parser m σ υ Bytes) s =
        reply (!(Utf8.runes text).isEmpty) (.ok text (s.withInput cursor) (.unknown (pos cursor)))
  missed : commonPrefix (Utf8.runes text) x ≠ Utf8.runes text →
    ∀ (m : Type → Type) [Computation m], (literal text : Parser m σ υ Bytes) s =
      reply (!(commonPrefix (Utf8.runes text) x).isEmpty)
        (.error ⟨s.pos, [⟨.met,
          (x[(commonPrefix (Utf8.runes text) x).length]?.map Rune.quoted).getD []⟩,
          ⟨.expected, quoted text⟩]⟩)
  chained {m n : Type → Type} [Computation m] [Computation n] [LawfulMonad n] (φ : Transfer m n)
    (t : Grouping Rune) : t.elements = Utf8.runes text →
    Tagged.footprint <$> (literal text : Parser m σ υ Bytes).view φ s =
      Tagged.footprint <$> (chars t : Parser m σ υ Rune).view φ s
  unit {m n : Type → Type} [Computation m] [Computation n] [LawfulMonad n] (φ : Transfer m n)
    {α : Type} (a : α) : Utf8.runes text = [] →
    Tagged.footprint <$> (literal text : Parser m σ υ Bytes).view φ s =
      Tagged.footprint <$> (Parser.pure a : Parser m σ υ α).view φ s

theorem allOrNothing [CharacterClasses] {σ υ : Type} [Source σ Rune] (text : Bytes)
    (s : State σ υ) : AllOrNothing text (remaining s.input) s where
  matched h := literal_of_isPrefix (commonPrefix_eq_left_iff.mp h)
  missed h m _ := by
    obtain ⟨cursor, hPasses, hLiteral⟩ :=
      literal_of_not_isPrefix (fun hPrefix => h (commonPrefix_eq_left_iff.mpr hPrefix))
    have hMet : (remaining s.input)[(commonPrefix (Utf8.runes text)
        (remaining s.input)).length]? = (remaining cursor).head? := by
      have hAll := hPasses.remaining_eq.1
      generalize commonPrefix (Utf8.runes text) (remaining s.input) = shared at hAll
      rw [hAll, List.getElem?_append_right le_rfl, Nat.sub_self, List.head?_eq_getElem?]
    rw [hLiteral, hMet, met_eq_head?]
    rfl
  chained φ t ht := footprint_literal_eq_chars φ ht s
  unit φ _ a h := footprint_literal_eq_pure φ h a s

/-- In texts and in lists of runes, whatever counts as printable, a literal is accepted as a whole
or refused. -/
theorem literal_all_or_nothing [CharacterClasses] {υ : Type} (text : Bytes) (user : υ) :
    (∀ t : Text, AllOrNothing text (Utf8.runes t.rest) (⟨t, user⟩ : State Text υ) ∧
      ∀ cursor, Passes t (Utf8.runes text) cursor → Utf8.isValid text = true →
        Utf8.isValid t.rest = true → t.rest = text ++ cursor.rest ∧
          cursor.pos.offset = t.pos.offset + text.length) ∧
    ∀ t : Tokens Rune, AllOrNothing text t.rest (⟨t, user⟩ : State (Tokens Rune) υ) := by
  refine ⟨fun t => ⟨?_, fun cursor hPasses hText hValid => ?_⟩, fun t => ?_⟩
  · rw [← Text.remaining_eq_runes]
    exact allOrNothing text ⟨t, user⟩
  · have hRest : t.rest = text ++ cursor.rest := Text.rest_eq_append hPasses hText hValid
    have hOffset := Text.offset_add_length_of_passes hPasses
    rw [hRest, List.length_append] at hOffset
    exact ⟨hRest, by omega⟩
  · rw [← Tokens.remaining_eq_rest]
    exact allOrNothing text ⟨t, user⟩

/-- A word with a rune of two bytes, in front of more text and where the text is cut off. -/
theorem literal_all_or_nothing_cut_off :
    let word : Bytes := [110, 195, 169]
    let whole : Text := .ofBytes [] [110, 195, 169, 33]
    let cut : Text := .ofBytes [] [110]
    (∃ cursor, (literal word : Parser Plain Text Unit Bytes) ⟨whole, ()⟩ =
        reply true (.ok word ⟨cursor, ()⟩ (.unknown (pos cursor))) ∧
        whole.rest = word ++ cursor.rest ∧ cursor.pos.offset = 3) ∧
      (literal word : Parser Plain Text Unit Bytes) ⟨cut, ()⟩ =
        reply true (.error ⟨.start [], [⟨.met, []⟩, ⟨.expected, quoted word⟩]⟩) := by
  intro word whole cut
  have hTexts := (literal_all_or_nothing word ()).1
  obtain ⟨cursor, hPasses, hLiteral⟩ := (hTexts whole).1.matched (by decide)
  obtain ⟨hRest, hOffset⟩ := (hTexts whole).2 cursor hPasses (by decide) (by decide)
  exact ⟨⟨cursor, hLiteral Plain, hRest, hOffset⟩, (hTexts cut).1.missed (by decide) Plain⟩

end Parser

end Descent
