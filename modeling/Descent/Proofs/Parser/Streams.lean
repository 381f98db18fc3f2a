import Descent.Proofs.Hint.Merge
import Descent.Proofs.Parser.Simulation
import Descent.Proofs.Source.Reading

/-! # Inputs with the same elements

A grammar that does not look at positions cannot tell two inputs with the same elements apart. From
the start of each, both runs pass over the same elements, and so do the cursors at which their hints
stand. Offsets count different things in the two inputs, bytes in one and tokens in the other, but
they are ordered alike, and the order is all that joining hints depends on. -/

namespace Descent

open Source

variable {σ σ' τ υ : Type} [Source σ τ] [Source σ' τ]

/-- The same elements lead to both cursors, each from its own start. -/
def Source.Aligned (start : σ) (start' : σ') (cursor : σ) (cursor' : σ') : Prop :=
  ∃ passed, Passes start passed cursor ∧ Passes start' passed cursor'

namespace Source.Aligned

variable {start cursor later : σ} {start' cursor' later' : σ'}

theorem refl (start : σ) (start' : σ') : Aligned start start' start start' :=
  ⟨[], .stay start, .stay start'⟩

theorem remaining_eq (hStart : remaining start = remaining start')
    (h : Aligned start start' cursor cursor') : remaining cursor = remaining cursor' := by
  obtain ⟨passed, hLeft, hRight⟩ := h
  rw [hLeft.remaining_eq.1, hRight.remaining_eq.1] at hStart
  exact List.append_cancel_left hStart

theorem next (hStart : remaining start = remaining start')
    (h : Aligned start start' cursor cursor') :
    Option.Rel (fun x x' => x.1 = x'.1 ∧ Aligned start start' x.2 x'.2) (next? cursor)
      (next? cursor') := by
  have hRemaining := h.remaining_eq hStart
  obtain ⟨passed, hLeft, hRight⟩ := h
  cases hNext : next? cursor with
  | none =>
    cases hNext' : next? cursor' with
    | none => exact .none
    | some x' =>
      rw [remaining_of_end hNext, remaining_of_next hNext'] at hRemaining
      cases hRemaining
  | some x =>
    cases hNext' : next? cursor' with
    | none =>
      rw [remaining_of_next hNext, remaining_of_end hNext'] at hRemaining
      cases hRemaining
    | some x' =>
      rw [remaining_of_next hNext, remaining_of_next hNext'] at hRemaining
      obtain ⟨hElement, -⟩ := List.cons.inj hRemaining
      have hRight' : Passes start' (passed ++ [x.1]) x'.2 := by
        rw [hElement]
        exact hRight.trans (.one hNext')
      exact .some ⟨hElement, passed ++ [x.1], hLeft.trans (.one hNext), hRight'⟩

theorem offset_lt_iff [Advancing σ] [Advancing σ'] (h : Aligned start start' cursor cursor')
    (hLater : Aligned start start' later later') :
    (pos cursor).offset < (pos later).offset ↔ (pos cursor').offset < (pos later').offset := by
  obtain ⟨xs, hLeft, hRight⟩ := h
  obtain ⟨ys, hLeft', hRight'⟩ := hLater
  rw [hLeft.offset_lt_iff hLeft', hRight.offset_lt_iff hRight']

end Source.Aligned

/-- Both hints have the same messages, and stand where the same elements have passed. -/
def Hint.Aligned (start : σ) (start' : σ') (h h' : Hint) : Prop :=
  h.messages = h'.messages ∧ ∃ cursor cursor', Source.Aligned start start' cursor cursor' ∧
    h.pos = Source.pos cursor ∧ h'.pos = Source.pos cursor'

namespace Hint.Aligned

variable [Advancing σ] [Advancing σ'] {start : σ} {start' : σ'} {a a' b b' : Hint}

theorem rank_lt_iff (ha : Hint.Aligned start start' a a') (hb : Hint.Aligned start start' b b') :
    a.rank < b.rank ↔ a'.rank < b'.rank := by
  obtain ⟨hMessages, _, _, hCursor, hPos, hPos'⟩ := ha
  obtain ⟨hMessagesLater, _, _, hLater, hPosLater, hPosLater'⟩ := hb
  have hOffset := hCursor.offset_lt_iff hLater
  rw [← hPos, ← hPos', ← hPosLater, ← hPosLater'] at hOffset
  rw [rank_lt_rank, rank_lt_rank, hOffset, isUnknown, isUnknown, isUnknown, isUnknown, hMessages,
    hMessagesLater]

theorem merge (ha : Hint.Aligned start start' a a') (hb : Hint.Aligned start start' b b') :
    Hint.Aligned start start' (a.merge b) (a'.merge b') := by
  have hForward := ha.rank_lt_iff hb
  have hBackward := hb.rank_lt_iff ha
  rcases lt_trichotomy a.rank b.rank with h | h | h
  · rw [merge_of_rank_lt h, merge_of_rank_lt (hForward.mp h)]
    exact hb
  · have hSame : a'.rank = b'.rank := by
      refine le_antisymm (not_lt.mp fun hLess => ?_) (not_lt.mp fun hLess => ?_)
      · exact (hBackward.mpr hLess).ne h.symm
      · exact (hForward.mpr hLess).ne h
    rw [merge_of_rank_eq h, merge_of_rank_eq hSame, ha.1, hb.1]
    exact ⟨rfl, ha.2⟩
  · rw [merge_of_rank_gt h, merge_of_rank_gt (hBackward.mp h)]
    exact ha

end Hint.Aligned

namespace Correspondence

/-- The same elements have passed on both sides, and the user states are the same. -/
def aligned (start : σ) (start' : σ') : Correspondence σ σ' υ where
  state s s' := s.user = s'.user ∧ Source.Aligned start start' s.input s'.input
  hint := Hint.Aligned start start'

variable {start : σ} {start' : σ'}

theorem aligned_closed [Advancing σ] [Advancing σ'] (hStart : remaining start = remaining start') :
    (aligned start start' : Correspondence σ σ' υ).Closed where
  next {s s'} hs := by
    have hNext := hs.2.next hStart
    generalize next? s.input = next at hNext
    generalize next? s'.input = next' at hNext
    cases hNext with
    | none => exact .none
    | some h => exact .some ⟨h.1, hs.1, h.2⟩
  stand {s s'} _ hs := ⟨rfl, s.input, s'.input, hs.2, rfl, rfl⟩
  merge := .merge
  relabel name h := by
    obtain ⟨hMessages, hPlaces⟩ := h
    refine ⟨?_, hPlaces⟩
    rw [Hint.relabel, Hint.relabel, hMessages]

theorem aligned_sharesUsers : (aligned start start' : Correspondence σ σ' υ).SharesUsers where
  user hs := hs.1
  withUser _ hs := ⟨rfl, hs.2⟩

end Correspondence

variable {ε ρ : Type → Type}

/-- The grammar neither looks at positions nor records them. -/
def Grammar.PlaceFree {α : Type} (g : Grammar τ υ ε ρ α) : Prop :=
  g.Asks (fun _ => True) False ∧ g.Reads False True

theorem Rulebook.observe_aligned [Shown τ] [Advancing σ] [Advancing σ'] {m : Type → Type}
    [Computation m] [UniformComputation m] (perform : {α : Type} → ε α → m α) (bound : Nat)
    {rules : {α : Type} → ρ α → Grammar τ υ ε ρ α}
    (hRules : ∀ {α : Type} (name : ρ α), (rules name).PlaceFree) {α : Type}
    {g : Grammar τ υ ε ρ α} (hg : g.PlaceFree) {start : σ} {start' : σ'}
    (hStart : remaining start = remaining start') (user : υ) :
    Coupled (Tagged.Related (Reply.Related (.aligned start start')))
      ((Rulebook.parser perform bound (ofGrammars rules) g).observe ⟨start, user⟩)
      ((Rulebook.parser perform bound (ofGrammars rules) g).observe ⟨start', user⟩) := by
  let S : Simulation m m := .through (.refl m) (.refl m)
  have hSupports : Supports S (.aligned start start' : Correspondence σ σ' υ) perform perform
      (fun _ => True) False False True :=
    { closed := Correspondence.aligned_closed hStart
      perform := fun e _ => Coupled.refl (perform e)
      tells := False.elim
      places := False.elim
      users := fun _ => Correspondence.aligned_sharesUsers }
  have hBound : S.bounds bound bound := rfl
  have hCorresponds := Rulebook.parser_corresponds hSupports hBound (fun name => (hRules name).1)
    (fun name => (hRules name).2) hg.1 hg.2
  exact hCorresponds.observe ⟨rfl, .refl start start'⟩

/-! ## Texts and their runes, texts and their ends -/

variable {α : Type}

/-- The outcomes of two runs agree in everything but where their inputs stand. -/
structure Tagged.Agree (t : Tagged (Reply σ υ α)) (t' : Tagged (Reply σ' υ α)) : Prop where
  consumed : t.consumed = t'.consumed
  isOk : t.value.isOk = t'.value.isOk
  value : t.value.value? = t'.value.value?
  user : t.value.state?.map State.user = t'.value.state?.map State.user
  messages : t.value.hint.messages = t'.value.hint.messages

/-- On a text and on its runes: the runes left are the same, and the hint stands at the byte where
the rune starts at which it stands among the runes. -/
structure Tagged.AgreeOnRunes (src : Bytes) (t : Tagged (Reply Text υ α))
    (t' : Tagged (Reply (Tokens Rune) υ α)) : Prop extends t.Agree t' where
  left : t.value.state?.map (fun s => remaining s.input) =
    t'.value.state?.map fun s => remaining s.input
  place : ∃ index ≤ (Utf8.runes src).length,
    t'.value.hint.pos.offset = index ∧ t.value.hint.pos.offset = Utf8.byteOffset src index

/-- On a text after so many bytes and on what is left of it alone: the rest is the same, and only
offsets differ. -/
structure Tagged.AgreeAfter (width : Nat) (t t' : Tagged (Reply Text υ α)) : Prop
    extends t.Agree t' where
  rest : t.value.state?.map (fun s => s.input.rest) = t'.value.state?.map fun s => s.input.rest
  place : t.value.hint.pos.offset = t'.value.hint.pos.offset + width

namespace Tagged.Related

variable {start : σ} {start' : σ'} {t : Tagged (Reply σ υ α)} {t' : Tagged (Reply σ' υ α)}

theorem agree (h : Tagged.Related (Reply.Related (.aligned start start')) t t') : t.Agree t' := by
  obtain ⟨consumed, ⟨a, hs, hh⟩ | hh⟩ := h
  · exact ⟨rfl, rfl, rfl, congrArg some hs.1, hh.1⟩
  · exact ⟨rfl, rfl, rfl, rfl, hh.1⟩

theorem hint_aligned (h : Tagged.Related (Reply.Related (.aligned start start')) t t') :
    Hint.Aligned start start' t.value.hint t'.value.hint := by
  obtain ⟨consumed, ⟨a, hs, hh⟩ | hh⟩ := h
  · exact hh
  · exact hh

/-- What can be read off cursors over which the same elements have passed is the same. -/
theorem map_state_eq {γ : Type} {f : σ → γ} {f' : σ' → γ}
    (hf : ∀ cursor cursor', Source.Aligned start start' cursor cursor' → f cursor = f' cursor')
    (h : Tagged.Related (Reply.Related (.aligned start start')) t t') :
    t.value.state?.map (fun s => f s.input) = t'.value.state?.map fun s => f' s.input := by
  obtain ⟨consumed, ⟨a, hs, hh⟩ | hh⟩ := h
  · exact congrArg some (hf _ _ hs.2)
  · rfl

end Tagged.Related

theorem Tagged.Related.agreeOnRunes {name src : Bytes} {t : Tagged (Reply Text υ α)}
    {t' : Tagged (Reply (Tokens Rune) υ α)}
    (h : Tagged.Related (Reply.Related (.aligned (Text.ofBytes name src)
      (Tokens.ofList name (Utf8.runes src)))) t t') : t.AgreeOnRunes src t' := by
  have hLeft := h.map_state_eq fun _ _ => Aligned.remaining_eq (Text.remaining_eq_tokens name src)
  refine { h.agree with left := hLeft, place := ?_ }
  obtain ⟨-, cursor, cursor', ⟨passed, hText, hTokens⟩, hPos, hPos'⟩ := h.hint_aligned
  refine ⟨passed.length, ?_, ?_, ?_⟩
  · have hPassed := hText.remaining_eq.1
    rw [Text.remaining_eq_runes, Text.rest_ofBytes] at hPassed
    rw [hPassed, List.length_append]
    omega
  · have hOffset := Tokens.offset_of_passes hTokens
    rw [hPos']
    change (cursor'.offset : Int) = passed.length
    rw [hOffset, Tokens.offset_ofList, Nat.zero_add]
  · have hOffset := Text.offset_of_passes hText
    rw [hPos]
    change cursor.pos.offset = _
    rw [hOffset, Text.offset_ofBytes, Text.rest_ofBytes, Int.zero_add]

theorem Tagged.Related.agreeAfter {name u w : Bytes} {middle : Text}
    (hReaches : Reaches (Text.ofBytes name (u ++ w)) middle) (hRest : middle.rest = w)
    {t t' : Tagged (Reply Text υ α)}
    (h : Tagged.Related (Reply.Related (.aligned middle (Text.ofBytes name w))) t t') :
    t.AgreeAfter u.length t' := by
  have hMiddle : middle.pos.offset = u.length := by
    obtain ⟨passed, hPasses⟩ := hReaches
    have hOffset := Text.offset_add_length_of_passes hPasses
    rw [hRest, Text.offset_ofBytes, Text.rest_ofBytes, List.length_append] at hOffset
    omega
  refine { h.agree with rest := h.map_state_eq ?_, place := ?_ }
  · rintro cursor cursor' ⟨passed, hLeft, hRight⟩
    rw [Text.rest_of_passes hLeft, Text.rest_of_passes hRight, hRest, Text.rest_ofBytes]
  · obtain ⟨-, cursor, cursor', ⟨passed, hLeft, hRight⟩, hPos, hPos'⟩ := h.hint_aligned
    have hOffset := Text.offset_of_passes hLeft
    have hOffset' := Text.offset_of_passes hRight
    rw [hRest, hMiddle] at hOffset
    rw [Text.offset_ofBytes, Text.rest_ofBytes] at hOffset'
    rw [hPos, hPos']
    change cursor.pos.offset = cursor'.pos.offset + u.length
    omega

/-- The runes of a text are those that it gives one after the other, broken bytes as replacement
runes. A text that has been read up to some byte stands where a rune starts. -/
theorem streams_agree {m : Type → Type} [Computation m] [UniformComputation m]
    (perform : {α : Type} → ε α → m α) (bound : Nat)
    (rules : {α : Type} → ρ α → Grammar Rune υ ε ρ α)
    (hRules : ∀ {α : Type} (name : ρ α), (rules name).PlaceFree) {g : Grammar Rune υ ε ρ α}
    (hg : g.PlaceFree) (name : Bytes) (user : υ) :
    let observed {σ : Type} [Source σ Rune] (input : σ) : m (Tagged (Reply σ υ α)) :=
      (Rulebook.parser perform bound (Rulebook.ofGrammars rules) g).observe ⟨input, user⟩
    (∀ src, Coupled (Tagged.AgreeOnRunes src) (observed (Text.ofBytes name src))
      (observed (Tokens.ofList name (remaining (Text.ofBytes name src))))) ∧
    ∀ u w middle, Reaches (Text.ofBytes name (u ++ w)) middle → middle.rest = w →
      Coupled (Tagged.AgreeAfter u.length) (observed middle) (observed (Text.ofBytes name w)) := by
  intro observed
  constructor
  · intro src
    have hRunes : remaining (Text.ofBytes name src) = Utf8.runes src := Text.remaining_eq_runes _
    have hAligned := Rulebook.observe_aligned perform bound hRules hg
      (Text.remaining_eq_tokens name src) user
    rw [hRunes]
    exact hAligned.mono fun _ _ h => h.agreeOnRunes
  · intro u w middle hReaches hRest
    have hStart : remaining middle = remaining (Text.ofBytes name w) := by
      rw [Text.remaining_eq_runes, Text.remaining_eq_runes, hRest, Text.rest_ofBytes]
    exact (Rulebook.observe_aligned perform bound hRules hg hStart user).mono
      fun _ _ h => h.agreeAfter hReaches hRest

/-- A broken byte and an `é` are read, and an `x` is missed at byte 3, which is rune 2. After these
three bytes, `a` and `b` are read from the text as they are from a text of their own. -/
theorem streams_agree_broken :
    let g : Grammar Rune Unit (fun _ => Empty) (fun _ => Empty) Unit :=
      Grammar.anyToken.andThen
        (Grammar.anyToken.andThen (Grammar.char (.ofChar 'x')).optional)
    let observed {σ : Type} [Source σ Rune] (input : σ) : Plain (Tagged (Reply σ Unit Unit)) :=
      (Rulebook.parser nofun 1 (Rulebook.ofGrammars nofun) g).observe ⟨input, ()⟩
    let src : Bytes := [255, 195, 169, 97, 98]
    let text := Text.ofBytes [] src
    (∃ t t', observed text = .ok t ∧ observed (Tokens.ofList [] (Utf8.runes src)) = .ok t' ∧
      t.AgreeOnRunes src t' ∧ t.value.hint.pos.offset = 3) ∧
    ∃ t t', observed (Source.tail (Source.tail text)) = .ok t ∧
      observed (Text.ofBytes [] [97, 98]) = .ok t' ∧ t.AgreeAfter 3 t' := by
  intro g observed src text
  have hg : g.PlaceFree := by
    refine ⟨⟨trivial, fun _ => ⟨trivial, fun _ => ⟨trivial, trivial⟩⟩⟩, ?_⟩
    exact ⟨trivial, fun _ => ⟨trivial, fun _ => ⟨trivial, trivial⟩⟩⟩
  obtain ⟨hRunes, hAfter⟩ := streams_agree (m := Plain) nofun 1 nofun nofun hg [] ()
  have hSrc : remaining text = Utf8.runes src := Text.remaining_eq_runes text
  have hMiddle : Reaches text (Source.tail (Source.tail text)) :=
    ⟨_, .move rfl (.move rfl (.stay _))⟩
  constructor
  · have hCoupled : Coupled (Tagged.AgreeOnRunes src) (observed text)
        (observed (Tokens.ofList [] (Utf8.runes src))) := hSrc ▸ hRunes src
    have hOffset : (observed text).toOption.map (fun t => t.value.hint.pos.offset) = some 3 := by
      decide +kernel
    obtain ⟨t, ht⟩ : ∃ t, observed text = .ok t := ⟨_, rfl⟩
    obtain ⟨t', ht'⟩ : ∃ t', observed (Tokens.ofList [] (Utf8.runes src)) = .ok t' := ⟨_, rfl⟩
    rw [ht] at hOffset
    rw [ht, ht'] at hCoupled
    exact ⟨t, t', ht, ht', Plain.related_of_coupled hCoupled, Option.some.inj hOffset⟩
  · have hCoupled : Coupled (Tagged.AgreeAfter 3) (observed (Source.tail (Source.tail text)))
        (observed (Text.ofBytes [] [97, 98])) := hAfter [255, 195, 169] [97, 98] _ hMiddle rfl
    obtain ⟨t, ht⟩ : ∃ t, observed (Source.tail (Source.tail text)) = .ok t := ⟨_, rfl⟩
    obtain ⟨t', ht'⟩ : ∃ t', observed (Text.ofBytes [] [97, 98]) = .ok t' := ⟨_, rfl⟩
    rw [ht, ht'] at hCoupled
    exact ⟨t, t', ht, ht', Plain.related_of_coupled hCoupled⟩

end Descent
