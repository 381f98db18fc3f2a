import Mathlib.Data.List.Basic
import Descent.Computation.Plain
import Descent.Parser.Token
import Descent.Proofs.Hint.Merge
import Descent.Proofs.Text.Closest
import Descent.Proofs.Text.Encoding

/-! # Keywords

The word at hand is the longest run of word runes. It is accepted as a whole if it is one of the
words asked for. Otherwise nothing is consumed, and the hint names all words asked for and, where a
word is at hand, asks whether one of the nearest was meant. -/

namespace Descent

open Source

/-! ## Words -/

theorem Rune.encode_ne_nil (r : Rune) : r.encode ≠ [] := by
  rw [encode, encodeScalar]
  split_ifs <;> exact List.cons_ne_nil _ _

section

variable [CharacterClasses]

theorem quoted_ne_nil (text : Bytes) : quoted text ≠ [] :=
  List.append_ne_nil_of_left_ne_nil (List.append_ne_nil_of_left_ne_nil (by decide) _) _

/-- The word that a sequence of runes starts with. -/
def wordAt (x : List Rune) : List Rune := x.takeWhile Rune.isWord

def wordText (x : List Rune) : Bytes := (wordAt x).flatMap Rune.encode

theorem wordText_eq_nil_iff {x : List Rune} : wordText x = [] ↔ wordAt x = [] := by
  rw [wordText, List.flatMap_eq_nil_iff, List.eq_nil_iff_forall_not_mem]
  exact forall₂_congr fun r _ => iff_false_intro r.encode_ne_nil

theorem runes_wordText (x : List Rune) : Utf8.runes (wordText x) = wordAt x :=
  Utf8.runes_encode fun r h =>
    Rune.isScalar_of_isWord (List.all_eq_true.mp List.all_takeWhile r h)

/-! ## Refused words -/

def Hint.remarks (h : Hint) : List Message := h.messages.filter fun m => m.topic = .remark

/-- A word is at hand, and one of `words` is within three edits of it. -/
def NearMiss (words : List Bytes) (x : List Rune) : Prop :=
  wordAt x ≠ [] ∧ ∃ v ∈ words, levenshtein (wordAt x) (Utf8.runes v) ≤ 3

/-- What is said where the runes `x` do not start with one of `words`. -/
structure Refuses (distance : Bytes → Bytes → Nat) (words : List Bytes) (x : List Rune)
    (hint : Hint) : Prop where
  expected : hint.expected = (words.map quoted).eraseDups
  asks : CountsPlainly distance (wordText x) words → NearMiss words x →
    ∃ named, NearestWords (wordAt x) words named ∧ hint.remarks = [⟨.remark, question named⟩]
  silent : CountsPlainly distance (wordText x) words → ¬ NearMiss words x → hint.remarks = []

namespace Parser

variable {σ : Type} [Source σ Rune] {distance : Bytes → Bytes → Nat}

theorem expected_refusal (pos : Position) (words : List Bytes) (word : Bytes) (input : σ) :
    Hint.expected ⟨pos, refusal distance words word input⟩ = (words.map quoted).eraseDups := by
  have hTexts :
      (((refusal distance words word input).filter fun m =>
        m.topic = .expected && m.text ≠ []).map Message.text) = words.map quoted := by
    -- No quoted text is empty, the one of the empty word neither, so every expectation is listed.
    unfold refusal
    split
    · simp [met, List.filter_map, Function.comp_def, quoted_ne_nil]
    · simp [List.filter_map, Function.comp_def, quoted_ne_nil]
  rw [Hint.expected, Hint.texts, hTexts, Hint.firstOccurrences_eq_eraseDups]

theorem remarks_refusal (pos : Position) (words : List Bytes) (word : Bytes) (input : σ) :
    Hint.remarks ⟨pos, refusal distance words word input⟩ = if word = [] then []
      else (suggestion? distance word words).toList.map fun text => ⟨.remark, text⟩ := by
  rw [Hint.remarks]
  unfold refusal
  split
  · simp [met, List.filter_map, Function.comp_def]
  · simp [List.filter_map, Function.comp_def]

theorem nearMiss_iff {words : List Bytes} {x : List Rune}
    (hPlain : CountsPlainly distance (wordText x) words) :
    NearMiss words x ↔
      wordText x ≠ [] ∧ closest distance suggestionBound (wordText x) words ≠ [] := by
  rw [NearMiss, ne_eq, ne_eq, wordText_eq_nil_iff, closest_ne_nil_iff]
  refine and_congr_right fun _ => exists_congr fun v => and_congr_right fun hv => ?_
  rw [hPlain v hv, runes_wordText]
  rfl

theorem refuses_refusal (pos : Position) (words : List Bytes) (x : List Rune) (input : σ) :
    Refuses distance words x ⟨pos, refusal distance words (wordText x) input⟩ where
  expected := expected_refusal pos words (wordText x) input
  asks hPlain hNear := by
    obtain ⟨hWord, hFound⟩ := (nearMiss_iff hPlain).mp hNear
    have hNearest := nearestWords_closest hPlain hFound
    rw [runes_wordText] at hNearest
    refine ⟨_, hNearest, ?_⟩
    rw [remarks_refusal, if_neg hWord, suggestion?_eq, if_neg hFound]
    rfl
  silent hPlain hFar := by
    rw [nearMiss_iff hPlain, not_and_not_right] at hFar
    rw [remarks_refusal]
    split
    · rfl
    · rename_i hWord
      rw [suggestion?_eq, if_pos (hFar hWord)]
      rfl

/-- What a keyword comes to from the state `s`, where the runes `x` are left to read. -/
structure WholeWord {σ υ : Type} [Source σ Rune] (distance : Bytes → Bytes → Nat)
    (words : List Bytes) (x : List Rune) (s : State σ υ) : Prop where
  accepted : wordAt x ≠ [] → wordText x ∈ words → ∃ cursor, Passes s.input (wordAt x) cursor ∧
    (∀ r rest, next? cursor = some (r, rest) → r.isWord = false) ∧
    ∀ (m : Type → Type) [Computation m], (keyword distance words : Parser m σ υ Bytes) s =
      reply true (.ok (wordText x) (s.withInput cursor) (.unknown (pos cursor)))
  refused : ¬ (wordAt x ≠ [] ∧ wordText x ∈ words) →
    ∃ hint, hint.pos = s.pos ∧ Refuses distance words x hint ∧
      ∀ (m : Type → Type) [Computation m], (keyword distance words : Parser m σ υ Bytes) s =
        reply false (.error hint)

theorem wholeWord {υ : Type} (distance : Bytes → Bytes → Nat) (words : List Bytes)
    (s : State σ υ) : WholeWord distance words (remaining s.input) s := by
  have hRunes : (span Rune.isWord s.input).1 = wordAt (remaining s.input) := span_eq_takeWhile _ _
  have hWord : (span Rune.isWord s.input).1.flatMap Rune.encode = wordText (remaining s.input) :=
    congrArg (List.flatMap Rune.encode) hRunes
  -- How far the scan went shows in the word only: a refusal stands where it began.
  constructor
  · intro hSome hMem
    refine ⟨(span Rune.isWord s.input).2, hRunes ▸ passes_span _ _, fun r rest => next?_span, ?_⟩
    intro m _
    rw [keyword]
    simp only [hWord]
    rw [if_pos ⟨wordText_eq_nil_iff.not.mpr hSome, hMem⟩]
  · intro hNone
    refine ⟨_, rfl, refuses_refusal s.pos words (remaining s.input) s.input, ?_⟩
    intro m _
    rw [keyword]
    simp only [hWord]
    rw [if_neg fun h => hNone ⟨wordText_eq_nil_iff.not.mp h.1, h.2⟩]

/-- In texts and in lists of runes, whatever counts as a letter or a digit and whatever tells the
distances of words, a keyword is a whole word or nothing. -/
theorem keyword_whole_words {υ : Type} (distance : Bytes → Bytes → Nat) (words : List Bytes)
    (user : υ) :
    (∀ t : Text, WholeWord distance words (Utf8.runes t.rest) (⟨t, user⟩ : State Text υ)) ∧
      ∀ t : Tokens Rune, WholeWord distance words t.rest (⟨t, user⟩ : State (Tokens Rune) υ) := by
  constructor
  · intro t
    rw [← Text.remaining_eq_runes]
    exact wholeWord distance words ⟨t, user⟩
  · intro t
    rw [← Tokens.remaining_eq_rest]
    exact wholeWord distance words ⟨t, user⟩

end Parser

end

namespace Parser

/-- A word asked for in front of more text, and one that misses it by two edits. -/
theorem keyword_whole_words_misspelled :
    let words := [utf8 "let", utf8 "var", utf8 "let"]
    let hit : Text := .ofBytes [] (utf8 "var x")
    let miss : Tokens Rune := .ofList [] (Utf8.runes (utf8 "lte = 1"))
    (∃ cursor, (keyword editDistance words : Parser Plain Text Unit Bytes) ⟨hit, ()⟩ =
        reply true (.ok (utf8 "var") ⟨cursor, ()⟩ (.unknown (pos cursor)))) ∧
      ∃ hint, (keyword editDistance words : Parser Plain (Tokens Rune) Unit Bytes) ⟨miss, ()⟩ =
          reply false (.error hint) ∧ hint.pos.offset = 0 ∧
        hint.expected = [quoted (utf8 "let"), quoted (utf8 "var")] ∧
        hint.remarks = [⟨.remark, question [utf8 "let"]⟩] := by
  intro words hit miss
  obtain ⟨hTexts, hTokens⟩ := keyword_whole_words editDistance words ()
  constructor
  · obtain ⟨cursor, -, -, hKeyword⟩ := (hTexts hit).accepted (by decide) (by decide)
    exact ⟨cursor, hKeyword Plain⟩
  · obtain ⟨hint, hPos, hRefuses, hKeyword⟩ := (hTokens miss).refused (by decide)
    have hPlain : CountsPlainly editDistance (wordText miss.rest) words :=
      countsPlainly (by decide) (by decide)
    have hNear : NearMiss words miss.rest := by
      refine ⟨by decide, utf8 "let", by decide, ?_⟩
      rw [← runes_wordText, ← hPlain _ (by decide)]
      decide
    obtain ⟨named, hNamed, hRemarks⟩ := hRefuses.asks hPlain hNear
    have hClosest : closest editDistance 3 (wordText miss.rest) words = [utf8 "let"] := by
      have hScan :
          (words.foldl (Nearest.consider editDistance (wordText miss.rest)) ⟨3, []⟩).words =
            [utf8 "let", utf8 "let"] := by decide
      rw [closest, hScan, List.mergeSort_of_pairwise (by decide)]
      rfl
    have hLet := nearestWords_closest hPlain (hClosest.trans_ne (List.cons_ne_nil _ _))
    rw [hClosest, runes_wordText] at hLet
    refine ⟨hint, hKeyword Plain, by rw [hPos]; rfl, hRefuses.expected.trans (by decide), ?_⟩
    rw [hRemarks, hNamed.unique hLet]

end Parser

end Descent
