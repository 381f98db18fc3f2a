import Mathlib.Data.List.Sort
import Mathlib.Order.Nat
import Descent.Proofs.Text.EditDistance
import Descent.Text.Closest

/-! # The nearest words

One number is the cut-off until a candidate is within it, and the least distance seen from then on.
What is kept are the candidates at that number, so in the end they are all those at the least
distance of any candidate, or none where all are beyond the cut-off. Sorting them brings equal ones
together, so that neither the order of the candidates nor a repetition among them shows. -/

namespace Descent

/-! ## The scan -/

/-- What a scan for the words nearest to `word` knows, where `seen` are the candidates so far. -/
structure Nearest.Among (distance : Bytes → Bytes → Nat) (bound : Nat) (word : Bytes)
    (seen : List Bytes) (best : Nearest) : Prop where
  bound_le : best.bound ≤ bound
  le_distance : ∀ c ∈ seen, best.bound ≤ distance word c
  reached : best.bound = bound ∨ ∃ c ∈ seen, distance word c = best.bound
  mem_words {v : Bytes} : v ∈ best.words ↔ v ∈ seen ∧ distance word v = best.bound

namespace Nearest.Among

variable {distance : Bytes → Bytes → Nat} {bound : Nat} {word candidate : Bytes}
  {seen : List Bytes} {best : Nearest}

theorem start (distance : Bytes → Bytes → Nat) (bound : Nat) (word : Bytes) :
    Among distance bound word [] ⟨bound, []⟩ where
  bound_le := le_rfl
  le_distance := by simp
  reached := .inl rfl
  mem_words := by simp

/-- Everything kept is farther than a nearer candidate. -/
theorem nearer (h : Among distance bound word seen best)
    (hNearer : distance word candidate < best.bound) :
    Among distance bound word (seen ++ [candidate]) ⟨distance word candidate, [candidate]⟩ where
  bound_le := hNearer.le.trans h.bound_le
  le_distance := by
    rw [List.forall_mem_append, List.forall_mem_singleton]
    exact ⟨fun c hc => hNearer.le.trans (h.le_distance c hc), le_rfl⟩
  reached := .inr ⟨candidate, by simp, rfl⟩
  mem_words {v} := by
    rw [List.mem_singleton, List.mem_append, List.mem_singleton]
    constructor
    · rintro rfl
      exact ⟨.inr rfl, rfl⟩
    · rintro ⟨hv | rfl, hDistance⟩
      · exact absurd ((h.le_distance v hv).trans_eq hDistance) hNearer.not_ge
      · rfl

theorem same (h : Among distance bound word seen best)
    (hSame : distance word candidate = best.bound) :
    Among distance bound word (seen ++ [candidate])
      { best with words := candidate :: best.words } where
  bound_le := h.bound_le
  le_distance := by
    rw [List.forall_mem_append, List.forall_mem_singleton]
    exact ⟨h.le_distance, hSame.ge⟩
  reached := .inr ⟨candidate, by simp, hSame⟩
  mem_words {v} := by
    rw [List.mem_cons, List.mem_append, List.mem_singleton, h.mem_words]
    constructor
    · rintro (rfl | ⟨hv, hDistance⟩)
      · exact ⟨.inr rfl, hSame⟩
      · exact ⟨.inl hv, hDistance⟩
    · rintro ⟨hv | rfl, hDistance⟩
      · exact .inr ⟨hv, hDistance⟩
      · exact .inl rfl

theorem farther (h : Among distance bound word seen best)
    (hFarther : best.bound < distance word candidate) :
    Among distance bound word (seen ++ [candidate]) best where
  bound_le := h.bound_le
  le_distance := by
    rw [List.forall_mem_append, List.forall_mem_singleton]
    exact ⟨h.le_distance, hFarther.le⟩
  reached := by
    rcases h.reached with hBound | ⟨c, hc, hDistance⟩
    · exact .inl hBound
    · exact .inr ⟨c, List.mem_append_left _ hc, hDistance⟩
  mem_words {v} := by
    rw [h.mem_words, List.mem_append, List.mem_singleton]
    constructor
    · rintro ⟨hv, hDistance⟩
      exact ⟨.inl hv, hDistance⟩
    · rintro ⟨hv | rfl, hDistance⟩
      · exact ⟨hv, hDistance⟩
      · exact absurd hDistance hFarther.ne'

theorem consider (h : Among distance bound word seen best) (candidate : Bytes) :
    Among distance bound word (seen ++ [candidate]) (best.consider distance word candidate) := by
  unfold Nearest.consider
  rcases lt_trichotomy (distance word candidate) best.bound with hNearer | hSame | hFarther
  · rw [if_pos hNearer]
    exact h.nearer hNearer
  · rw [if_neg hSame.not_lt, if_pos hSame]
    exact h.same hSame
  · rw [if_neg hFarther.not_gt, if_neg hFarther.ne']
    exact h.farther hFarther

theorem foldl (h : Among distance bound word seen best) (candidates : List Bytes) :
    Among distance bound word (seen ++ candidates)
      (candidates.foldl (Nearest.consider distance word) best) := by
  induction candidates generalizing seen best with
  | nil => rwa [List.append_nil]
  | cons candidate candidates ih =>
    rw [List.append_cons]
    exact ih (h.consider candidate)

/-- The words kept are those within the cut-off that no candidate is nearer than. -/
theorem mem_words_iff (h : Among distance bound word seen best) {v : Bytes} :
    v ∈ best.words ↔ v ∈ seen ∧ distance word v ≤ bound ∧
      ∀ c ∈ seen, distance word v ≤ distance word c := by
  rw [h.mem_words]
  constructor
  · rintro ⟨hv, hDistance⟩
    rw [hDistance]
    exact ⟨hv, h.bound_le, h.le_distance⟩
  · rintro ⟨hv, hBound, hLeast⟩
    refine ⟨hv, le_antisymm ?_ (h.le_distance v hv)⟩
    rcases h.reached with hReached | ⟨c, hc, hReached⟩
    · rwa [hReached]
    · rw [← hReached]
      exact hLeast c hc

theorem exists_mem_words (h : Among distance bound word seen best) {v : Bytes} (hv : v ∈ seen)
    (hWithin : distance word v ≤ bound) : ∃ c, c ∈ best.words := by
  rcases h.reached with hBound | ⟨c, hc, hDistance⟩
  · refine ⟨v, h.mem_words.mpr ⟨hv, le_antisymm ?_ (h.le_distance v hv)⟩⟩
    rwa [hBound]
  · exact ⟨c, h.mem_words.mpr ⟨hc, hDistance⟩⟩

end Nearest.Among

/-! ## Order without repetition -/

theorem Bytes.le_iff {a b : Bytes} : Bytes.le a b = true ↔ a ≤ b := by
  fun_induction Bytes.le a b with
  | case1 b => simp
  | case2 a as => simp
  | case3 a as b bs hLess => simp [List.cons_le_cons_iff, hLess]
  | case4 a as b bs hNotLess hLess =>
    simp [List.cons_le_cons_iff, hNotLess, (UInt8.ne_of_lt hLess).symm]
  | case5 a as b bs hNotLess hNotGreater ih =>
    have hSame : a = b := UInt8.le_antisymm (UInt8.not_lt.mp hNotGreater) (UInt8.not_lt.mp hNotLess)
    simp [List.cons_le_cons_iff, hSame, ih]

theorem pairwise_mergeSort_le (texts : List Bytes) :
    (texts.mergeSort Bytes.le).Pairwise (· ≤ ·) := by
  refine (List.pairwise_mergeSort ?_ ?_ texts).imp Bytes.le_iff.mp
  · intro a b c hab hbc
    rw [Bytes.le_iff] at *
    exact List.le_trans hab hbc
  · intro a b
    rw [Bool.or_eq_true, Bytes.le_iff, Bytes.le_iff]
    exact List.le_total a b

section

variable {α : Type} [DecidableEq α]

@[simp] theorem mem_withoutRuns {a : α} {xs : List α} : a ∈ withoutRuns xs ↔ a ∈ xs := by
  fun_induction withoutRuns xs <;> grind

theorem pairwise_withoutRuns {r : α → α → Prop} {xs : List α} (h : xs.Pairwise r)
    (hAnti : ∀ a b, r a b → r b a → a = b) :
    (withoutRuns xs).Pairwise fun a b => r a b ∧ a ≠ b := by
  fun_induction withoutRuns xs with
  | case1 a rest ih => exact ih h.of_cons
  | case2 a b rest hOther ih =>
    -- What follows `b` is at least `b`, and `b` is above `a`.
    rw [List.pairwise_cons] at h
    refine List.pairwise_cons.mpr ⟨?_, ih h.2⟩
    intro c hc
    have hac : r a c := h.1 c (mem_withoutRuns.mp hc)
    refine ⟨hac, ?_⟩
    rintro rfl
    rcases List.mem_cons.mp (mem_withoutRuns.mp hc) with rfl | hc
    · exact hOther rfl
    · exact hOther (hAnti a b (h.1 b (List.mem_cons_self ..)) (List.rel_of_pairwise_cons h.2 hc))
  | case3 xs hShort =>
    match xs, hShort with
    | [], _ => exact .nil
    | [a], _ => exact List.pairwise_singleton _ a
    | a :: b :: rest, hShort => exact absurd rfl (hShort a b rest)

end

/-! ## What is found -/

variable {distance : Bytes → Bytes → Nat} {bound : Nat} {word : Bytes} {candidates : List Bytes}

theorem mem_closest {v : Bytes} :
    v ∈ closest distance bound word candidates ↔ v ∈ candidates ∧ distance word v ≤ bound ∧
      ∀ c ∈ candidates, distance word v ≤ distance word c := by
  rw [closest, mem_withoutRuns, List.mem_mergeSort]
  exact ((Nearest.Among.start distance bound word).foldl candidates).mem_words_iff

theorem closest_increasing : (closest distance bound word candidates).Pairwise (· < ·) := by
  have hAnti (a b : Bytes) : a ≤ b → b ≤ a → a = b := List.le_antisymm
  refine (pairwise_withoutRuns (pairwise_mergeSort_le _) hAnti).imp ?_
  rintro a b ⟨hLe, hOther⟩
  exact List.not_le.mp fun hGe => hOther (hAnti a b hLe hGe)

theorem closest_ne_nil_iff :
    closest distance bound word candidates ≠ [] ↔ ∃ v ∈ candidates, distance word v ≤ bound := by
  constructor
  · intro hFound
    obtain ⟨v, hv⟩ := List.exists_mem_of_ne_nil _ hFound
    obtain ⟨hMem, hWithin, -⟩ := mem_closest.mp hv
    exact ⟨v, hMem, hWithin⟩
  · rintro ⟨v, hMem, hWithin⟩
    obtain ⟨c, hc⟩ :=
      ((Nearest.Among.start distance bound word).foldl candidates).exists_mem_words hMem hWithin
    exact List.ne_nil_of_mem (mem_withoutRuns.mpr (List.mem_mergeSort.mpr hc))

/-- What is found among `candidates`, where `distance` tells how far off each of them is: none if
all are beyond the bound, otherwise all the nearest, each once and in byte order. -/
structure FindsNearest (distance : Bytes → Nat) (bound : Nat) (candidates found : List Bytes) :
    Prop where
  eq_nil : (∀ c ∈ candidates, bound < distance c) → found = []
  increasing : found.Pairwise (· < ·)
  mem_iff {v : Bytes} : (∃ c ∈ candidates, distance c ≤ bound) →
    (v ∈ found ↔ v ∈ candidates ∧ ∀ c ∈ candidates, distance v ≤ distance c)

theorem findsNearest_closest (distance : Bytes → Bytes → Nat) (bound : Nat) (word : Bytes)
    (candidates : List Bytes) :
    FindsNearest (distance word) bound candidates (closest distance bound word candidates) where
  eq_nil hFar := by
    by_contra hFound
    obtain ⟨v, hv, hWithin⟩ := closest_ne_nil_iff.mp hFound
    exact (hFar v hv).not_ge hWithin
  increasing := closest_increasing
  mem_iff {v} hNear := by
    obtain ⟨u, hu, hWithin⟩ := hNear
    rw [mem_closest]
    constructor
    · rintro ⟨hv, -, hLeast⟩
      exact ⟨hv, hLeast⟩
    · rintro ⟨hv, hLeast⟩
      exact ⟨hv, (hLeast u hu).trans hWithin, hLeast⟩

/-- Only the distances of the candidates themselves matter. -/
theorem FindsNearest.congr {distance distance' : Bytes → Nat} {found : List Bytes}
    (h : FindsNearest distance bound candidates found)
    (hSame : ∀ v ∈ candidates, distance v = distance' v) :
    FindsNearest distance' bound candidates found where
  eq_nil hFar := by
    apply h.eq_nil
    intro c hc
    rw [hSame c hc]
    exact hFar c hc
  increasing := h.increasing
  mem_iff {v} hNear := by
    obtain ⟨u, hu, hWithin⟩ := hNear
    rw [h.mem_iff ⟨u, hu, (hSame u hu).trans_le hWithin⟩]
    refine and_congr_right fun hv => forall₂_congr fun c hc => ?_
    rw [hSame v hv, hSame c hc]

/-- `named` are the words than which no other is nearer to the runes `w`, each once and in byte
order. -/
structure NearestWords (w : List Rune) (words named : List Bytes) : Prop where
  increasing : named.Pairwise (· < ·)
  mem_iff {v : Bytes} : v ∈ named ↔
    v ∈ words ∧ ∀ c ∈ words, levenshtein w (Utf8.runes v) ≤ levenshtein w (Utf8.runes c)

theorem NearestWords.unique {w : List Rune} {words named named' : List Bytes}
    (h : NearestWords w words named) (h' : NearestWords w words named') : named = named' :=
  h.increasing.eq_of_mem_iff h'.increasing fun _ => h.mem_iff.trans h'.mem_iff.symm

/-- The distances of the candidates from `word` are those of the runes. -/
def CountsPlainly (distance : Bytes → Bytes → Nat) (word : Bytes) (candidates : List Bytes) :
    Prop :=
  ∀ v ∈ candidates, distance word v = levenshtein (Utf8.runes word) (Utf8.runes v)

/-- Below 65535 runes the table of scripts does not wrap around. -/
theorem countsPlainly (hWord : (Utf8.runes word).length < 65535)
    (hCandidates : ∀ v ∈ candidates, (Utf8.runes v).length < 65535) :
    CountsPlainly editDistance word candidates :=
  fun v hv => editDistance_eq_levenshtein hWord (hCandidates v hv)

theorem nearestWords_closest (hPlain : CountsPlainly distance word candidates)
    (hFound : closest distance bound word candidates ≠ []) :
    NearestWords (Utf8.runes word) candidates (closest distance bound word candidates) where
  increasing := closest_increasing
  mem_iff {v} := by
    obtain ⟨u, hu, hWithin⟩ := closest_ne_nil_iff.mp hFound
    rw [hPlain u hu] at hWithin
    have hFinds := (findsNearest_closest distance bound word candidates).congr hPlain
    exact hFinds.mem_iff ⟨u, hu, hWithin⟩

/-- The question whether one of some words was meant. -/
def question [CharacterClasses] : List Bytes → Bytes
  | [one] => utf8 "did you mean " ++ quoted one ++ utf8 "?"
  | several => utf8 "did you mean any of " ++ joinWith (utf8 ", ") (several.map quoted) ++ utf8 "?"

theorem suggestion?_eq [CharacterClasses] (distance : Bytes → Bytes → Nat) (word : Bytes)
    (candidates : List Bytes) :
    suggestion? distance word candidates =
      if closest distance suggestionBound word candidates = [] then none
      else some (question (closest distance suggestionBound word candidates)) := by
  rw [suggestion?]
  rcases closest distance suggestionBound word candidates with - | ⟨one, - | ⟨another, more⟩⟩
  · rfl
  · rfl
  · rfl

/-! ## Whatever the order of the candidates -/

theorem closest_congr {others : List Bytes} (hSame : ∀ v, v ∈ others ↔ v ∈ candidates) :
    closest distance bound word others = closest distance bound word candidates := by
  apply closest_increasing.eq_of_mem_iff closest_increasing
  intro v
  simp only [mem_closest, hSame]

/-- Whatever tells the distances, what is found are the nearest candidates, and it depends on no
order or repetition of them. -/
theorem closest_finds_nearest [CharacterClasses] (distance : Bytes → Bytes → Nat) (bound : Nat)
    (word : Bytes) (candidates : List Bytes) :
    FindsNearest (distance word) bound candidates (closest distance bound word candidates) ∧
      (CountsPlainly distance word candidates →
        FindsNearest (fun v => levenshtein (Utf8.runes word) (Utf8.runes v)) bound candidates
          (closest distance bound word candidates)) ∧
      ∀ others : List Bytes, (∀ v, v ∈ others ↔ v ∈ candidates) →
        closest distance bound word others = closest distance bound word candidates ∧
          suggestion? distance word others = suggestion? distance word candidates := by
  have hFound := findsNearest_closest distance bound word candidates
  refine ⟨hFound, fun hPlain => hFound.congr hPlain, ?_⟩
  intro others hSame
  refine ⟨closest_congr hSame, ?_⟩
  rw [suggestion?_eq, suggestion?_eq, closest_congr hSame]

/-- Two candidates tie, one of them is given twice, and a third is farther off. -/
theorem closest_finds_nearest_tie :
    let word := utf8 "at"
    let candidates := [utf8 "cat", utf8 "car", utf8 "bat", utf8 "cat"]
    let others := [utf8 "bat", utf8 "car", utf8 "cat"]
    (∀ v, v ∈ closest editDistance 3 word candidates ↔ v = utf8 "bat" ∨ v = utf8 "cat") ∧
      closest editDistance 0 word candidates = [] ∧
      closest editDistance 3 word others = closest editDistance 3 word candidates ∧
      suggestion? editDistance word others = suggestion? editDistance word candidates ∧
      ∀ c ∈ candidates, levenshtein (Utf8.runes word) (Utf8.runes (utf8 "cat")) ≤
        levenshtein (Utf8.runes word) (Utf8.runes c) := by
  intro word candidates others
  obtain ⟨hNearest, hPlain, hAnyOrder⟩ := closest_finds_nearest editDistance 3 word candidates
  have hNear : ∃ c ∈ candidates, editDistance word c ≤ 3 := ⟨utf8 "cat", by decide, by decide⟩
  have hFound (v : Bytes) :
      v ∈ closest editDistance 3 word candidates ↔ v = utf8 "bat" ∨ v = utf8 "cat" := by
    rw [hNearest.mem_iff hNear]
    constructor
    · rintro ⟨hv, hLeast⟩
      have hAtMost := hLeast (utf8 "cat") (by decide)
      revert v
      decide
    · rintro (rfl | rfl) <;> decide
  have hSame : ∀ v, v ∈ others ↔ v ∈ candidates := by
    intro v
    simp only [others, candidates, List.mem_cons, List.not_mem_nil]
    tauto
  have hCounts : CountsPlainly editDistance word candidates := countsPlainly (by decide) (by decide)
  have hPlainNear : ∃ c ∈ candidates,
      levenshtein (Utf8.runes word) (Utf8.runes c) ≤ 3 := by
    refine ⟨utf8 "cat", by decide, ?_⟩
    rw [← hCounts _ (by decide)]
    decide
  have hCat := ((hPlain hCounts).mem_iff hPlainNear).mp ((hFound (utf8 "cat")).mpr (.inr rfl))
  obtain ⟨hClosest, hSuggestion⟩ := hAnyOrder others hSame
  refine ⟨hFound, ?_, hClosest, hSuggestion, hCat.2⟩
  exact (closest_finds_nearest editDistance 0 word candidates).1.eq_nil (by decide)

end Descent
