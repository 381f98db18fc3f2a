import Mathlib.Data.Bool.Basic
import Mathlib.Data.Prod.Lex
import Descent.Hint

/-! # Joining hints

Of two hints the one of higher rank wins: a known hint over an unknown one, and otherwise the one
further into the input. Hints of the same rank are joined, and the position of the first stays. So
joining is associative, although it neither commutes nor has a unit: an unknown hint adds nothing to
a hint of at least its rank, and displaces one of a lower rank. -/

namespace Descent.Hint

/-- Known hints over unknown ones, then by offset. -/
def rank (h : Hint) : Bool ×ₗ Int := toLex (!h.isUnknown, h.pos.offset)

theorem rank_lt_rank {a b : Hint} :
    a.rank < b.rank ↔ (a.isUnknown ∧ ¬ b.isUnknown) ∨
      (a.isUnknown = b.isUnknown ∧ a.pos.offset < b.pos.offset) := by
  rw [rank, rank, Prod.Lex.toLex_lt_toLex]
  cases a.isUnknown <;> cases b.isUnknown <;> simp

theorem rank_eq_rank {a b : Hint} :
    a.rank = b.rank ↔ a.isUnknown = b.isUnknown ∧ a.pos.offset = b.pos.offset := by
  rw [rank, rank, EmbeddingLike.apply_eq_iff_eq, Prod.mk.injEq, Bool.not_inj_iff]

theorem merge_of_rank_gt {a b : Hint} (h : b.rank < a.rank) : a.merge b = a := by
  rcases rank_lt_rank.mp h with ⟨hb, ha⟩ | ⟨hSame, hOffset⟩
  · simp [merge, ha, hb]
  · simp [merge, hSame, hOffset]

theorem merge_of_rank_lt {a b : Hint} (h : a.rank < b.rank) : a.merge b = b := by
  rcases rank_lt_rank.mp h with ⟨ha, hb⟩ | ⟨hSame, hOffset⟩
  · simp [merge, ha, hb]
  · simp [merge, hSame, hOffset, hOffset.not_gt]

theorem merge_of_rank_eq {a b : Hint} (h : a.rank = b.rank) :
    a.merge b = ⟨a.pos, a.messages ++ b.messages⟩ := by
  obtain ⟨hSame, hOffset⟩ := rank_eq_rank.mp h
  simp [merge, hSame, hOffset]

theorem merge_pos (a b : Hint) : (a.merge b).pos = a.pos ∨ (a.merge b).pos = b.pos := by
  rcases lt_trichotomy a.rank b.rank with h | h | h
  · rw [merge_of_rank_lt h]
    exact .inr rfl
  · rw [merge_of_rank_eq h]
    exact .inl rfl
  · rw [merge_of_rank_gt h]
    exact .inl rfl

theorem merge_pos_of_eq {a b : Hint} {pos : Position} (ha : a.pos = pos) (hb : b.pos = pos) :
    (a.merge b).pos = pos := by
  rcases merge_pos a b with h | h
  · exact h.trans ha
  · exact h.trans hb

theorem isUnknown_append (pos : Position) (a b : Hint) :
    isUnknown ⟨pos, a.messages ++ b.messages⟩ = (a.isUnknown && b.isUnknown) := by
  rw [isUnknown, isUnknown, isUnknown]
  cases a.messages <;> rfl

theorem rank_merge (a b : Hint) : (a.merge b).rank = max a.rank b.rank := by
  rcases lt_trichotomy a.rank b.rank with h | h | h
  · rw [merge_of_rank_lt h, max_eq_right h.le]
  · rw [merge_of_rank_eq h, ← h, max_self, rank_eq_rank]
    refine ⟨?_, rfl⟩
    rw [isUnknown_append, ← (rank_eq_rank.mp h).1, Bool.and_self]
  · rw [merge_of_rank_gt h, max_eq_left h.le]

theorem merge_assoc (a b c : Hint) : (a.merge b).merge c = a.merge (b.merge c) := by
  rcases lt_trichotomy a.rank b.rank with hab | hab | hab
  · have hLater : a.rank < (b.merge c).rank := by
      rw [rank_merge]
      exact hab.trans_le (le_max_left _ _)
    rw [merge_of_rank_lt hab, merge_of_rank_lt hLater]
  · have hFirst : (a.merge b).rank = b.rank := by rw [rank_merge, hab, max_self]
    rcases lt_trichotomy b.rank c.rank with hbc | hbc | hbc
    · rw [merge_of_rank_lt (hFirst.trans_lt hbc), merge_of_rank_lt hbc,
        merge_of_rank_lt (hab.trans_lt hbc)]
    · have hLast : a.rank = (b.merge c).rank := by rw [rank_merge, ← hbc, max_self, hab]
      rw [merge_of_rank_eq (hFirst.trans hbc), merge_of_rank_eq hLast, merge_of_rank_eq hab,
        merge_of_rank_eq hbc]
      simp only [List.append_assoc]
    · rw [merge_of_rank_gt (hbc.trans_eq hFirst.symm), merge_of_rank_gt hbc]
  · rw [merge_of_rank_gt hab]
    rcases lt_trichotomy b.rank c.rank with hbc | hbc | hbc
    · rw [merge_of_rank_lt hbc]
    · have hLast : (b.merge c).rank < a.rank := by rwa [rank_merge, ← hbc, max_self]
      rw [merge_of_rank_gt hLast, merge_of_rank_gt (hbc.symm.trans_lt hab)]
    · rw [merge_of_rank_gt hbc, merge_of_rank_gt hab, merge_of_rank_gt (hbc.trans hab)]

theorem merge_unknown {h : Hint} {pos : Position} (hRank : (unknown pos).rank ≤ h.rank) :
    h.merge (unknown pos) = h := by
  rcases hRank.lt_or_eq with hLess | hSame
  · exact merge_of_rank_gt hLess
  · rw [merge_of_rank_eq hSame.symm]
    exact congrArg (Hint.mk h.pos) (List.append_nil h.messages)

theorem unknown_merge {h : Hint} {pos : Position} (hRank : (unknown pos).rank ≤ h.rank)
    (hPos : h.pos.offset = pos.offset → h.pos = pos) : (unknown pos).merge h = h := by
  rcases hRank.lt_or_eq with hLess | hSame
  · exact merge_of_rank_lt hLess
  · rw [merge_of_rank_eq hSame]
    change Hint.mk pos h.messages = h
    rw [← hPos (rank_eq_rank.mp hSame).2.symm]

theorem rank_unknown_le {h : Hint} {pos : Position}
    (hOffset : h.isUnknown → pos.offset ≤ h.pos.offset) : (unknown pos).rank ≤ h.rank := by
  rw [rank, rank, Prod.Lex.toLex_le_toLex]
  cases hKnown : h.isUnknown with
  | true => exact .inr ⟨rfl, hOffset hKnown⟩
  | false => exact .inl Bool.false_lt_true

/-! ## Expectations -/

theorem firstOccurrences_eq_eraseDups {α : Type} [DecidableEq α] [beq : BEq α] [LawfulBEq α]
    (xs : List α) : firstOccurrences xs = xs.eraseDups := by
  obtain rfl : beq = instBEqOfDecidableEq := lawful_beq_subsingleton _ _
  have hFold (seen : List α) :
      (xs.foldl (fun seen y => if y ∈ seen then seen else y :: seen) seen).reverse =
        seen.reverse ++ (xs.removeAll seen).eraseDups := by
    induction xs generalizing seen with
    | nil => simp
    | cons y xs ih =>
      rw [List.foldl_cons, ih, List.cons_removeAll]
      by_cases hSeen : y ∈ seen
      · simp [hSeen]
      · have hLater : xs.removeAll (y :: seen) = (xs.removeAll seen).filter (! · == y) := by
          rw [List.removeAll, List.removeAll, List.filter_filter]
          simp [beq_eq_decide]
        simp [hSeen, List.eraseDups_cons, hLater]
  rw [firstOccurrences, hFold, List.reverse_nil, List.nil_append, List.removeAll_nil]

theorem mem_firstOccurrences {α : Type} [DecidableEq α] {x : α} {xs : List α} :
    x ∈ firstOccurrences xs ↔ x ∈ xs := by
  rw [firstOccurrences_eq_eraseDups, List.mem_eraseDups]

theorem mem_expected {h : Hint} {name : Bytes} :
    name ∈ h.expected ↔ name ≠ [] ∧ ⟨.expected, name⟩ ∈ h.messages := by
  rw [expected, texts, mem_firstOccurrences, List.mem_map]
  constructor
  · rintro ⟨⟨topic, text⟩, hMem, rfl⟩
    obtain ⟨hMem, hKept⟩ := List.mem_filter.mp hMem
    simp only [Bool.and_eq_true, decide_eq_true_eq] at hKept
    obtain ⟨rfl, hText⟩ := hKept
    exact ⟨hText, hMem⟩
  · rintro ⟨hText, hMem⟩
    exact ⟨_, List.mem_filter.mpr ⟨hMem, by simpa using hText⟩, rfl⟩

/-- A hint in front that is unknown, or no further into the input, takes away no expectation. -/
theorem expected_merge {a b : Hint} {name : Bytes} (hName : name ∈ b.expected)
    (hOffset : a.isUnknown = false → a.pos.offset ≤ b.pos.offset) :
    (a.merge b).pos.offset = b.pos.offset ∧ name ∈ (a.merge b).expected := by
  obtain ⟨hText, hMem⟩ := mem_expected.mp hName
  have hKnown : b.isUnknown = false := by
    rw [isUnknown, List.isEmpty_eq_false_iff]
    exact List.ne_nil_of_mem hMem
  have hRank : a.rank ≤ b.rank := by
    rw [rank, rank, Prod.Lex.toLex_le_toLex, hKnown]
    cases ha : a.isUnknown with
    | true => exact .inl Bool.false_lt_true
    | false => exact .inr ⟨rfl, hOffset ha⟩
  rcases hRank.lt_or_eq with hLess | hSame
  · rw [merge_of_rank_lt hLess]
    exact ⟨rfl, hName⟩
  · rw [merge_of_rank_eq hSame]
    exact ⟨(rank_eq_rank.mp hSame).2,
      mem_expected.mpr ⟨hText, List.mem_append_right a.messages hMem⟩⟩

end Descent.Hint
