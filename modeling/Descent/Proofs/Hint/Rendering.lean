import Descent.Proofs.Hint.Merge

/-! # Hints that read alike

A reader of a hint sees its position, what was expected and the line that it is rendered as. Texts
are listed once and of the elements met only the first is named, so messages that were there before
change nothing of what is seen. -/

namespace Descent

theorem eraseDups_append_again {α : Type} [BEq α] [LawfulBEq α] (xs ys : List α) :
    (xs ++ (ys ++ xs)).eraseDups = (xs ++ ys).eraseDups := by
  have hNothing : xs.removeAll xs = [] := by simp [List.removeAll]
  have hLater : (ys ++ xs).removeAll xs = ys.removeAll xs ++ xs.removeAll xs :=
    List.filter_append ..
  rw [List.eraseDups_append, List.eraseDups_append, hLater, hNothing, List.append_nil]

namespace Hint

/-- Nothing that a reader sees tells the hints apart. -/
structure Alike (a b : Hint) : Prop where
  pos : a.pos = b.pos
  texts (topic : Topic) : a.texts topic = b.texts topic
  metText : a.metText = b.metText

namespace Alike

variable {a b : Hint}

theorem refl (a : Hint) : Alike a a := ⟨rfl, fun _ => rfl, rfl⟩

theorem expected_eq (h : Alike a b) : a.expected = b.expected := h.texts .expected

theorem render_eq (h : Alike a b) : a.render = b.render := by
  have hUnexpected : a.unexpected = b.unexpected := by
    rw [unexpected, unexpected, h.texts .unexpected, h.metText]
  rw [render, render, sentences, sentences, hUnexpected, h.expected_eq, h.texts .remark, h.pos]

end Alike

theorem alike_append_again (pos : Position) (xs ys : List Message) :
    Alike ⟨pos, xs ++ (ys ++ xs)⟩ ⟨pos, xs ++ ys⟩ where
  pos := rfl
  texts topic := by
    simp only [texts, List.filter_append, List.map_append, firstOccurrences_eq_eraseDups,
      eraseDups_append_again]
  metText := by
    rw [metText, metText, List.find?_append, List.find?_append, List.find?_append]
    cases xs.find? fun m => decide (m.topic = .met) <;> simp

theorem merge_again_alike (a b : Hint) : Alike (a.merge (b.merge a)) (a.merge b) := by
  rcases lt_trichotomy a.rank b.rank with h | h | h
  · rw [merge_of_rank_gt h]
    exact .refl _
  · have hInner : a.rank = (b.merge a).rank := by rw [rank_merge, ← h, max_self]
    rw [merge_of_rank_eq hInner, merge_of_rank_eq h.symm, merge_of_rank_eq h]
    exact alike_append_again a.pos a.messages b.messages
  · rw [merge_of_rank_lt h, merge_of_rank_gt h, merge_of_rank_eq rfl]
    simpa using alike_append_again a.pos a.messages []

end Hint

end Descent
