import Descent.Proofs.Hint.Merge

/-! # Hints joined in any grouping

However the joins of a list of hints are bracketed, they come to the same hint. Unknown hints count
only where no hint is known; among those that count, the ones furthest into the input are kept, and
the outcome has the position of the first of them and the messages of all of them in order. -/

namespace Descent

/-- A nonempty sequence grouped in pairs. -/
inductive Grouping (α : Type) where
  | single (a : α)
  | pair (left right : Grouping α)

namespace Grouping

variable {α β : Type}

def elements : Grouping α → List α
  | single a => [a]
  | pair left right => left.elements ++ right.elements

def combine (op : β → β → β) (f : α → β) : Grouping α → β
  | single a => f a
  | pair left right => op (left.combine op f) (right.combine op f)

theorem exists_elements_eq (first : α) (later : List α) :
    ∃ t : Grouping α, t.elements = first :: later := by
  induction later generalizing first with
  | nil => exact ⟨single first, rfl⟩
  | cons next later ih =>
    obtain ⟨t, ht⟩ := ih next
    exact ⟨pair (single first) t, congrArg (first :: ·) ht⟩

end Grouping

namespace Hint

theorem rank_le_rank {a b : Hint} :
    a.rank ≤ b.rank ↔ (a.isUnknown ∧ ¬ b.isUnknown) ∨
      (a.isUnknown = b.isUnknown ∧ a.pos.offset ≤ b.pos.offset) := by
  rw [rank, rank, Prod.Lex.toLex_le_toLex]
  cases a.isUnknown <;> cases b.isUnknown <;> simp

theorem offset_le_of_rank_le {a b : Hint} (hSame : a.isUnknown = b.isUnknown)
    (h : a.rank ≤ b.rank) : a.pos.offset ≤ b.pos.offset := by
  rcases rank_le_rank.mp h with ⟨hUnknown, hNot⟩ | ⟨-, hOffset⟩
  · exact absurd (hSame ▸ hUnknown) hNot
  · exact hOffset

/-- The known hints of a list, or all of them where none is known. -/
def candidates (hs : List Hint) : List Hint :=
  if hs.all isUnknown then hs else hs.filter fun h => !h.isUnknown

/-- The hints of a list than which none stands further into the input. -/
def furthest (hs : List Hint) : List Hint :=
  hs.filter fun h => hs.all fun other => other.pos.offset ≤ h.pos.offset

/-- What a list of hints comes to. -/
def conclusion (hs : List Hint) : Option Hint :=
  let kept := furthest (candidates hs)
  kept.head?.map fun first => ⟨first.pos, kept.flatMap messages⟩

def peers (r : Bool ×ₗ Int) (hs : List Hint) : List Hint := hs.filter fun h => h.rank = r

theorem peers_append (r : Bool ×ₗ Int) (xs ys : List Hint) :
    peers r (xs ++ ys) = peers r xs ++ peers r ys := List.filter_append ..

theorem peers_eq_nil {r top : Bool ×ₗ Int} {hs : List Hint} (hTop : ∀ x ∈ hs, x.rank ≤ top)
    (hLess : top < r) : peers r hs = [] := by
  rw [peers, List.filter_eq_nil_iff]
  intro x hx
  simpa using ((hTop x hx).trans_lt hLess).ne

/-- No hint of the list ranks above `h`, and `h` is made of those of its own rank. -/
structure Leads (hs : List Hint) (h : Hint) : Prop where
  top : ∀ x ∈ hs, x.rank ≤ h.rank
  pos : (peers h.rank hs).head?.map Hint.pos = some h.pos
  messages : (peers h.rank hs).flatMap Hint.messages = h.messages

namespace Leads

variable {hs xs ys : List Hint} {a b h : Hint}

theorem single (h : Hint) : Leads [h] h where
  top x hx := by rw [List.mem_singleton.mp hx]
  pos := by simp [peers]
  messages := by simp [peers]

theorem merge (hxs : Leads xs a) (hys : Leads ys b) : Leads (xs ++ ys) (a.merge b) := by
  have hTop : ∀ x ∈ xs ++ ys, x.rank ≤ (a.merge b).rank := by
    intro x hx
    rw [rank_merge]
    rcases List.mem_append.mp hx with hx | hx
    · exact (hxs.top x hx).trans (le_max_left _ _)
    · exact (hys.top x hx).trans (le_max_right _ _)
  -- A side that is outranked has no peer of the outcome.
  rcases lt_trichotomy a.rank b.rank with h | h | h
  · have hPeers : peers b.rank (xs ++ ys) = peers b.rank ys := by
      rw [peers_append, peers_eq_nil hxs.top h, List.nil_append]
    rw [merge_of_rank_lt h] at hTop ⊢
    exact ⟨hTop, hPeers ▸ hys.pos, hPeers ▸ hys.messages⟩
  · have hRank : (a.merge b).rank = a.rank := by rw [rank_merge, ← h, max_self]
    have hPeers : peers (a.merge b).rank (xs ++ ys) = peers a.rank xs ++ peers b.rank ys := by
      rw [hRank, peers_append, ← h]
    refine ⟨hTop, ?_, ?_⟩
    · rw [hPeers, List.head?_append, Option.map_or, hxs.pos, merge_of_rank_eq h]
      rfl
    · rw [hPeers, List.flatMap_append, hxs.messages, hys.messages, merge_of_rank_eq h]
  · have hPeers : peers a.rank (xs ++ ys) = peers a.rank xs := by
      rw [peers_append, peers_eq_nil hys.top h, List.append_nil]
    rw [merge_of_rank_gt h] at hTop ⊢
    exact ⟨hTop, hPeers ▸ hxs.pos, hPeers ▸ hxs.messages⟩

theorem exists_peer (hh : Leads hs h) : ∃ x ∈ hs, x.rank = h.rank := by
  obtain ⟨x, hx, -⟩ := Option.map_eq_some_iff.mp hh.pos
  obtain ⟨hMem, hRank⟩ := List.mem_filter.mp (List.mem_of_mem_head? hx)
  exact ⟨x, hMem, of_decide_eq_true hRank⟩

theorem isUnknown_iff (hh : Leads hs h) :
    h.isUnknown = true ↔ ∀ x ∈ hs, x.isUnknown = true := by
  constructor
  · intro hUnknown x hx
    rcases rank_le_rank.mp (hh.top x hx) with ⟨hx, -⟩ | ⟨hSame, -⟩
    · exact hx
    · rw [hSame, hUnknown]
  · intro hAll
    obtain ⟨x, hx, hRank⟩ := hh.exists_peer
    rw [← (rank_eq_rank.mp hRank).1]
    exact hAll x hx

theorem candidates_eq (hh : Leads hs h) :
    candidates hs = hs.filter fun x => x.isUnknown = h.isUnknown := by
  unfold candidates
  cases hUnknown : h.isUnknown with
  | true =>
    have hAll := hh.isUnknown_iff.mp hUnknown
    rw [if_pos (List.all_eq_true.mpr hAll), eq_comm, List.filter_eq_self]
    simpa using hAll
  | false =>
    have hNotAll : ¬ hs.all isUnknown = true := by
      rw [List.all_eq_true, ← hh.isUnknown_iff, hUnknown]
      exact Bool.false_ne_true
    rw [if_neg hNotAll]
    simp

theorem furthest_eq (hh : Leads hs h) : furthest (candidates hs) = peers h.rank hs := by
  obtain ⟨peer, hPeer, hRank⟩ := hh.exists_peer
  obtain ⟨hSame, hOffset⟩ := rank_eq_rank.mp hRank
  rw [hh.candidates_eq, furthest, List.filter_filter, peers]
  apply List.filter_congr
  intro x hx
  rw [Bool.eq_iff_iff]
  simp only [Bool.and_eq_true, List.all_eq_true, List.mem_filter, decide_eq_true_eq, rank_eq_rank]
  constructor
  · rintro ⟨hFurthest, hKnown⟩
    refine ⟨hKnown, le_antisymm (offset_le_of_rank_le hKnown (hh.top x hx)) ?_⟩
    rw [← hOffset]
    exact hFurthest peer ⟨hPeer, hSame⟩
  · rintro ⟨hKnown, hHere⟩
    refine ⟨fun other ⟨hOther, hAlike⟩ => ?_, hKnown⟩
    rw [hHere]
    exact offset_le_of_rank_le hAlike (hh.top other hOther)

theorem conclusion_eq (hh : Leads hs h) : conclusion hs = some h := by
  rw [conclusion, hh.furthest_eq]
  obtain ⟨first, hFirst, hPos⟩ := Option.map_eq_some_iff.mp hh.pos
  simp only [hFirst, hh.messages, Option.map_some, hPos]

end Leads

/-- The hints of a grouping joined pair by pair. -/
def merged (t : Grouping Hint) : Hint := t.combine merge id

theorem leads_merged (t : Grouping Hint) : Leads t.elements (merged t) := by
  induction t with
  | single h => exact .single h
  | pair left right ihLeft ihRight => exact ihLeft.merge ihRight

theorem merge_in_any_grouping (first : Hint) (later : List Hint) :
    (∃ h, conclusion (first :: later) = some h ∧
      (h.isUnknown = true ↔ ∀ x ∈ first :: later, x.isUnknown = true) ∧
      ∀ t : Grouping Hint, t.elements = first :: later → merged t = h) ∧
    ∀ a b c : Hint, (a.merge b).merge c = a.merge (b.merge c) := by
  obtain ⟨t, ht⟩ := Grouping.exists_elements_eq first later
  have hLeads : Leads (first :: later) (merged t) := ht ▸ leads_merged t
  refine ⟨⟨merged t, hLeads.conclusion_eq, hLeads.isUnknown_iff, ?_⟩, merge_assoc⟩
  intro t' ht'
  have hOther : conclusion (first :: later) = some (merged t') :=
    ht' ▸ (leads_merged t').conclusion_eq
  exact Option.some.inj (hOther.symm.trans hLeads.conclusion_eq)

/-- A known hint in front, an unknown one further on, and two known ones between them at one
offset. -/
theorem merge_in_any_grouping_mixed :
    let known (name : Bytes) (offset : Int) (text : Bytes) : Hint :=
      .single ⟨name, offset, 1, 1⟩ .expected text
    let far : Hint := .unknown ⟨[], 9, 1, 10⟩
    let left : Grouping Hint := .pair (.pair (.pair (.single (known [] 1 [97])) (.single far))
      (.single (known [120] 3 [98]))) (.single (known [121] 3 [99]))
    let balanced : Grouping Hint := .pair (.pair (.single (known [] 1 [97])) (.single far))
      (.pair (.single (known [120] 3 [98])) (.single (known [121] 3 [99])))
    let outcome : Hint := ⟨⟨[120], 3, 1, 1⟩, [⟨.expected, [98]⟩, ⟨.expected, [99]⟩]⟩
    merged left = outcome ∧ merged balanced = outcome := by
  intro known far left balanced outcome
  obtain ⟨⟨h, hConclusion, -, hMerged⟩, -⟩ :=
    merge_in_any_grouping (known [] 1 [97]) [far, known [120] 3 [98], known [121] 3 [99]]
  have hOutcome : h = outcome := Option.some.inj (hConclusion.symm.trans (by decide))
  exact ⟨(hMerged left rfl).trans hOutcome, (hMerged balanced rfl).trans hOutcome⟩

end Hint

end Descent
