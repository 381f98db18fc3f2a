import Descent.Text.EditDistance

/-! # The edit distance

The table is filled from the starts of the lists, in words that may wrap around; the distance itself
is told from their heads, in numbers. For lists of fewer than 65535 elements both come to the
same. -/

namespace Descent

variable {α : Type} [DecidableEq α]

/-- The least number of insertions, deletions and substitutions that turn one list into the
other. -/
def levenshtein : List α → List α → Nat
  | [], ys => ys.length
  | xs, [] => xs.length
  | x :: xs, y :: ys =>
    if x = y then levenshtein xs ys
    else 1 + min (min (levenshtein xs ys) (levenshtein xs (y :: ys))) (levenshtein (x :: xs) ys)
termination_by xs ys => xs.length + ys.length

@[simp] theorem levenshtein_nil_left (ys : List α) : levenshtein [] ys = ys.length := by
  rw [levenshtein]

@[simp] theorem levenshtein_nil_right (xs : List α) : levenshtein xs [] = xs.length := by
  cases xs <;> simp [levenshtein]

theorem levenshtein_cons_cons (x y : α) (xs ys : List α) :
    levenshtein (x :: xs) (y :: ys) = if x = y then levenshtein xs ys
      else 1 + min (min (levenshtein xs ys) (levenshtein xs (y :: ys)))
        (levenshtein (x :: xs) ys) := by
  rw [levenshtein]

theorem levenshtein_comm (xs ys : List α) : levenshtein xs ys = levenshtein ys xs := by
  fun_induction levenshtein xs ys with
  | case1 ys => simp
  | case2 xs => simp
  | case3 xs y ys ih => rw [ih, levenshtein_cons_cons, if_pos rfl]
  | case4 x xs y ys hOther ih₁ ih₂ ih₃ =>
    rw [ih₁, ih₂, ih₃, levenshtein_cons_cons, if_neg (Ne.symm hOther)]
    omega

theorem levenshtein_self (xs : List α) : levenshtein xs xs = 0 := by
  induction xs with
  | nil => simp
  | cons x xs ih => rw [levenshtein_cons_cons, if_pos rfl, ih]

theorem levenshtein_le (xs ys : List α) : levenshtein xs ys ≤ max xs.length ys.length := by
  fun_induction levenshtein xs ys with
  | case1 ys => simp
  | case2 xs => simp
  | case3 xs y ys ih =>
    simp only [List.length_cons]
    omega
  | case4 x xs y ys hOther ih₁ ih₂ ih₃ =>
    simp only [List.length_cons] at *
    omega

theorem levenshtein_singleton_append (x : α) (ys : List α) (y : α) :
    levenshtein [x] (ys ++ [y]) = if x = y then ys.length
      else 1 + min ys.length (levenshtein [x] ys) := by
  induction ys with
  | nil => simp [levenshtein_cons_cons]
  | cons b ys ih =>
    rw [List.cons_append, levenshtein_cons_cons, levenshtein_cons_cons, ih]
    simp only [levenshtein_nil_left, List.length_append, List.length_cons, List.length_nil]
    split <;> split <;> omega

/-- The recursion from the heads is a recursion from the ends as well. -/
theorem levenshtein_append_append (xs ys : List α) (x y : α) :
    levenshtein (xs ++ [x]) (ys ++ [y]) = if x = y then levenshtein xs ys
      else 1 + min (min (levenshtein xs ys) (levenshtein xs (ys ++ [y])))
        (levenshtein (xs ++ [x]) ys) := by
  fun_induction levenshtein xs ys with
  | case1 ys =>
    rw [List.nil_append, levenshtein_singleton_append]
    simp
  | case2 xs _ =>
    -- Turned around, this too is a single element against a list.
    rw [List.nil_append, levenshtein_comm, levenshtein_singleton_append, levenshtein_comm [y],
      levenshtein_nil_right]
    simp only [List.length_append, List.length_cons, List.length_nil, eq_comm (a := y)]
    split <;> omega
  | case3 xs b ys ih => simpa [levenshtein_cons_cons] using ih
  | case4 a xs b ys hHeads ih₁ ih₂ ih₃ =>
    simp only [List.cons_append, levenshtein_cons_cons, if_neg hHeads] at ih₁ ih₂ ih₃ ⊢
    rw [ih₁, ih₂, ih₃]
    split
    · rfl
    · -- Both sides are the least of the same nine distances.
      simp only [Nat.add_min_add_left]
      ac_rfl

namespace EditDistance

theorem toNat_toUInt16 {n : Nat} (h : n < 65536) : n.toUInt16.toNat = n := by
  rw [Nat.toUInt16_eq, UInt16.toNat_ofNat_of_lt' h]

theorem toNat_succ {n : Nat} (h : n < 65535) : (n.toUInt16 + 1).toNat = n + 1 := by
  rw [UInt16.toNat_add, toNat_toUInt16 (by omega)]
  exact Nat.mod_eq_of_lt (by simp; omega)

theorem toUInt16_succ (n : Nat) : n.toUInt16 + 1 = (n + 1).toUInt16 := by
  simp [Nat.toUInt16_eq, UInt16.ofNat_add]

theorem toNat_lesser (a b : UInt16) : (lesser a b).toNat = min a.toNat b.toNat := by
  unfold lesser
  split <;> rename_i h <;> rw [UInt16.lt_iff_toNat_lt] at h <;> omega

/-- The cells of a row: the distances of all continuations of `before` by a part of `xs` from its
start on. -/
def cells (before ys : List α) : List α → List UInt16
  | [] => [(levenshtein before ys).toUInt16]
  | x :: xs => (levenshtein before ys).toUInt16 :: cells (before ++ [x]) ys xs

theorem cells_eq_cons (before ys xs : List α) :
    cells before ys xs = (levenshtein before ys).toUInt16 :: (cells before ys xs).tail := by
  cases xs <;> rfl

theorem cell_eq {before ys : List α} (x y : α) (hBefore : before.length + 1 < 65535)
    (hys : ys.length + 1 < 65535) :
    (if y = x then (levenshtein before ys).toUInt16
      else lesser (lesser ((levenshtein before ys).toUInt16 + 1)
        ((levenshtein before (ys ++ [y])).toUInt16 + 1))
        ((levenshtein (before ++ [x]) ys).toUInt16 + 1)) =
      (levenshtein (before ++ [x]) (ys ++ [y])).toUInt16 := by
  rw [levenshtein_append_append]
  by_cases hSame : y = x
  · rw [if_pos hSame, if_pos hSame.symm]
  · have hCorner := levenshtein_le before ys
    have hLeft := levenshtein_le before (ys ++ [y])
    have hUp := levenshtein_le (before ++ [x]) ys
    simp only [List.length_append, List.length_cons, List.length_nil] at hLeft hUp
    rw [if_neg hSame, if_neg (Ne.symm hSame), ← UInt16.toNat_inj, toNat_lesser, toNat_lesser,
      toNat_succ (by omega), toNat_succ (by omega), toNat_succ (by omega),
      toNat_toUInt16 (by omega)]
    omega

theorem row_eq_cells (y : α) (before : List α) {ys xs : List α}
    (hxs : before.length + xs.length < 65535) (hys : ys.length + 1 < 65535) :
    row y (levenshtein before ys).toUInt16 (levenshtein before (ys ++ [y])).toUInt16 xs
      (cells before ys xs).tail = cells before (ys ++ [y]) xs := by
  induction xs generalizing before with
  | nil => rfl
  | cons x xs ih =>
    rw [List.length_cons] at hxs
    rw [cells, List.tail_cons, cells_eq_cons, row, cell_eq x y (by omega) hys,
      ih _ (by simp; omega)]
    rfl

theorem lastRow_eq_cells {xs ys : List α} (done : List α) (hxs : xs.length < 65535)
    (hys : done.length + ys.length < 65535) :
    lastRow xs done.length.toUInt16 ys (cells [] done xs) = cells [] (done ++ ys) xs := by
  induction ys generalizing done with
  | nil =>
    rw [List.append_nil, lastRow]
    simp
  | cons y ys ih =>
    rw [List.length_cons] at hys
    -- The first cell of a row is its number, which the loop counts beside it.
    have hRow : row y (levenshtein [] done).toUInt16 (levenshtein [] (done ++ [y])).toUInt16 xs
        (cells [] done xs).tail = cells [] (done ++ [y]) xs :=
      row_eq_cells y [] (by simpa using hxs) (by omega)
    simp only [levenshtein_nil_left, List.length_append, List.length_cons, List.length_nil] at hRow
    rw [cells_eq_cons, lastRow, levenshtein_nil_left, toUInt16_succ, hRow]
    have hRest := ih (done ++ [y]) (by simp; omega)
    simpa using hRest

theorem firstRow_eq_cells (before xs : List α) :
    firstRow before.length.toUInt16 xs = cells before [] xs := by
  induction xs generalizing before with
  | nil => simp [firstRow, cells]
  | cons x xs ih =>
    have hRest := ih (before ++ [x])
    rw [List.length_append] at hRest
    rw [firstRow, cells, toUInt16_succ, levenshtein_nil_right]
    exact congrArg _ hRest

theorem getLastD_cells (before ys xs : List α) :
    (cells before ys xs).getLastD 0 = (levenshtein (before ++ xs) ys).toUInt16 := by
  induction xs generalizing before with
  | nil => simp [cells]
  | cons x xs ih =>
    have hRest := ih (before ++ [x])
    rw [cells_eq_cons] at hRest
    rw [cells, cells_eq_cons]
    simpa using hRest

theorem getLastD_lastRow {short long : List α} (hShort : short.length < 65535)
    (hLong : long.length < 65535) :
    ((lastRow short 0 long (firstRow 0 short)).getLastD 0).toNat = levenshtein short long := by
  have hFirst : firstRow 0 short = cells [] [] short := firstRow_eq_cells [] short
  have hLast : lastRow short 0 long (cells [] [] short) = cells [] long short :=
    lastRow_eq_cells [] hShort (by simpa using hLong)
  have hBound := levenshtein_le short long
  rw [hFirst, hLast, getLastD_cells, List.nil_append, toNat_toUInt16 (by omega)]

theorem distance_eq_levenshtein {xs ys : List α} (hxs : xs.length < 65535)
    (hys : ys.length < 65535) : (distance xs ys).toNat = levenshtein xs ys := by
  unfold distance
  by_cases hLonger : xs.length > ys.length
  · simp only [if_pos hLonger]
    rw [getLastD_lastRow hys hxs, levenshtein_comm]
  · simp only [if_neg hLonger]
    exact getLastD_lastRow hxs hys

end EditDistance

/-- Below 65535 runes the count of the table does not wrap around. -/
theorem editDistance_eq_levenshtein {a b : Bytes} (ha : (Utf8.runes a).length < 65535)
    (hb : (Utf8.runes b).length < 65535) :
    editDistance a b = levenshtein (Utf8.runes a) (Utf8.runes b) := by
  unfold editDistance
  split
  · rename_i hEmpty
    rw [hEmpty]
    exact (levenshtein_nil_left _).symm
  · split
    · rename_i hEmpty
      rw [hEmpty]
      exact (levenshtein_nil_right _).symm
    · split
      · rename_i hSame
        rw [hSame, levenshtein_self]
      · exact EditDistance.distance_eq_levenshtein ha hb

end Descent
