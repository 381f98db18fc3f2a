import Descent.Proofs.Computation.Bases
import Descent.Proofs.Parser.Primitives
import Descent.Proofs.Source.Reading

/-! # Nested brackets

A grammar that refers to itself: brackets around a depth count one more than the depth, and where no
bracket opens the depth is nothing. Only a bracket that does not open is forgiven. Once one is open
its closing is due, at whatever depth, and its failure passes through every level around it with the
place and the expectation that it has at the innermost. -/

namespace Descent

open Source

/-- The only rule of nested brackets. -/
inductive BracketRule : Type → Type where
  | depth : BracketRule Nat

namespace BracketRule

variable {σ υ : Type} [Source σ Rune]

/-- A depth is one more than the depth between brackets, or nothing. -/
def body {α : Type} : BracketRule α → Grammar Rune υ (fun _ => Empty) BracketRule α
  | depth =>
    .option 0 (.map (· + 1)
      (.between (.char (.ofChar '(')) (.char (.ofChar ')')) (.rule depth)))

/-- The rule with a bound on its levels. -/
def levels (rounds : Nat) (bound : Nat) : Parser Plain σ υ Nat :=
  Rulebook.resolve (fun e => .ok e.elim) rounds (Rulebook.ofGrammars body) bound depth

/-- A level around another. -/
def level (inner : Parser Plain σ υ Nat) : Parser Plain σ υ Nat :=
  .option 0 (.map (· + 1)
    (.between (.char (.ofChar '(')) (.char (.ofChar ')')) inner))

theorem levels_succ (rounds bound : Nat) :
    (levels rounds (bound + 1) : Parser Plain σ υ Nat) = level (levels rounds bound) := rfl

/-! ## One level -/

section

open Descent.Parser

variable {s : State σ υ} {inner : Parser Plain σ υ Nat}

/-- Where no bracket opens, the depth is nothing. -/
theorem view_level_of_not_opening (inner : Parser Plain σ υ Nat)
    (h : ∀ rest, next? s.input ≠ some (.ofChar '(', rest)) :
    ∃ hint, (level inner).view (.refl Plain) s = .ok ⟨false, .ok 0 s hint⟩ ∧ hint.pos = s.pos := by
  obtain ⟨refusal, hChar, hPos, -⟩ := view_char_of_refused (.refl Plain) h
  refine ⟨refusal.merge (.unknown s.pos), ?_, Hint.merge_pos_of_eq hPos rfl⟩
  rw [level, Parser.option, view_orElse, view_map, Parser.between, andThen, view_bind, hChar]
  rfl

variable {opened : σ} (hOpening : next? s.input = some (.ofChar '(', opened))

include hOpening

/-- Behind a bracket that opens, a level is committed to what follows. -/
theorem view_level_of_opening {t : Tagged (Reply σ υ Nat)}
    (h : (inner.skip (char (.ofChar ')'))).view (.refl Plain) (s.withInput opened) = .ok t) :
    (level inner).view (.refl Plain) s =
      .ok ((t.follow true (.unknown (pos opened))).map (Reply.map (· + 1))) := by
  have hBetween : (Parser.between (char (.ofChar '(')) (char (.ofChar ')')) inner).view
      (.refl Plain) s = .ok (t.follow true (.unknown (pos opened))) := by
    rw [Parser.between, andThen, view_bind, view_char_of_next (.refl Plain) hOpening]
    exact congrArg (Tagged.follow true (.unknown (pos opened)) <$> ·) h
  rw [level, Parser.option, view_orElse, view_map, hBetween]
  obtain ⟨_ | _, _ | _⟩ := t <;> rfl

/-- A failure of the inner level is one of the outer. -/
theorem view_level_of_failed {h : Hint}
    (hInner : inner.view (.refl Plain) (s.withInput opened) = .ok ⟨true, .error h⟩) :
    (level inner).view (.refl Plain) s = .ok ⟨true, .error h⟩ := by
  have hSkip : (inner.skip (char (.ofChar ')'))).view (.refl Plain) (s.withInput opened) =
      .ok ⟨true, .error h⟩ := by
    rw [skip, view_bind, hInner]
    rfl
  exact view_level_of_opening hOpening hSkip

variable {consumed : Bool} {n : Nat} {cursor : σ} {h : Hint}
  (hInner : inner.view (.refl Plain) (s.withInput opened) =
    .ok ⟨consumed, .ok n (s.withInput cursor) h⟩)

include hInner

theorem view_level_of_closing {closed : σ}
    (hClosing : next? cursor = some (.ofChar ')', closed)) :
    (level inner).view (.refl Plain) s =
      .ok ⟨true, .ok (n + 1) (s.withInput closed) (.unknown (pos closed))⟩ := by
  have hSkip : (inner.skip (char (.ofChar ')'))).view (.refl Plain) (s.withInput opened) =
      .ok ⟨consumed || true, .ok n (s.withInput closed) (.unknown (pos closed))⟩ := by
    rw [view_skip_of_ok (.refl Plain) hInner, view_char_of_next (.refl Plain) hClosing]
    rfl
  rw [Bool.or_true] at hSkip
  exact view_level_of_opening hOpening hSkip

/-- A bracket that is not closed is due where it could close. -/
theorem view_level_of_not_closing
    (hClosing : ∀ rest, next? cursor ≠ some (.ofChar ')', rest)) (hPos : h.pos = pos cursor) :
    ∃ hint, (level inner).view (.refl Plain) s = .ok ⟨true, .error hint⟩ ∧
      hint.pos.offset = (pos cursor).offset ∧ Rune.quoted (.ofChar ')') ∈ hint.expected := by
  obtain ⟨refusal, hChar, hRefusal, hDue⟩ :=
    view_char_of_refused (.refl Plain) (s := s.withInput cursor) hClosing
  have hSkip : (inner.skip (char (.ofChar ')'))).view (.refl Plain) (s.withInput opened) =
      .ok ⟨consumed, .error (h.merge refusal)⟩ := by
    rw [view_skip_of_ok (.refl Plain) hInner, hChar]
    cases consumed <;> rfl
  have hLevel := view_level_of_opening hOpening hSkip
  have hOffset : refusal.pos.offset = (pos cursor).offset := congrArg Position.offset hRefusal
  obtain ⟨hInnerOffset, hInnerDue⟩ := Hint.expected_merge (a := h) hDue fun _ =>
    (congrArg Position.offset (hPos.trans hRefusal.symm)).le
  cases consumed with
  | true => exact ⟨h.merge refusal, hLevel, hInnerOffset.trans hOffset, hInnerDue⟩
  | false =>
    obtain ⟨hOuterOffset, hOuterDue⟩ :=
      Hint.expected_merge (a := .unknown (pos opened)) hInnerDue nofun
    exact ⟨_, hLevel, hOuterOffset.trans (hInnerOffset.trans hOffset), hOuterDue⟩

end

/-! ## Brackets in a text -/

/-- The bytes of `n` opening and `m` closing brackets. -/
def brackets (n m : Nat) : Bytes := List.replicate n 40 ++ List.replicate m 41

/-- What `n` opening and `m` closing brackets come to at a text. -/
inductive Counted (n m : Nat) (t : Text) (user : υ) : Plain (Tagged (Reply Text υ Nat)) → Prop where
  | closed {consumed : Bool} {cursor : Text} {h : Hint} : n ≤ m → consumed = decide (0 < n) →
      cursor.rest = List.replicate (m - n) 41 → cursor.pos.offset = t.pos.offset + 2 * n →
      h.pos = cursor.pos → Counted n m t user (.ok ⟨consumed, .ok n ⟨cursor, user⟩ h⟩)
  | unclosed {h : Hint} : m < n → h.pos.offset = t.pos.offset + n + m →
      Rune.quoted (.ofChar ')') ∈ h.expected → Counted n m t user (.ok ⟨true, .error h⟩)

theorem level_counted_zero {m : Nat} {t : Text} (hRest : t.rest = List.replicate m 41) (user : υ)
    (inner : Parser Plain Text υ Nat) :
    Counted 0 m t user ((level inner).view (.refl Plain) ⟨t, user⟩) := by
  have hHead (rest : Text) : next? t ≠ some (.ofChar '(', rest) := by
    cases m with
    | zero =>
      rw [Text.next?_of_nil hRest]
      exact nofun
    | succ m =>
      intro hNext
      rw [Text.next?_of_lt hRest (by decide)] at hNext
      have hRune : (⟨41⟩ : Rune) = .ofChar '(' := congrArg Prod.fst (Option.some.inj hNext)
      exact absurd hRune (by decide)
  obtain ⟨h, hView, hPos⟩ := view_level_of_not_opening inner (s := ⟨t, user⟩) hHead
  rw [hView]
  exact .closed (Nat.zero_le m) rfl hRest (by simp) hPos

/-- A bracket in front of brackets. -/
theorem level_counted_succ {n m : Nat} {t opened : Text} {user : υ}
    {inner : Parser Plain Text υ Nat} (hNext : next? t = some (.ofChar '(', opened))
    (hOffset : opened.pos.offset = t.pos.offset + 1)
    (h : Counted n m opened user (inner.view (.refl Plain) ⟨opened, user⟩)) :
    Counted (n + 1) m t user ((level inner).view (.refl Plain) ⟨t, user⟩) := by
  generalize hInner : inner.view (.refl Plain) ⟨opened, user⟩ = out at h
  cases h with
  | @closed consumed cursor h hLe _ hRest hCursor hPos =>
    rcases hLe.eq_or_lt with rfl | hLess
    · have hEnd (rest : Text) : next? cursor ≠ some (.ofChar ')', rest) := by
        rw [Nat.sub_self] at hRest
        rw [Text.next?_of_nil hRest]
        exact nofun
      obtain ⟨hint, hView, hHint, hDue⟩ :=
        view_level_of_not_closing (s := ⟨t, user⟩) hNext hInner hEnd hPos
      rw [hView]
      refine .unclosed (Nat.lt_succ_self n) ?_ hDue
      change _ = cursor.pos.offset at hHint
      omega
    · obtain ⟨k, hk⟩ : ∃ k, m - n = k + 1 := ⟨m - n - 1, by omega⟩
      rw [hk, List.replicate_succ] at hRest
      have hView := view_level_of_closing (s := ⟨t, user⟩) hNext hInner
        (Text.next?_of_lt hRest (by decide))
      rw [hView]
      refine .closed hLess (by simp) ?_ ?_ rfl
      · rw [← Nat.sub_sub, hk, Nat.add_sub_cancel]
      · rw [Position.offset_after]
        omega
  | @unclosed h hLess hHint hDue =>
    rw [view_level_of_failed (s := ⟨t, user⟩) hNext hInner]
    exact .unclosed (Nat.lt_succ_of_lt hLess) (by omega) hDue

theorem levels_counted (rounds bound n m : Nat) (hBound : n < bound) (t : Text)
    (hRest : t.rest = brackets n m) (user : υ) :
    Counted n m t user ((levels rounds bound).view (.refl Plain) ⟨t, user⟩) := by
  induction n generalizing bound t with
  | zero =>
    obtain ⟨bound, rfl⟩ := Nat.exists_eq_add_one_of_ne_zero (Nat.ne_zero_of_lt hBound)
    rw [levels_succ]
    exact level_counted_zero hRest user _
  | succ n ih =>
    obtain ⟨bound, rfl⟩ := Nat.exists_eq_add_one_of_ne_zero (Nat.ne_zero_of_lt hBound)
    have hCons : t.rest = 40 :: brackets n m := hRest
    rw [levels_succ]
    exact level_counted_succ (Text.next?_of_lt hCons (by decide)) (Position.offset_after ..)
      (ih bound (Nat.lt_of_succ_lt_succ hBound) _ rfl)

/-- The rule of nested brackets as a parser. -/
def parser (bound : Nat) : Parser Plain σ υ Nat :=
  Rulebook.parser (fun e => .ok e.elim) bound (Rulebook.ofGrammars body) (.rule depth)

/-- Brackets are counted as far as they are closed, and one that is not is due at the end. -/
theorem parser_counts (name : Bytes) (user : υ) (n m : Nat) {bound : Nat} (hBound : n < bound) :
    (n ≤ m → ∃ cursor h, cursor.rest = List.replicate (m - n) 41 ∧
      (parser bound).observe ⟨Text.ofBytes name (brackets n m), user⟩ =
        .ok ⟨decide (0 < n), .ok n ⟨cursor, user⟩ h⟩) ∧
    (m < n → ∃ h : Hint, h.pos.offset = (n : Int) + m ∧
      Rune.quoted (.ofChar ')') ∈ h.expected ∧
      (parser bound).observe ⟨Text.ofBytes name (brackets n m), user⟩ = .ok ⟨true, .error h⟩) := by
  have hCounted : Counted n m (Text.ofBytes name (brackets n m)) user
      ((parser bound).observe ⟨Text.ofBytes name (brackets n m), user⟩) :=
    levels_counted bound bound n m hBound _ rfl user
  generalize (parser bound).observe ⟨Text.ofBytes name (brackets n m), user⟩ = out at hCounted
  cases hCounted with
  | @closed _ cursor h hLe hConsumed hRest _ _ =>
    subst hConsumed
    exact ⟨fun _ => ⟨cursor, h, hRest, rfl⟩, fun hLess => absurd hLe (Nat.not_le_of_lt hLess)⟩
  | @unclosed h hLess hOffset hDue =>
    rw [Text.offset_ofBytes, Int.zero_add] at hOffset
    exact ⟨fun hLe => absurd hLess (Nat.not_lt_of_le hLe), fun _ => ⟨h, hOffset, hDue, rfl⟩⟩

/-- Two brackets that open, with three or with one that close. -/
theorem parser_counts_two :
    2 < 3 ∧
      (∃ cursor h, cursor.rest = [41] ∧
        (parser 3).observe ⟨Text.ofBytes [] [40, 40, 41, 41, 41], ()⟩ =
          .ok ⟨true, .ok 2 ⟨cursor, ()⟩ h⟩) ∧
      ∃ h : Hint, h.pos.offset = 3 ∧ utf8 "')'" ∈ h.expected ∧
        (parser 3).observe ⟨Text.ofBytes [] [40, 40, 41], ()⟩ = .ok ⟨true, .error h⟩ :=
  ⟨by decide, (parser_counts [] () 2 3 (by decide)).1 (by decide),
    (parser_counts [] () 2 1 (by decide)).2 (by decide)⟩

end BracketRule

end Descent
