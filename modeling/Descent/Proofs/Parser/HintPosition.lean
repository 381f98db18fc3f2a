import Descent.Proofs.Hint.Merge
import Descent.Proofs.Parser.Tag

/-! # Hints point into the input

The hint of every reply stands at a cursor of the input at hand: of a failure, at or behind the
start, and of a success, at or behind the state after it. The second needs the tag: where hints of
two replies without consumption are joined, both replies stand at the same cursor. Which of the two
hints wins is of no concern here, since a joined hint stands where one of them stood. -/

namespace Descent

open Source

variable {σ τ υ : Type} [Source σ τ]

/-- The hint stands at a cursor reached from the given one. -/
def Hint.PointsBehind (h : Hint) (input : σ) : Prop :=
  ∃ cursor, Reaches input cursor ∧ h.pos = Source.pos cursor

namespace Hint.PointsBehind

theorem unknown (input : σ) : (Hint.unknown (Source.pos input)).PointsBehind input :=
  ⟨input, .refl input, rfl⟩

theorem of_reaches {h : Hint} {input later : σ} (hReach : Reaches input later)
    (hPoints : h.PointsBehind later) : h.PointsBehind input := by
  obtain ⟨cursor, hCursor, hPos⟩ := hPoints
  exact ⟨cursor, hReach.trans hCursor, hPos⟩

theorem merge {h h' : Hint} {input : σ} (hPoints : h.PointsBehind input)
    (hPoints' : h'.PointsBehind input) : (h.merge h').PointsBehind input := by
  rcases h.merge_pos h' with hPos | hPos
  · obtain ⟨cursor, hCursor, hAt⟩ := hPoints
    exact ⟨cursor, hCursor, hPos.trans hAt⟩
  · obtain ⟨cursor, hCursor, hAt⟩ := hPoints'
    exact ⟨cursor, hCursor, hPos.trans hAt⟩

end Hint.PointsBehind

/-- Successes stand where their tag says and their hints behind them; hints of failures stand behind
the start. -/
def Contract.hint : Contract σ υ where
  ok s consumed s' h := Moved s.input consumed s'.input ∧ h.PointsBehind s'.input
  error s _ h := h.PointsBehind s.input

theorem Contract.hint_closed : (Contract.hint : Contract σ υ).Closed where
  stay {s s'} hInput := by
    refine ⟨moved_false.mpr hInput, ?_⟩
    rw [hInput]
    exact .unknown s.input
  pass hNonempty hPasses := ⟨moved_true.mpr ⟨_, hNonempty, hPasses⟩, .unknown _⟩
  refuse {s _ _} hPos := ⟨s.input, .refl s.input, hPos⟩
  follow {α s s' consumed consumed' h r} hFirst hRest := by
    obtain ⟨hMoved, hPoints⟩ := hFirst
    rcases r with ⟨a, s'', h'⟩ | h'
    · obtain ⟨hMoved', hPoints'⟩ := hRest
      cases consumed' with
      | true => exact ⟨hMoved.trans hMoved', hPoints'⟩
      | false =>
        refine ⟨hMoved.trans hMoved', Hint.PointsBehind.merge ?_ hPoints'⟩
        rw [moved_false.mp hMoved']
        exact hPoints
    · cases consumed' with
      | true => exact Hint.PointsBehind.of_reaches hMoved.reaches hRest
      | false => exact Hint.PointsBehind.of_reaches hMoved.reaches (hPoints.merge hRest)
  replace {α s h r} hPoints hr := by
    rcases r with ⟨a, s', h'⟩ | h'
    · obtain ⟨hMoved, hPoints'⟩ := hr
      refine ⟨hMoved, Hint.PointsBehind.merge ?_ hPoints'⟩
      rw [moved_false.mp hMoved]
      exact hPoints
    · exact Hint.PointsBehind.merge hPoints hr
  halt hOk hPoints := ⟨hOk.1, hPoints⟩
  attempt hPoints := hPoints
  relabel _ hPoints := hPoints

/-- What is true of the hint of a reply from a state. -/
structure HintSound {α : Type} (s : State σ υ) (r : Reply σ υ α) : Prop where
  stands : ∃ cursor, Reaches s.input cursor ∧ r.hint.pos = pos cursor
  /-- The offset of the hint belongs to one position only. -/
  determined : ∀ cursor, Reaches s.input cursor → (pos cursor).offset = r.hint.pos.offset →
    pos cursor = r.hint.pos
  afterStart : s.pos.offset ≤ r.hint.pos.offset
  beforeEnd : r.hint.pos.offset ≤ (pos (final s.input)).offset
  behindSuccess : ∀ s', r.state? = some s' → s'.pos.offset ≤ r.hint.pos.offset

theorem Hint.PointsBehind.offset_le [Advancing σ] {h : Hint} {input : σ}
    (hPoints : h.PointsBehind input) : (Source.pos input).offset ≤ h.pos.offset := by
  obtain ⟨cursor, hReach, hPos⟩ := hPoints
  rw [hPos]
  exact hReach.offset_le

theorem Contract.hintSound_of_allows [Advancing σ] {α : Type} {s : State σ υ} {consumed : Bool}
    {r : Reply σ υ α} (hAllowed : Contract.hint.Allows s consumed r) : HintSound s r := by
  have hPoints : r.hint.PointsBehind s.input := by
    rcases r with ⟨a, s', h⟩ | h
    · exact Hint.PointsBehind.of_reaches hAllowed.1.reaches hAllowed.2
    · exact hAllowed
  have hStart : s.pos.offset ≤ r.hint.pos.offset := hPoints.offset_le
  obtain ⟨cursor, hReach, hPos⟩ := hPoints
  refine ⟨⟨cursor, hReach, hPos⟩, ?_, hStart, ?_, ?_⟩
  · intro other hOther hOffset
    rw [hPos] at hOffset ⊢
    rw [hOther.eq_of_offset_eq hReach hOffset]
  · rw [hPos]
    exact hReach.offset_le_final
  · intro s' hState
    rcases r with ⟨a, s'', h⟩ | h
    · cases hState
      exact Hint.PointsBehind.offset_le hAllowed.2
    · cases hState

variable {m : Type → Type} [Computation m] [UniformComputation m]

theorem Parser.Keeps.hintSound [Advancing σ] {α : Type} {p : Parser m σ υ α}
    (hp : Parser.Keeps Contract.hint p) (s : State σ υ) :
    Delivers (fun t => HintSound s t.value) (p.observe s) :=
  (hp.observe s).mono fun _ hAllowed => Contract.hintSound_of_allows hAllowed

theorem observe_hint_sound [Shown τ] [Advancing σ] {ε ρ : Type → Type}
    (perform : {α : Type} → ε α → m α) (bound : Nat)
    (rules : {α : Type} → ρ α → Grammar τ υ ε ρ α) {α : Type} (g : Grammar τ υ ε ρ α)
    (s : State σ υ) :
    Delivers (fun t => HintSound s t.value)
      ((Rulebook.parser perform bound (Rulebook.ofGrammars rules) g).observe s) :=
  (Rulebook.parser_keeps Contract.hint_closed perform bound rules g).hintSound s

/-- On `ab`, an `a` is read and an `x` is missed: the success stands at offset 1, and so does the
hint that it keeps of the `x`. -/
theorem observe_hint_sound_missed :
    let g : Grammar Rune Unit (fun _ => Empty) (fun _ => Empty) Unit :=
      (Grammar.char (.ofChar 'a')).andThen (Grammar.char (.ofChar 'x')).optional
    let p : Parser Plain Text Unit Unit := Rulebook.parser nofun 1 (Rulebook.ofGrammars nofun) g
    let start : State Text Unit := ⟨.ofBytes [] [97, 98], ()⟩
    ∃ t, p.observe start = .ok t ∧
      t.value.state?.map (fun s' => s'.pos.offset) = some 1 ∧
      1 ≤ t.value.hint.pos.offset ∧ t.value.hint.isUnknown = false := by
  intro g p start
  have hSound := observe_hint_sound (m := Plain) nofun 1 nofun g start
  refine ⟨_, rfl, rfl, ?_, rfl⟩
  exact (Plain.delivers_iff.mp hSound _ rfl).behindSuccess _ rfl

end Descent
