import Descent.Computation.Effect
import Descent.Proofs.Parser.Simulation

/-! # Traces record what the writer records

The trace keeps its events in a tree that is joined as the run goes on, and repeats round by round;
the writer appends lists and nests its rounds. Read from left to right, the tree holds the events of
the list, in each layer of a parser and in both together. -/

namespace Descent

namespace Trace

theorem toWriter_recordAll (names : List Bytes) :
    (recordAll Trace.tell names).toWriter = recordAll Writer.tell names := by
  induction names with
  | nil => rfl
  | cons name names ih =>
    rw [recordAll, recordAll, toWriter_bind, ih]
    rfl

theorem toWriter_perform {ν α : Type} (e : Effect ν α) :
    (Performs.perform e : Trace α).toWriter = Performs.perform e := by
  cases e with
  | record names a =>
    change (recordAll Trace.tell names >>= fun _ => pure a).toWriter =
      recordAll Writer.tell names >>= fun _ => pure a
    rw [toWriter_bind, toWriter_recordAll]
    rfl
  | _ => rfl

end Trace

variable {σ τ υ : Type} [Source σ τ] [Shown τ] {ε ρ : Type → Type}

/-- What is read of both layers of a trace. -/
def Trace.layersToWriter {α : Type} (x : Trace (Tagged (Trace α))) : Writer (Tagged (Writer α)) :=
  Tagged.map Trace.toWriter <$> x.toWriter

theorem Parser.Related.layersToWriter {α : Type} {p : Parser Trace σ υ α} {p' : Parser Writer σ υ α}
    (hp : Related Simulation.events p p') (s : State σ υ) :
    Trace.layersToWriter (p s) = p' s := by
  have hLayers : Writer.Alike Eq (Trace.layersToWriter (p s)) (p' s) := by
    unfold Trace.layersToWriter
    rw [map_eq_pure_bind, ← bind_pure (p' s)]
    apply (hp s).bind
    rintro _ _ ⟨consumed, hInner⟩
    exact .pure (congrArg (Tagged.mk consumed) hInner.eq)
  exact hLayers.eq

theorem recorded_events_eq {perform : {α : Type} → ε α → Trace α}
    {perform' : {α : Type} → ε α → Writer α}
    (hPerform : ∀ {α : Type} (e : ε α), (perform e).toWriter = perform' e) (bound : Nat)
    (rules : {α : Type} → ρ α → Grammar τ υ ε ρ α) {α : Type} (g : Grammar τ υ ε ρ α)
    (s : State σ υ) :
    let p : Parser Trace σ υ α := Rulebook.parser perform bound (Rulebook.ofGrammars rules) g
    let p' : Parser Writer σ υ α := Rulebook.parser perform' bound (Rulebook.ofGrammars rules) g
    (p.run s).toWriter = p'.run s ∧ (p.observe s).toWriter = p'.observe s ∧
      Trace.layersToWriter (p s) = p' s := by
  intro p p'
  have hRelated : Parser.Related Simulation.events p p' := by
    refine Rulebook.parser_related ?_ (fun _ => Simulation.events_tells) rfl
      (fun name => (rules name).asks_anything) g g.asks_anything
    intro α e _
    change Writer.Alike Eq (perform e).toWriter (perform' e)
    rw [hPerform e]
    exact .refl _
  exact ⟨(hRelated.run s).eq, (hRelated.observe s).eq, hRelated.layersToWriter s⟩

/-- On `ab`, two runes are read in a traced repetition of traced rounds, each of which records two
entries of its own. -/
theorem recorded_events_eq_repeated :
    let g : Grammar Rune Unit (Effect Unit) (fun _ => Empty) (List Unit) :=
      ((Grammar.anyToken.andThen (.lift (.record [[1], [2]] ()))).traced [120]).many.traced [121]
    let p : Parser Trace Text Unit (List Unit) :=
      Rulebook.parser Performs.perform 3 (Rulebook.ofGrammars nofun) g
    let p' : Parser Writer Text Unit (List Unit) :=
      Rulebook.parser Performs.perform 3 (Rulebook.ofGrammars nofun) g
    let start : State Text Unit := ⟨.ofBytes [] [97, 98], ()⟩
    Trace.layersToWriter (p start) = p' start ∧ (p.run start).toWriter = p'.run start ∧
      (p'.run start).toOption.map (fun x => x.2.map Event.name) =
        some [[121], [120], [1], [2], [120], [120], [1], [2], [120], [120], [120], [121]] := by
  intro g p p' start
  obtain ⟨hRun, _, hLayers⟩ :=
    recorded_events_eq (Trace.toWriter_perform (ν := Unit)) 3 nofun g start
  exact ⟨hLayers, hRun, rfl⟩

end Descent
