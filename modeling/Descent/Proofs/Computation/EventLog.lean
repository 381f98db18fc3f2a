import Descent.Proofs.Computation.Bases

/-! # Logs are sequences

However a log was joined, the walk over its tree meets no missing part and lists the events from
left to right, and the root records how many they are. So joining is appending, and a trace obeys
the monad laws as far as its value and its events tell. -/

namespace Descent

/-- What is told of event trees by the events that their walk lists. -/
structure EventLog.SequenceLaws : Prop where
  listed {tree : EventTree} {events : List Event} : tree.Joins events →
    tree.events? = some events ∧ tree.size = events.length
  events?_eq (log : EventLog) : log.tree.events? = some log.toList
  append (a b : EventLog) : (a ++ b).toList = a.toList ++ b.toList
  append_assoc (a b c : EventLog) : (a ++ b ++ c).toList = (a ++ (b ++ c)).toList
  empty_append (log : EventLog) : (EventLog.empty ++ log).toList = log.toList
  append_empty (log : EventLog) : (log ++ EventLog.empty).toList = log.toList

theorem EventLog.sequenceLaws : SequenceLaws where
  listed h := ⟨h.events?_eq, h.size_eq⟩
  events?_eq log := log.joins_toList.events?_eq
  append := toList_append
  append_assoc a b c := by
    rw [toList_append, toList_append, toList_append, toList_append, List.append_assoc]
  empty_append log := toList_append .empty log
  append_empty log := by rw [EventLog.append_empty]

/-- The monad laws, as far as the value and the events of a trace tell. -/
structure Trace.MonadLaws : Prop where
  pure_bind {α β : Type} (a : α) (f : α → Trace β) : (pure a >>= f).toWriter = (f a).toWriter
  bind_pure {α : Type} (x : Trace α) : (x >>= pure).toWriter = x.toWriter
  bind_assoc {α β γ : Type} (x : Trace α) (f : α → Trace β) (g : β → Trace γ) :
    (x >>= f >>= g).toWriter = (x >>= fun a => f a >>= g).toWriter

theorem Trace.obeysMonadLaws : MonadLaws where
  pure_bind {α _} a f := by
    have hPure : (pure a : Trace α).toWriter = pure a := rfl
    rw [toWriter_bind, hPure, pure_bind]
  bind_pure {α} x := by
    have hPure : (fun a => (pure a : Trace α).toWriter) = pure := rfl
    rw [toWriter_bind, hPure, bind_pure]
  bind_assoc x f g := by
    rw [toWriter_bind, toWriter_bind, toWriter_bind, bind_assoc]
    simp only [toWriter_bind]

/-- A log is the sequence of its events, whatever its shape. -/
theorem logs_are_sequences : EventLog.SequenceLaws ∧ Trace.MonadLaws :=
  ⟨EventLog.sequenceLaws, Trace.obeysMonadLaws⟩

/-- Four events joined unevenly around two empty logs, and three told in two groupings that leave
different trees. -/
theorem logs_are_sequences_uneven :
    let event (n : UInt8) : Event := .enter [n] .zero
    let one (n : UInt8) : EventLog := .single (event n)
    let log : EventLog := one 1 ++ one 2 ++ .empty ++ (one 3 ++ (.empty ++ one 4))
    let tell (n : UInt8) : Trace Unit := Trace.tell (event n)
    let early : Trace Unit := (tell 1 >>= fun _ => tell 2) >>= fun _ => tell 3
    let late : Trace Unit := tell 1 >>= fun _ => tell 2 >>= fun _ => tell 3
    log.tree.events? = some [event 1, event 2, event 3, event 4] ∧ log.tree.size = 4 ∧
      early ≠ late ∧ early.toWriter = late.toWriter := by
  intro event one log tell early late
  obtain ⟨hLogs, hTraces⟩ := logs_are_sequences
  have hJoins : log.tree.Joins [event 1, event 2, event 3, event 4] :=
    (((EventTree.Joins.leaf _).join (.leaf _)).join .empty).join
      ((EventTree.Joins.leaf _).join (EventTree.Joins.empty.join (.leaf _)))
  refine ⟨(hLogs.listed hJoins).1, (hLogs.listed hJoins).2, ?_, ?_⟩
  · intro hSame
    have hTrees := congrArg EventLog.tree (Prod.mk.inj (Except.ok.inj hSame)).2
    cases hTrees
  · exact hTraces.bind_assoc (tell 1) (fun _ => tell 2) fun _ => tell 3

end Descent
