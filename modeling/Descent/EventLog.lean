import Descent.Event

/-! # Event logs

Logs are kept as trees, so that joining two of them copies no event. The events of a tree are listed
by a walk that keeps the nodes still to visit on a stack. The walk takes a node for a leaf where its
left part is missing, and it has nowhere to go where the right part alone is missing; joining builds
no such node, and a log is a tree built by joining. -/

namespace Descent

/-- A sequence of events as a tree. A node without a left part is a leaf and holds its event; the
event of any other node has no meaning. -/
inductive EventTree where
  | empty
  | node (event : Event) (left right : EventTree) (size : Nat)

namespace EventTree

def size : EventTree → Nat
  | empty => 0
  | node _ _ _ n => n

def leaf (event : Event) : EventTree := node event empty empty 1

def join (a b : EventTree) : EventTree :=
  match a, b with
  | empty, b => b
  | a, empty => a
  | a, b => node .blank a b (a.size + b.size)

def weight : EventTree → Nat
  | empty => 1
  | node _ left right _ => left.weight + right.weight + 1

/-- What is still to be visited of the trees on a stack. -/
def pending : List EventTree → Nat
  | [] => 0
  | tree :: stack => tree.weight + pending stack

theorem pending_dropped (tree : EventTree) (stack : List EventTree) :
    pending stack < pending (tree :: stack) := by
  have hWeight : 0 < tree.weight := by cases tree <;> exact Nat.succ_pos _
  rw [pending]
  omega

theorem pending_parts (event : Event) (left right : EventTree) (size : Nat)
    (stack : List EventTree) :
    pending (left :: right :: stack) < pending (node event left right size :: stack) := by
  simp only [pending, weight]
  omega

/-- Visits the nodes on a stack, the uppermost first, where `listed` are the events listed so far,
the last one first. There is no result where a part that is to be visited is missing. -/
@[semireducible] def walk : List EventTree → List Event → Option (List Event)
  | [], listed => some listed.reverse
  | empty :: _, _ => none
  | node event empty _ _ :: stack, listed => walk stack (event :: listed)
  | node _ left right _ :: stack, listed => walk (left :: right :: stack) listed
termination_by stack => pending stack
decreasing_by
  · exact pending_dropped ..
  · exact pending_parts ..

def events? : EventTree → Option (List Event)
  | empty => some []
  | tree => walk [tree] []

/-- The tree is built by joining, out of nothing and single events, and these are the events. -/
inductive Joins : EventTree → List Event → Prop where
  | empty : Joins empty []
  | leaf (event : Event) : Joins (leaf event) [event]
  | join {a b : EventTree} {xs ys : List Event} : Joins a xs → Joins b ys →
    Joins (a.join b) (xs ++ ys)

namespace Joins

variable {tree : EventTree} {events : List Event}

theorem eq_nil (h : Joins .empty events) : events = [] := by
  generalize hTree : EventTree.empty = tree at h
  induction h with
  | empty => rfl
  | leaf event => cases hTree
  | @join a b xs ys _ _ iha ihb =>
    cases a with
    | empty => rw [iha rfl, ihb hTree, List.append_nil]
    | node => cases b <;> cases hTree

theorem walk_cons (h : Joins tree events) (hSome : tree ≠ .empty) (stack : List EventTree)
    (listed : List Event) :
    walk (tree :: stack) listed = walk stack (events.reverse ++ listed) := by
  induction h generalizing stack listed with
  | empty => exact absurd rfl hSome
  | leaf event => rw [EventTree.leaf, walk, List.reverse_singleton, List.singleton_append]
  | @join a b xs ys ha hb iha ihb =>
    -- Joining with nothing builds no node, so only the case of two parts is a step of the walk.
    cases a with
    | empty =>
      rw [ha.eq_nil]
      exact ihb hSome stack listed
    | node =>
      cases b with
      | empty =>
        rw [hb.eq_nil, List.append_nil]
        exact iha hSome stack listed
      | node =>
        rw [EventTree.join, walk, iha nofun, ihb nofun, List.reverse_append, List.append_assoc]
        all_goals nofun

theorem events?_eq (h : Joins tree events) : tree.events? = some events := by
  cases tree with
  | empty =>
    rw [h.eq_nil]
    rfl
  | node =>
    rw [events?, h.walk_cons nofun, walk, List.append_nil, List.reverse_reverse]
    nofun

theorem size_eq (h : Joins tree events) : tree.size = events.length := by
  induction h with
  | empty => rfl
  | leaf event => rfl
  | @join a b xs ys _ _ iha ihb =>
    rw [List.length_append, ← iha, ← ihb]
    cases a with
    | empty => exact (Nat.zero_add _).symm
    | node => cases b <;> rfl

end Joins

end EventTree

/-- A tree of events that is built by joining. -/
structure EventLog where
  tree : EventTree
  joined : ∃ events, tree.Joins events

namespace EventLog

def empty : EventLog := ⟨.empty, [], .empty⟩

def single (event : Event) : EventLog := ⟨.leaf event, [event], .leaf event⟩

def append (a b : EventLog) : EventLog where
  tree := a.tree.join b.tree
  joined := by
    obtain ⟨xs, ha⟩ := a.joined
    obtain ⟨ys, hb⟩ := b.joined
    exact ⟨xs ++ ys, ha.join hb⟩

instance : Append EventLog := ⟨append⟩

theorem isSome_events? (log : EventLog) : log.tree.events?.isSome := by
  obtain ⟨events, h⟩ := log.joined
  rw [h.events?_eq]
  rfl

def toList (log : EventLog) : List Event := log.tree.events?.get log.isSome_events?

theorem joins_iff {log : EventLog} {events : List Event} :
    log.tree.Joins events ↔ log.toList = events := by
  have hUnique {xs : List Event} (h : log.tree.Joins xs) : log.toList = xs :=
    Option.get_of_eq_some log.isSome_events? h.events?_eq
  constructor
  · exact hUnique
  · rintro rfl
    obtain ⟨events, h⟩ := log.joined
    rwa [hUnique h]

theorem joins_toList (log : EventLog) : log.tree.Joins log.toList := joins_iff.mpr rfl

@[simp] theorem toList_empty : empty.toList = [] := rfl

@[simp] theorem toList_single (e : Event) : (single e).toList = [e] := rfl

@[simp] theorem toList_append (a b : EventLog) : (a ++ b).toList = a.toList ++ b.toList :=
  joins_iff.mp (a.joins_toList.join b.joins_toList)

theorem append_empty (log : EventLog) : log ++ empty = log := by
  obtain ⟨tree, hJoined⟩ := log
  cases tree <;> rfl

end EventLog

end Descent
