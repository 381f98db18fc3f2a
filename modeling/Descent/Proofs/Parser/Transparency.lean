import Descent.Computation.Effect
import Descent.Proofs.Parser.Recording

/-! # Tracing is transparent

Taking the traces out of a grammar changes nothing but the events that they record. Where the base
computation records no events, nothing changes at all. Where it does, events of traces are told from
events of effects by a run that marks each of them with its origin: without the marks its events are
those of the grammar, and the events of effects among them are those of the grammar without
traces. -/

namespace Descent

/-! ## Taking traces out -/

variable {σ τ υ : Type} {ε ρ : Type → Type}

def Grammar.untraced {α : Type} : Grammar τ υ ε ρ α → Grammar τ υ ε ρ α
  | .traced _ p => p.untraced
  | .bind p f => .bind p.untraced fun a => (f a).untraced
  | .map f p => .map f p.untraced
  | .orElse p q => .orElse p.untraced q.untraced
  | .attempt p => .attempt p.untraced
  | .label p name => .label p.untraced name
  | .lookAhead p => .lookAhead p.untraced
  | .many p => .many p.untraced
  | .count n p => .count n p.untraced
  | .manyTill p stop => .manyTill p.untraced stop.untraced
  | .pure a => .pure a
  | .never => .never
  | .fail text => .fail text
  | .unexpected text => .unexpected text
  | .lift effect => .lift effect
  | .rule name => .rule name
  | .getUser => .getUser
  | .putUser user => .putUser user
  | .modifyUser f => .modifyUser f
  | .position => .position
  | .prim primitive => .prim primitive

def untracedRules (rules : {α : Type} → ρ α → Grammar τ υ ε ρ α) {α : Type} (name : ρ α) :
    Grammar τ υ ε ρ α :=
  (rules name).untraced

theorem Grammar.untraced_asks {α : Type} (g : Grammar τ υ ε ρ α) :
    g.untraced.Asks (fun _ => True) False := by
  induction g with
  | bind p f ihp ihf => exact ⟨ihp, ihf⟩
  | orElse p q ihp ihq => exact ⟨ihp, ihq⟩
  | manyTill p stop ihp ihStop => exact ⟨ihp, ihStop⟩
  | traced name p ih => exact ih
  | map f p ih => exact ih
  | attempt p ih => exact ih
  | label p name ih => exact ih
  | lookAhead p ih => exact ih
  | many p ih => exact ih
  | count n p ih => exact ih
  | _ => trivial

section

variable [Source σ τ] {m : Type → Type} [Computation m]

theorem Parser.traced_of_untold (hTell : (Computation.tell? : Option (Event → m Unit)) = none)
    {α : Type} (name : Bytes) (p : Parser m σ υ α) : p.traced name = p := by
  unfold Parser.traced
  rw [hTell]

variable [Shown τ]

theorem Grammar.parser_untraced
    (hTraced : ∀ {α : Type} (name : Bytes) (p : Parser m σ υ α), p.traced name = p)
    (perform : {α : Type} → ε α → m α) (rounds : Nat)
    {rules rules' : {α : Type} → ρ α → Parser m σ υ α}
    (hRules : ∀ {α : Type} (name : ρ α), rules' name = rules name) {α : Type}
    (g : Grammar τ υ ε ρ α) :
    g.untraced.parser perform rounds rules' = g.parser perform rounds rules := by
  induction g with
  | traced name p ih => exact ih.trans (hTraced name _).symm
  | rule name => exact hRules name
  | bind p f ihp ihf => exact congrArg₂ Parser.bind ihp (funext ihf)
  | map f p ih => exact congrArg (Parser.map f) ih
  | orElse p q ihp ihq => exact congrArg₂ Parser.orElse ihp ihq
  | attempt p ih => exact congrArg Parser.attempt ih
  | label p name ih => exact congrArg (Parser.label · name) ih
  | lookAhead p ih => exact congrArg Parser.lookAhead ih
  | many p ih => exact congrArg (Parser.many rounds) ih
  | count n p ih => exact congrArg (Parser.count rounds n) ih
  | manyTill p stop ihp ihStop => exact congrArg₂ (Parser.manyTill rounds) ihp ihStop
  | _ => rfl

/-- Where a traced parser is the parser itself, traces can be taken out of grammar and rules. -/
theorem Rulebook.parser_untraced
    (hTraced : ∀ {α : Type} (name : Bytes) (p : Parser m σ υ α), p.traced name = p)
    (perform : {α : Type} → ε α → m α) (bound : Nat)
    (rules : {α : Type} → ρ α → Grammar τ υ ε ρ α) {α : Type} (g : Grammar τ υ ε ρ α) :
    (Rulebook.parser perform bound (ofGrammars (untracedRules rules)) g.untraced :
        Parser m σ υ α) =
      Rulebook.parser perform bound (ofGrammars rules) g := by
  have hResolved : ∀ (depth : Nat) {α : Type} (name : ρ α),
      (resolve perform bound (ofGrammars (untracedRules rules)) depth name : Parser m σ υ α) =
        resolve perform bound (ofGrammars rules) depth name := by
    intro depth
    induction depth with
    | zero => exact fun _ => rfl
    | succ depth ih => exact fun name => (rules name).parser_untraced hTraced perform bound ih
  exact g.parser_untraced hTraced perform bound (hResolved bound)

end

/-! ## Events with their origin -/

inductive Origin where
  | trace
  | effect
  deriving DecidableEq

/-- A value behind events that are marked with their origin. -/
def Marked (α : Type) := Except Fault (α × List (Origin × Event))

namespace Marked

variable {α β : Type}

protected def bind (x : Marked α) (f : α → Marked β) : Marked β :=
  match x with
  | .error fault => .error fault
  | .ok (a, before) =>
    match f a with
    | .error fault => .error fault
    | .ok (b, after) => .ok (b, before ++ after)

instance : Monad Marked where
  pure a := .ok (a, [])
  bind := Marked.bind

/-- Only traces record by `tell?`, so that what it records is marked as theirs. -/
instance : Computation Marked where
  fault := .error
  loop rounds step seed := unrolled (.error .exhausted) step rounds seed
  tell? := some fun e => .ok ((), [(.trace, e)])

/-- What a writer records, marked as recorded by an effect. -/
def ofEffect (x : Writer α) : Marked α :=
  match x with
  | .error fault => .error fault
  | .ok (a, events) => .ok (a, events.map (Prod.mk .effect))

/-- The events of the origins at hand, without their marks. -/
def read (keep : Origin → Bool) (x : Marked α) : Writer α :=
  match x with
  | .error fault => .error fault
  | .ok (a, marks) => .ok (a, (marks.filter fun mark => keep mark.1).map Prod.snd)

def events (x : Marked α) : Writer α := x.read fun _ => true

/-- The events that no trace has recorded. -/
def effects (x : Marked α) : Writer α := x.read fun origin => origin = .effect

theorem read_bind (keep : Origin → Bool) (x : Marked α) (f : α → Marked β) :
    (x >>= f).read keep = x.read keep >>= fun a => (f a).read keep := by
  rcases x with fault | ⟨a, before⟩
  · rfl
  change (Marked.bind (.ok (a, before)) f).read keep = Writer.after _ ((f a).read keep)
  unfold Marked.bind
  dsimp only
  rcases f a with fault | ⟨b, after⟩
  · rfl
  · dsimp only [read]
    rw [List.filter_append, List.map_append]
    rfl

theorem read_unrolled (keep : Origin → Bool) (step : β → Marked (Turn β α)) (rounds : Nat)
    (seed : β) :
    (unrolled (Computation.fault .exhausted) step rounds seed).read keep =
      unrolled (Computation.fault .exhausted) (fun b => (step b).read keep) rounds seed := by
  induction rounds generalizing seed with
  | zero => rfl
  | succ rounds ih =>
    rw [unrolled, unrolled, read_bind]
    congr 1
    funext turn
    cases turn with
    | next seed => exact ih seed
    | done result => rfl

theorem read_ofEffect (keep : Origin → Bool) (hKeep : keep .effect = true) (x : Writer α) :
    (ofEffect x).read keep = x := by
  rcases x with fault | ⟨a, events⟩
  · rfl
  · have hAll : (fun e : Event => keep (Prod.mk Origin.effect e).1) = fun _ => true :=
      funext fun _ => hKeep
    dsimp only [ofEffect, read]
    rw [List.filter_map, Function.comp_def, hAll, List.filter_eq_self.mpr fun _ _ => rfl,
      List.map_map]
    exact congrArg (fun l => Except.ok (a, l)) events.map_id

end Marked

def Transfer.marked (keep : Origin → Bool) : Transfer Marked Writer where
  carry := Marked.read keep
  carry_pure _ := rfl
  carry_bind := Marked.read_bind keep
  carry_fault _ := rfl
  carry_loop rounds step seed := Marked.read_unrolled keep step rounds seed

/-- A base computation of which a value behind a list of events is read, and in which an event that
is told is read as that event alone. -/
structure EventWriter (m : Type → Type) [Computation m] extends Transfer m Writer where
  tell : Event → m Unit
  tell?_eq : Computation.tell? = some tell
  carry_tell (e : Event) : carry (tell e) = Writer.tell e

def EventWriter.trace : EventWriter Trace where
  toTransfer := Transfer.events
  tell := Trace.tell
  tell?_eq := rfl
  carry_tell _ := rfl

def EventWriter.writer : EventWriter Writer where
  toTransfer := .refl Writer
  tell := Writer.tell
  tell?_eq := rfl
  carry_tell _ := rfl

/-! ## Events that are not recorded -/

/-- The writer that records the events of effects only. -/
def Muted (α : Type) := Writer α

namespace Muted

instance : Monad Muted := inferInstanceAs (Monad Writer)

instance : LawfulMonad Muted := inferInstanceAs (LawfulMonad Writer)

instance : Computation Muted where
  fault := .error
  loop rounds step seed := unrolled (.error .exhausted) step rounds seed
  tell? := some fun _ => pure ()

theorem traced_eq [Source σ τ] {α : Type} (name : Bytes) (p : Parser Muted σ υ α) :
    p.traced name = p := by
  funext s
  change (pure () >>= fun _ => p s >>= fun t => pure ⟨t.consumed, t.value >>= fun r =>
    pure () >>= fun _ => pure r⟩) = p s
  simp

end Muted

def Transfer.muted : Transfer Muted Writer where
  carry x := x
  carry_pure _ := rfl
  carry_bind _ _ := rfl
  carry_fault _ := rfl
  carry_loop _ _ _ := rfl

variable [Source σ τ] [Shown τ]

/-- Two bases in which effects are read as the same events, and those of traces as well where the
grammar has any, come to the same values behind the same events. -/
theorem Rulebook.carry_observe_eq {m n : Type → Type} [Computation m] [Computation n]
    (φ : Transfer m Writer) (ψ : Transfer n Writer) (perform : {α : Type} → ε α → m α)
    (perform' : {α : Type} → ε α → n α)
    (hPerform : ∀ {α : Type} (e : ε α), φ.carry (perform e) = ψ.carry (perform' e)) {records : Prop}
    (hTell : records → (Simulation.through φ ψ).Tells) (bound : Nat)
    (rules : {α : Type} → ρ α → Grammar τ υ ε ρ α)
    (hRules : ∀ {α : Type} (name : ρ α), (rules name).Asks (fun _ => True) records) {α : Type}
    {g : Grammar τ υ ε ρ α} (hg : g.Asks (fun _ => True) records) (s : State σ υ) :
    φ.carry ((Rulebook.parser perform bound (ofGrammars rules) g).observe s) =
      ψ.carry ((Rulebook.parser perform' bound (ofGrammars rules) g).observe s) := by
  have hEffects : ∀ {α : Type} (e : ε α), True →
      (Simulation.through φ ψ).rel Eq (perform e) (perform' e) := by
    intro α e _
    change Writer.Alike Eq (φ.carry (perform e)) (ψ.carry (perform' e))
    rw [hPerform e]
    exact .refl _
  exact ((Rulebook.parser_related hEffects hTell rfl hRules g hg).observe s).eq

theorem tracing_transparent (rules : {α : Type} → ρ α → Grammar τ υ ε ρ α) {α : Type}
    (g : Grammar τ υ ε ρ α) (bound : Nat) (s : State σ υ) :
    (∀ (m : Type → Type) [Computation m] (perform : {α : Type} → ε α → m α),
      (Computation.tell? : Option (Event → m Unit)) = none →
      let p : Parser m σ υ α := Rulebook.parser perform bound (Rulebook.ofGrammars rules) g
      let p₀ : Parser m σ υ α :=
        Rulebook.parser perform bound (Rulebook.ofGrammars (untracedRules rules)) g.untraced
      p s = p₀ s) ∧
    ∀ (m : Type → Type) [Computation m] (w : EventWriter m) (perform : {α : Type} → ε α → m α),
      let p : Parser m σ υ α := Rulebook.parser perform bound (Rulebook.ofGrammars rules) g
      let p₀ : Parser m σ υ α :=
        Rulebook.parser perform bound (Rulebook.ofGrammars (untracedRules rules)) g.untraced
      let marked : Parser Marked σ υ α :=
        Rulebook.parser (fun e => .ofEffect (w.carry (perform e))) bound
          (Rulebook.ofGrammars rules) g
      w.carry (p.observe s) = (marked.observe s).events ∧
        w.carry (p₀.observe s) = (marked.observe s).effects := by
  refine ⟨fun m _ perform hTell => ?_, fun m _ w perform => ⟨?_, ?_⟩⟩
  · exact congrFun (Rulebook.parser_untraced (Parser.traced_of_untold hTell) perform bound rules
      g).symm s
  · have hTell : (Simulation.through w.toTransfer (.marked fun _ => true)).Tells := by
      unfold Simulation.Tells
      rw [w.tell?_eq]
      refine .some fun e => ?_
      change Writer.Alike Eq (w.carry (w.tell e)) (Writer.tell e)
      rw [w.carry_tell e]
      exact .refl _
    exact Rulebook.carry_observe_eq _ _ _ _
      (fun e => (Marked.read_ofEffect (fun _ => true) rfl (w.carry (perform e))).symm)
      (fun _ => hTell) bound rules (fun name => (rules name).asks_anything) g.asks_anything s
  · -- With traces muted the grammar is the one without traces, which records effects only.
    let muted : {α : Type} → ε α → Muted α := fun e => w.carry (perform e)
    let marked : {α : Type} → ε α → Marked α := fun e => .ofEffect (w.carry (perform e))
    have hTell : (Simulation.through .muted (.marked (· = Origin.effect))).Tells :=
      .some fun _ => Coupled.refl _
    have hMuted := Rulebook.carry_observe_eq .muted (.marked (· = .effect)) muted marked
      (fun e => (Marked.read_ofEffect (· = .effect) rfl (muted e)).symm) (fun _ => hTell) bound
      rules (fun name => (rules name).asks_anything) g.asks_anything s
    have hUntraced := Rulebook.carry_observe_eq w.toTransfer .muted perform muted (fun _ => rfl)
      False.elim bound (untracedRules rules) (fun name => (rules name).untraced_asks)
      g.untraced_asks s
    rw [Rulebook.parser_untraced Muted.traced_eq] at hUntraced
    exact hUntraced.trans hMuted

/-- On `ab`, two runes are read in a traced repetition of traced rounds, each of which records an
entry of its own. -/
theorem tracing_transparent_repeated :
    let g : Grammar Rune Unit (Effect Unit) (fun _ => Empty) (List Unit) :=
      ((Grammar.anyToken.andThen (.lift (.record [[1]] ()))).traced [120]).many.traced [121]
    let start : State Text Unit := ⟨.ofBytes [] [97, 98], ()⟩
    let names (x : Writer (Tagged (Reply Text Unit (List Unit)))) : Option (List Bytes) :=
      x.toOption.map fun x => x.2.map Event.name
    let p : Parser Trace Text Unit (List Unit) :=
      Rulebook.parser Performs.perform 3 (Rulebook.ofGrammars nofun) g
    let p₀ : Parser Trace Text Unit (List Unit) :=
      Rulebook.parser Performs.perform 3 (Rulebook.ofGrammars (untracedRules nofun)) g.untraced
    let q : Parser Nondet Text Unit (List Unit) :=
      Rulebook.parser (fun | .record _ a => .ok [a, a] | _ => .ok []) 3
        (Rulebook.ofGrammars nofun) g
    let q₀ : Parser Nondet Text Unit (List Unit) :=
      Rulebook.parser (fun | .record _ a => .ok [a, a] | _ => .ok []) 3
        (Rulebook.ofGrammars (untracedRules nofun)) g.untraced
    q start = q₀ start ∧
      names (p.observe start).toWriter =
        some [[121], [120], [1], [120], [120], [1], [120], [120], [120], [121]] ∧
      names (p₀.observe start).toWriter = some [[1], [1]] := by
  intro g start names p p₀ q q₀
  obtain ⟨hUntold, hTold⟩ := tracing_transparent (σ := Text) nofun g 3 start
  obtain ⟨hTraced, hUntraced⟩ := hTold Trace .trace Performs.perform
  refine ⟨hUntold Nondet _ rfl, (congrArg names hTraced).trans ?_,
    (congrArg names hUntraced).trans ?_⟩
  · decide +kernel
  · decide +kernel

end Descent
