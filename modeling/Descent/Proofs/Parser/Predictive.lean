import Mathlib.Data.Option.Basic
import Descent.Proofs.Parser.LeftChain
import Descent.Proofs.Parser.Primitives

/-! # Parsers that decide a language

A language is a set of phrases, each with its values. A plain parser decides a language when from
every state it does one of two things: it reads a phrase, which is the only one that the rest of the
input starts with, or it fails and the rest of the input starts with none. A phrase counts only
where it is followed by the end of the input or by an element that cannot belong to it any more.
Choosing by the first element, repetition and chains of operands keep this, and with it a grammar
that is read from left to right without going back accepts exactly its sentences. Hints are left
aside. -/

namespace Descent

open Source

variable {σ τ υ α β : Type}

/-- A language: the phrases, and which values they have. -/
abbrev Phrases (τ α : Type) := List τ → α → Prop

namespace Phrases

/-- The phrase `w` with the value `a` is at the head of an input, and what follows is in `next`. -/
def Opens (L : Phrases τ α) (next : Option τ → Prop) (w : List τ) (a : α) (input : List τ) : Prop :=
  L w a ∧ ∃ rest, input = w ++ rest ∧ next rest.head?

/-- Some elements in a row, each with a value. -/
def run (choose : τ → Option α) : Phrases τ (List α) := fun w as =>
  w ≠ [] ∧ w.map choose = as.map some

/-- The same phrases with other values. -/
def map (L : Phrases τ α) (f : α → β) : Phrases τ β := fun w b => ∃ a, L w a ∧ f a = b

/-- Operators with their operands behind the value `x`, folded from the left. -/
inductive Steps (L : Phrases τ α) (choose : τ → Option (α → α → α)) : α → List τ → α → Prop where
  | stop (x : α) : Steps L choose x [] x
  | step {x y a : α} {t : τ} {f : α → α → α} {w w' : List τ} : choose t = some f → L w y →
      Steps L choose (f x y) w' a → Steps L choose x (t :: (w ++ w')) a

/-- An operand, which `f` makes part of the fold, and operators with their operands behind it. -/
def operandWith (L : Phrases τ α) (choose : τ → Option (α → α → α)) (f : α → α) : Phrases τ α :=
  fun w a => ∃ w₁ y w₂, w = w₁ ++ w₂ ∧ L w₁ y ∧ Steps L choose (f y) w₂ a

/-- An operand, and operators with their operands behind it. -/
def chain (L : Phrases τ α) (choose : τ → Option (α → α → α)) : Phrases τ α :=
  L.operandWith choose id

/-- What comes next is not chosen. -/
def Refused (choose : τ → Option β) (o : Option τ) : Prop := ∀ t ∈ o, choose t = none

/-- What may come behind a chain: what may come behind its operands, and is no operator. -/
def ChainNext (next : Option τ → Prop) (choose : τ → Option β) (o : Option τ) : Prop :=
  next o ∧ Refused choose o

theorem run_opens_unique {choose : τ → Option α} {w w' : List τ} {as as' : List α}
    {input : List τ} (h : (run choose).Opens (Refused choose) w as input)
    (h' : (run choose).Opens (Refused choose) w' as' input) : w' = w ∧ as' = as := by
  have hWhole {w rest : List τ} {as : List α} (hMap : w.map choose = as.map some)
      (hRest : Refused choose rest.head?) :
      (w ++ rest).takeWhile (fun t => (choose t).isSome) = w := by
    have hAll : ∀ t ∈ w, (choose t).isSome = true := by
      intro t ht
      have hMem : choose t ∈ as.map some := hMap ▸ List.mem_map_of_mem ht
      obtain ⟨a, -, ha⟩ := List.mem_map.mp hMem
      rw [← ha]
      rfl
    have hStop : rest.takeWhile (fun t => (choose t).isSome) = [] := by
      cases rest with
      | nil => rfl
      | cons t rest => simp [hRest t rfl]
    rw [List.takeWhile_append_of_pos hAll, hStop, List.append_nil]
  obtain ⟨⟨-, hMap⟩, rest, rfl, hRest⟩ := h
  obtain ⟨⟨-, hMap'⟩, rest', hInput, hRest'⟩ := h'
  obtain rfl : w' = w := by
    rw [← hWhole hMap hRest, hInput, hWhole hMap' hRest']
  refine ⟨rfl, ?_⟩
  exact List.map_injective_iff.mpr (Option.some_injective α) (hMap'.symm.trans hMap)

section

variable {L : Phrases τ α} {next : Option τ → Prop} {choose : τ → Option (α → α → α)}

/-- Where no operator is in sight the value stands. -/
theorem eq_of_opens_steps {x a : α} {w input : List τ} (hHead : Refused choose input.head?)
    {next : Option τ → Prop} (h : Opens (Steps L choose x) next w a input) : w = [] ∧ a = x := by
  obtain ⟨hSteps, rest, rfl, -⟩ := h
  cases hSteps with
  | stop _ => exact ⟨rfl, rfl⟩
  | step hChoose _ _ => cases hChoose.symm.trans (hHead _ rfl)

variable (hNext : ∀ t f, choose t = some f → next (some t))

include hNext

/-- An operand is followed by an operator, or by what follows the chain. -/
theorem opens_first {f : α → α} {a : α} {w input : List τ}
    (h : Opens (L.operandWith choose f) (ChainNext next choose) w a input) :
    ∃ w₁ y w₂ rest, w = w₁ ++ w₂ ∧ L.Opens next w₁ y input ∧ input = w₁ ++ rest ∧
      Opens (Steps L choose (f y)) (ChainNext next choose) w₂ a rest := by
  obtain ⟨⟨w₁, y, w₂, rfl, hPhrase, hSteps⟩, rest, rfl, hRest⟩ := h
  have hBehind : next (w₂ ++ rest).head? := by
    cases hSteps with
    | stop _ => exact hRest.1
    | step hChoose _ _ => exact hNext _ _ hChoose
  rw [List.append_assoc]
  exact ⟨w₁, y, w₂, w₂ ++ rest, rfl, ⟨hPhrase, w₂ ++ rest, rfl, hBehind⟩, rfl, hSteps, rest, rfl,
    hRest⟩

/-- Behind the only operand in sight the chain goes on. -/
theorem opens_rest {f : α → α} {y a : α} {w w₁ input rest : List τ}
    (h : Opens (L.operandWith choose f) (ChainNext next choose) w a input)
    (hInput : input = w₁ ++ rest)
    (hOnly : ∀ w' y', L.Opens next w' y' input → w' = w₁ ∧ y' = y) :
    ∃ w₂, w = w₁ ++ w₂ ∧ Opens (Steps L choose (f y)) (ChainNext next choose) w₂ a rest := by
  obtain ⟨w', y', w₂, rest', rfl, hFirst, hInput', hRest⟩ := opens_first hNext h
  obtain ⟨rfl, rfl⟩ := hOnly w' y' hFirst
  obtain rfl : rest = rest' := List.append_cancel_left (hInput.symm.trans hInput')
  exact ⟨w₂, rfl, hRest⟩

omit hNext in
theorem opens_steps_cons {x a : α} {t : τ} {f : α → α → α} {w input : List τ}
    (hChoose : choose t = some f)
    (h : Opens (Steps L choose x) (ChainNext next choose) w a (t :: input)) :
    ∃ w', w = t :: w' ∧
      Opens (L.operandWith choose (f x)) (ChainNext next choose) w' a input := by
  obtain ⟨hSteps, rest, hInput, hRest⟩ := h
  cases hSteps with
  | stop _ =>
    obtain rfl : t :: input = rest := hInput
    cases hChoose.symm.trans (hRest.2 t rfl)
  | @step _ y _ t' f' w₁ w₂ hChoose' hPhrase hSteps =>
    obtain ⟨rfl, rfl⟩ : t = t' ∧ input = w₁ ++ w₂ ++ rest := List.cons.inj hInput
    cases hChoose.symm.trans hChoose'
    exact ⟨w₁ ++ w₂, rfl, ⟨w₁, y, w₂, rfl, hPhrase, hSteps⟩, rest, rfl, hRest⟩

end

end Phrases

variable [Source σ τ]

theorem Source.Passes.length_remaining_le {s s' : σ} {passed : List τ} (h : Passes s passed s') :
    (remaining s').length ≤ (remaining s).length := by
  rw [h.remaining_eq.1, List.length_append]
  exact Nat.le_add_left _ _

theorem Phrases.refused_or_chosen (choose : τ → Option β) (s : σ) :
    Refused choose (remaining s).head? ∨
      ∃ t rest b, next? s = some (t, rest) ∧ choose t = some b := by
  rw [head?_remaining]
  cases next? s with
  | none => exact .inl nofun
  | some x =>
    cases hChoose : choose x.1 with
    | none =>
      refine .inl ?_
      rintro _ ⟨⟩
      exact hChoose
    | some b => exact .inr ⟨x.1, x.2, b, rfl, hChoose⟩

namespace Parser

/-- The parser reads one element and makes a value of it, or refuses. -/
structure Selects (choose : τ → Option α) (p : Parser Plain σ υ α) : Prop where
  takes {s : State σ υ} {t : τ} {rest : σ} {a : α} : next? s.input = some (t, rest) →
    choose t = some a → ∃ h, p.view (.refl Plain) s = .ok ⟨true, .ok a (s.withInput rest) h⟩
  refuses {s : State σ υ} : Phrases.Refused choose (remaining s.input).head? →
    ∃ h, p.view (.refl Plain) s = .ok ⟨false, .error h⟩

namespace Selects

variable {choose : τ → Option α} {p q : Parser Plain σ υ α}

theorem satisfy [Shown τ] (test : τ → Bool) :
    Selects (fun t => if test t then some t else none)
      (Parser.satisfy test : Parser Plain σ υ τ) where
  takes {s t rest a} hNext hChoose := by
    obtain ⟨hTest, rfl⟩ : test t = true ∧ t = a := by simpa using hChoose
    exact ⟨_, view_satisfy_of_next (.refl Plain) hNext hTest⟩
  refuses {s} hRefused := by
    refine ⟨_, view_satisfy_of_refused (.refl Plain) ?_⟩
    intro t rest hNext
    have hHead := hRefused t (by rw [head?_remaining, hNext]; rfl)
    simpa using hHead

theorem label (hp : Selects choose p) (name : Bytes) : Selects choose (p.label name) where
  takes hNext hChoose := by
    obtain ⟨h, hView⟩ := hp.takes hNext hChoose
    rw [view_label, hView]
    exact ⟨h, rfl⟩
  refuses hRefused := by
    obtain ⟨h, hView⟩ := hp.refuses hRefused
    rw [view_label, hView]
    exact ⟨h.relabel name, rfl⟩

theorem map (hp : Selects choose p) (f : α → β) :
    Selects (fun t => (choose t).map f) (p.map f) where
  takes {s t rest b} hNext hChoose := by
    obtain ⟨a, ha, rfl⟩ := Option.map_eq_some_iff.mp hChoose
    obtain ⟨h, hView⟩ := hp.takes hNext ha
    rw [view_map, hView]
    exact ⟨h, rfl⟩
  refuses hRefused := by
    obtain ⟨h, hView⟩ := hp.refuses fun t ht => Option.map_eq_none_iff.mp (hRefused t ht)
    rw [view_map, hView]
    exact ⟨h, rfl⟩

theorem orElse {choose' : τ → Option α} (hp : Selects choose p) (hq : Selects choose' q) :
    Selects (fun t => (choose t).or (choose' t)) (p.orElse q) where
  takes {s t rest a} hNext hChoose := by
    rw [view_orElse]
    rcases Option.or_eq_some_iff.mp hChoose with hFirst | ⟨hFirst, hSecond⟩
    · obtain ⟨h, hView⟩ := hp.takes hNext hFirst
      rw [hView]
      exact ⟨h, rfl⟩
    · have hRefused : Phrases.Refused choose (remaining s.input).head? := by
        rw [head?_remaining, hNext]
        rintro _ ⟨⟩
        exact hFirst
      obtain ⟨h, hView⟩ := hp.refuses hRefused
      obtain ⟨h', hView'⟩ := hq.takes hNext hSecond
      rw [hView, hView']
      exact ⟨h', rfl⟩
  refuses {s} hRefused := by
    have hBoth := fun t ht => Option.or_eq_none_iff.mp (hRefused t ht)
    obtain ⟨h, hView⟩ := hp.refuses fun t ht => (hBoth t ht).1
    obtain ⟨h', hView'⟩ := hq.refuses fun t ht => (hBoth t ht).2
    rw [view_orElse, hView, hView']
    exact ⟨h.merge h', rfl⟩

end Selects

/-- What the parser does from a state, in terms of a language. -/
inductive Verdict (L : Phrases τ α) (next : Option τ → Prop) (p : Parser Plain σ υ α)
    (s : State σ υ) : Prop where
  | reads {w : List τ} {a : α} {cursor : σ} {h : Hint} :
      p.view (.refl Plain) s = .ok ⟨true, .ok a (s.withInput cursor) h⟩ → w ≠ [] →
      Passes s.input w cursor → L w a → next (remaining cursor).head? →
      (∀ w' a', L.Opens next w' a' (remaining s.input) → w' = w ∧ a' = a) → Verdict L next p s
  | fails {consumed : Bool} {h : Hint} : p.view (.refl Plain) s = .ok ⟨consumed, .error h⟩ →
      (∀ w a, ¬ L.Opens next w a (remaining s.input)) → Verdict L next p s

/-- From every state with at most `n` elements left, the parser reads the only phrase in sight, or
there is none. -/
def Decides (L : Phrases τ α) (next : Option τ → Prop) (n : Nat) (p : Parser Plain σ υ α) : Prop :=
  ∀ s : State σ υ, (remaining s.input).length ≤ n → Verdict L next p s

section

variable {L : Phrases τ α} {next : Option τ → Prop} {p : Parser Plain σ υ α} {n rounds : Nat}

theorem Decides.map (hp : Decides L next n p) (f : α → β) :
    Decides (L.map f) next n (p.map f) := by
  intro s hs
  rcases hp s hs with ⟨hView, hNonempty, hPasses, hPhrase, hNext, hOnly⟩ | ⟨hView, hNone⟩
  · refine .reads (by rw [view_map, hView]; rfl) hNonempty hPasses ⟨_, hPhrase, rfl⟩ hNext ?_
    rintro w' _ ⟨⟨a', hPhrase', rfl⟩, hRest⟩
    obtain ⟨rfl, rfl⟩ := hOnly w' a' ⟨hPhrase', hRest⟩
    exact ⟨rfl, rfl⟩
  · refine .fails (by rw [view_map, hView]; rfl) ?_
    rintro w _ ⟨⟨a, hPhrase, rfl⟩, hRest⟩
    exact hNone w a ⟨hPhrase, hRest⟩

/-! ## Elements in a row -/

section

variable {choose : τ → Option α} (hp : Selects choose p)

include hp

theorem Selects.consumedRounds (left : Nat) (values : List α) (s : State σ υ)
    (hLeft : (remaining s.input).length < left) :
    ∃ w as cursor h, Parser.consumedRounds (p.view (.refl Plain)) left ⟨values, s⟩ =
        .ok (⟨values ++ as, s.withInput cursor⟩, .refused h) ∧
      Passes s.input w cursor ∧ w.map choose = as.map some ∧
      Phrases.Refused choose (remaining cursor).head? := by
  induction left generalizing values s with
  | zero => exact absurd hLeft (Nat.not_lt_zero _)
  | succ left ih =>
    rcases Phrases.refused_or_chosen choose s.input with hHead | ⟨t, rest, a, hNext, hChoose⟩
    · obtain ⟨h, hView⟩ := hp.refuses hHead
      refine ⟨[], [], s.input, h, ?_, .stay _, rfl, hHead⟩
      rw [Parser.consumedRounds, hView, List.append_nil]
      rfl
    · obtain ⟨h, hView⟩ := hp.takes hNext hChoose
      rw [remaining_of_next hNext, List.length_cons] at hLeft
      obtain ⟨w, as, cursor, h', hRounds, hPasses, hMap, hRefused⟩ :=
        ih (values ++ [a]) (s.withInput rest) (Nat.lt_of_succ_lt_succ hLeft)
      refine ⟨t :: w, a :: as, cursor, h', ?_, .move hNext hPasses, ?_, hRefused⟩
      · rw [List.append_assoc] at hRounds
        rw [Parser.consumedRounds, hView]
        exact hRounds
      · rw [List.map_cons, List.map_cons, hChoose, hMap]

theorem Selects.many1 (hRounds : n < rounds) :
    Decides (Phrases.run choose) (Phrases.Refused choose) n (many1 rounds p) := by
  intro s hs
  obtain ⟨rounds, rfl⟩ := Nat.exists_eq_add_one_of_ne_zero (Nat.ne_zero_of_lt hRounds)
  rcases Phrases.refused_or_chosen choose s.input with hHead | ⟨t, rest, a, hNext, hChoose⟩
  · obtain ⟨h, hView⟩ := hp.refuses hHead
    have hWhole : (Parser.many1 (rounds + 1) p).view (.refl Plain) s = .ok ⟨false, .error h⟩ := by
      rw [Parser.many1, view_bind, hView]
      rfl
    refine .fails hWhole ?_
    rintro w as ⟨⟨hNonempty, hMap⟩, rest, hInput, -⟩
    obtain ⟨t, w, rfl⟩ := List.exists_cons_of_ne_nil hNonempty
    rw [hInput] at hHead
    rw [List.map_cons, hHead t rfl] at hMap
    cases as <;> cases hMap
  · obtain ⟨h, hView⟩ := hp.takes hNext hChoose
    have hRemaining : remaining s.input = t :: remaining rest := remaining_of_next hNext
    rw [hRemaining, List.length_cons] at hs
    have hLeft : (remaining rest).length < rounds + 2 := by omega
    obtain ⟨w, as, cursor, h', hRun, hPasses, hMap, hRefused⟩ :=
      hp.consumedRounds (rounds + 2) [] (s.withInput rest) hLeft
    have hPhrase : Phrases.run choose (t :: w) (a :: as) := by
      refine ⟨List.cons_ne_nil t w, ?_⟩
      rw [List.map_cons, List.map_cons, hChoose, hMap]
    have hMany : ((many (rounds + 1) p).map (a :: ·)).view (.refl Plain) (s.withInput rest) =
        .ok ⟨0 < as.length, .ok (a :: as) (s.withInput cursor) h'⟩ := by
      have hRounds := consumedRounds_concluded (p.view (.refl Plain)) (rounds + 1)
        ⟨[], s.withInput rest⟩
      rw [hRun] at hRounds
      rw [view_map, view_many_first]
      exact congrArg (Tagged.map (Reply.map (a :: ·)) <$> ·) hRounds.symm
    have hWhole : (Parser.many1 (rounds + 1) p).view (.refl Plain) s =
        .ok (Tagged.follow true h ⟨0 < as.length, .ok (a :: as) (s.withInput cursor) h'⟩) := by
      rw [Parser.many1, view_bind, hView]
      exact congrArg (Tagged.follow true h <$> ·) hMany
    rw [Tagged.follow_ok] at hWhole
    refine .reads hWhole (List.cons_ne_nil t w) (.move hNext hPasses) hPhrase hRefused ?_
    intro w' as' hOpens
    refine Phrases.run_opens_unique ⟨hPhrase, remaining cursor, ?_, hRefused⟩ hOpens
    exact hRemaining.trans (congrArg (t :: ·) hPasses.remaining_eq.1)

end

/-! ## Chains -/

section

variable {op : Parser Plain σ υ (α → α → α)} {choose : τ → Option (α → α → α)}

theorem view_chainStep_refused (hOp : Selects choose op) {s : State σ υ}
    (hHead : Phrases.Refused choose (remaining s.input).head?) :
    ∃ h, (chainStep p op).view (.refl Plain) s = .ok ⟨false, .error h⟩ := by
  obtain ⟨h, hView⟩ := hOp.refuses hHead
  refine ⟨h, ?_⟩
  rw [chainStep, view_bind, hView]
  rfl

theorem view_chainStep_failed (hOp : Selects choose op) {s : State σ υ} {t : τ} {rest : σ}
    {f : α → α → α} (hHead : next? s.input = some (t, rest)) (hChoose : choose t = some f)
    {consumed : Bool} {h : Hint}
    (hOperand : p.view (.refl Plain) (s.withInput rest) = .ok ⟨consumed, .error h⟩) :
    ∃ h, (chainStep p op).view (.refl Plain) s = .ok ⟨true, .error h⟩ := by
  obtain ⟨h', hView⟩ := hOp.takes hHead hChoose
  rw [chainStep, view_bind, hView]
  change ∃ h, Tagged.follow true h' <$> (p.map fun y => (f, y)).view (.refl Plain) _ = _
  rw [view_map, hOperand]
  cases consumed
  · exact ⟨h'.merge h, rfl⟩
  · exact ⟨h, rfl⟩

theorem view_chainStep_read (hOp : Selects choose op) {s : State σ υ} {t : τ} {rest cursor : σ}
    {f : α → α → α} (hHead : next? s.input = some (t, rest)) (hChoose : choose t = some f)
    {y : α} {h : Hint} (hOperand : p.view (.refl Plain) (s.withInput rest) =
      .ok ⟨true, .ok y ((s.withInput rest).withInput cursor) h⟩) :
    (chainStep p op).view (.refl Plain) s = .ok ⟨true, .ok (f, y) (s.withInput cursor) h⟩ := by
  obtain ⟨h', hView⟩ := hOp.takes hHead hChoose
  rw [chainStep, view_bind, hView]
  change Tagged.follow true h' <$> (p.map fun y => (f, y)).view (.refl Plain) _ = _
  rw [view_map, hOperand]
  rfl

/-- What the rounds of a chain do behind the value `x`, in terms of its operators and operands. -/
inductive RoundsVerdict (L : Phrases τ α) (next : Option τ → Prop)
    (choose : τ → Option (α → α → α)) (x : α) (s : State σ υ) :
    Plain (ChainHalt σ υ α) → Prop where
  | reads {consumed : Bool} {w : List τ} {a : α} {cursor : σ} {h : Hint} :
      Passes s.input w cursor → L.Steps choose x w a →
      Phrases.ChainNext next choose (remaining cursor).head? →
      (∀ w' a', Phrases.Opens (L.Steps choose x) (Phrases.ChainNext next choose) w' a'
        (remaining s.input) → w' = w ∧ a' = a) →
      RoundsVerdict L next choose x s (.ok (.refused consumed a (s.withInput cursor) h))
  | fails {h : Hint} :
      (∀ w a, ¬ Phrases.Opens (L.Steps choose x) (Phrases.ChainNext next choose) w a
        (remaining s.input)) →
      RoundsVerdict L next choose x s (.ok (.failed h))

variable (hNext : ∀ t f, choose t = some f → next (some t))

include hNext

/-- An operator and an operand in front of a verdict. -/
theorem RoundsVerdict.step {s : State σ υ} {t : τ} {rest cursor : σ} {f : α → α → α} {x y : α}
    {w₁ : List τ} (hMore : next? s.input = some (t, rest)) (hChoose : choose t = some f)
    (hPasses : Passes rest w₁ cursor) (hPhrase : L w₁ y)
    (hOnly : ∀ w' a', L.Opens next w' a' (remaining rest) → w' = w₁ ∧ a' = y)
    {out : Plain (ChainHalt σ υ α)}
    (h : RoundsVerdict L next choose (f x y) (s.withInput cursor) out) :
    RoundsVerdict L next choose x s out := by
  have hTail (w : List τ) (a : α)
      (hOpens : Phrases.Opens (L.Steps choose x) (Phrases.ChainNext next choose) w a
        (remaining s.input)) :
      ∃ w₂, w = t :: (w₁ ++ w₂) ∧
        Phrases.Opens (L.Steps choose (f x y)) (Phrases.ChainNext next choose) w₂ a
          (remaining cursor) := by
    rw [remaining_of_next hMore] at hOpens
    obtain ⟨w', rfl, hOperand⟩ := Phrases.opens_steps_cons hChoose hOpens
    obtain ⟨w₂, rfl, hRest⟩ := Phrases.opens_rest hNext hOperand hPasses.remaining_eq.1 hOnly
    exact ⟨w₂, rfl, hRest⟩
  cases h with
  | reads hPasses' hSteps hBehind hOnly' =>
    refine .reads (.move hMore (hPasses.trans hPasses')) (.step hChoose hPhrase hSteps) hBehind ?_
    intro w a hOpens
    obtain ⟨w₂, rfl, hRest⟩ := hTail w a hOpens
    obtain ⟨rfl, rfl⟩ := hOnly' w₂ a hRest
    exact ⟨rfl, rfl⟩
  | fails hNone =>
    refine .fails fun w a hOpens => ?_
    obtain ⟨w₂, -, hRest⟩ := hTail w a hOpens
    exact hNone w₂ a hRest

variable (hp : Decides L next n p) (hOp : Selects choose op)

include hp hOp

theorem chainRounds_verdict (left : Nat) (consumed : Bool) (x : α) (s : State σ υ)
    (hLength : (remaining s.input).length ≤ n) (hLeft : (remaining s.input).length < left)
    (hHead : next (remaining s.input).head?) :
    RoundsVerdict L next choose x s
      (chainRounds ((chainStep p op).view (.refl Plain)) left consumed x s) := by
  induction left generalizing consumed x s with
  | zero => exact absurd hLeft (Nat.not_lt_zero _)
  | succ left ih =>
    rw [chainRounds]
    rcases Phrases.refused_or_chosen choose s.input with hRefused | ⟨t, rest, f, hMore, hChoose⟩
    · obtain ⟨h, hView⟩ := view_chainStep_refused (p := p) hOp hRefused
      rw [hView]
      exact .reads (.stay _) (.stop x) ⟨hHead, hRefused⟩ fun w' a' hOpens =>
        Phrases.eq_of_opens_steps hRefused hOpens
    · have hRemaining : remaining s.input = t :: remaining rest := remaining_of_next hMore
      rw [hRemaining, List.length_cons] at hLength hLeft
      cases hp (s.withInput rest) (Nat.le_of_succ_le hLength) with
      | @reads w₁ y cursor h hOperand hNonempty hPasses hPhrase hBehind hOnly =>
        have hShorter : (remaining cursor).length ≤ (remaining rest).length :=
          hPasses.length_remaining_le
        have hTail := ih true (f x y) (s.withInput cursor)
          (hShorter.trans (Nat.le_of_succ_le hLength))
          (hShorter.trans_lt (Nat.lt_of_succ_lt_succ hLeft)) hBehind
        rw [view_chainStep_read hOp hMore hChoose hOperand]
        exact hTail.step hNext hMore hChoose hPasses hPhrase hOnly
      | fails hOperand hNone =>
        obtain ⟨h, hView⟩ := view_chainStep_failed hOp hMore hChoose hOperand
        rw [hView]
        refine .fails fun w a hOpens => ?_
        rw [hRemaining] at hOpens
        obtain ⟨w', -, hOperand'⟩ := Phrases.opens_steps_cons hChoose hOpens
        obtain ⟨w₁, y, -, -, -, hFirst, -⟩ := Phrases.opens_first hNext hOperand'
        exact hNone w₁ y hFirst

theorem Decides.chainl1 (hRounds : n < rounds) :
    Decides (L.chain choose) (Phrases.ChainNext next choose) n (chainl1 rounds p op) := by
  intro s hs
  obtain ⟨rounds, rfl⟩ := Nat.exists_eq_add_one_of_ne_zero (Nat.ne_zero_of_lt hRounds)
  have hChain := view_chainl1 (.refl Plain) p op rounds s
  cases hp s hs with
  | @reads w₁ x cursor h hView hNonempty hPasses hPhrase hBehind hOnly =>
    have hShorter : (remaining cursor).length ≤ (remaining s.input).length :=
      hPasses.length_remaining_le
    have hRounds := chainRounds_verdict hNext hp hOp (rounds + 2) false x (s.withInput cursor)
      (hShorter.trans hs) (by change (remaining cursor).length < _; omega) hBehind
    rw [hView] at hChain
    change _ = Tagged.follow true h <$> (_ >>= ChainHalt.concluded) at hChain
    generalize chainRounds ((chainStep p op).view (.refl Plain)) (rounds + 2) false x
      (s.withInput cursor) = out at hRounds hChain
    cases hRounds with
    | @reads consumed w₂ a cursor' h' hPasses' hSteps hBehind' hOnly' =>
      have hWhole := hChain.trans (congrArg Except.ok (Tagged.follow_ok true consumed h h' a _))
      refine .reads hWhole (List.append_ne_nil_of_left_ne_nil hNonempty w₂)
        (hPasses.trans hPasses') ⟨w₁, x, w₂, rfl, hPhrase, hSteps⟩ hBehind' ?_
      intro w a hOpens
      obtain ⟨w₂, rfl, hRest⟩ := Phrases.opens_rest hNext hOpens hPasses.remaining_eq.1 hOnly
      obtain ⟨rfl, rfl⟩ := hOnly' w₂ a hRest
      exact ⟨rfl, rfl⟩
    | fails hNone =>
      refine .fails hChain fun w a hOpens => ?_
      obtain ⟨w₂, -, hRest⟩ := Phrases.opens_rest hNext hOpens hPasses.remaining_eq.1 hOnly
      exact hNone w₂ a hRest
  | fails hView hNone =>
    rw [hView] at hChain
    refine .fails hChain fun w a hOpens => ?_
    obtain ⟨w₁, x, -, -, -, hFirst, -⟩ := Phrases.opens_first hNext hOpens
    exact hNone w₁ x hFirst

end

/-! ## Whole inputs -/

/-- In front of the end of the input, a phrase is all that is left. -/
theorem Decides.skip_eof [Shown τ] (hp : Decides L next n p) (hEnd : next none) {s : State σ υ}
    (hs : (remaining s.input).length ≤ n) :
    (∃ a h, (p.skip eof).view (.refl Plain) s =
        .ok ⟨true, .ok a (s.withInput (final s.input)) h⟩ ∧
      L (remaining s.input) a ∧ ∀ a', L (remaining s.input) a' → a' = a) ∨
    (∃ consumed h, (p.skip eof).view (.refl Plain) s = .ok ⟨consumed, .error h⟩ ∧
      ∀ a, ¬ L (remaining s.input) a) := by
  have hWhole {a : α} (hPhrase : L (remaining s.input) a) :
      L.Opens next (remaining s.input) a (remaining s.input) :=
    ⟨hPhrase, [], (List.append_nil _).symm, hEnd⟩
  cases hp s hs with
  | @reads w a cursor h hView hNonempty hPasses hPhrase hBehind hOnly =>
    obtain ⟨hRemaining, hFinal⟩ := hPasses.remaining_eq
    rw [view_skip_of_ok (.refl Plain) hView]
    cases hNext : next? cursor with
    | none =>
      have hCursor : final s.input = cursor :=
        hFinal.trans ((passes_final cursor).eq_of_final hNext).2
      have hAll : remaining s.input = w := by
        rw [hRemaining, remaining_of_end hNext, List.append_nil]
      rw [view_eof_of_end (.refl Plain) hNext, hCursor]
      refine .inl ⟨a, h.merge (.unknown (pos cursor)), rfl, hAll ▸ hPhrase, ?_⟩
      intro a' hPhrase'
      exact (hOnly _ a' (hWhole hPhrase')).2
    | some x =>
      rw [view_eof_of_next (.refl Plain) hNext]
      refine .inr ⟨true, _, rfl, ?_⟩
      -- A phrase that is all that is left would be the phrase that was read.
      intro a' hPhrase'
      obtain ⟨hAll, -⟩ := hOnly _ a' (hWhole hPhrase')
      rw [remaining_of_next hNext, hAll] at hRemaining
      exact absurd hRemaining (by simp)
  | fails hView hNone =>
    rw [skip, view_bind, hView]
    exact .inr ⟨_, _, rfl, fun a hPhrase => hNone _ a (hWhole hPhrase)⟩

end

end Parser

end Descent
