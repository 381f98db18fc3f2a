import Mathlib.Data.List.Induction
import Mathlib.Data.Nat.Digits.Defs
import Descent.Proofs.Parser.Predictive
import Descent.Proofs.Source.Reading

/-! # Arithmetic in two levels

Digits, products of numbers, and sums and differences of products, read from left to right and
evaluated on the way. A text is accepted exactly if it is written as such a sum, and its value is
that of the sum, kept to 64 bits with sign. The sums are given as data, with their texts and with
their values among the integers, apart from the parser. -/

namespace Descent

open Source

/-- Operands, each but the first behind an operator. -/
structure Chain (ω ι : Type) where
  first : ι
  rest : List (ω × ι)

namespace Chain

variable {ω ι κ α β : Type}

/-- Operators and operands one after the other. -/
def restText (symbol : ω → κ) (text : ι → List κ) (rest : List (ω × ι)) : List κ :=
  rest.flatMap fun x => symbol x.1 :: text x.2

def text (symbol : ω → κ) (text : ι → List κ) (c : Chain ω ι) : List κ :=
  text c.first ++ restText symbol text c.rest

/-- The operands folded from the left. -/
def fold (apply : ω → α → α → α) (value : ι → α) (x : α) (rest : List (ω × ι)) : α :=
  rest.foldl (fun acc y => apply y.1 acc (value y.2)) x

def value (apply : ω → α → α → α) (value : ι → α) (c : Chain ω ι) : α :=
  fold apply value (value c.first) c.rest

theorem map_restText_cons (f : κ → β) (symbol : ω → κ) (text : ι → List κ) (y : ω × ι)
    (rest : List (ω × ι)) :
    (restText symbol text (y :: rest)).map f =
      f (symbol y.1) :: ((text y.2).map f ++ (restText symbol text rest).map f) := by
  rw [restText, List.flatMap_cons, List.cons_append, List.map_cons, List.map_append]
  rfl

theorem value_hom {apply : ω → α → α → α} {apply' : ω → β → β → β} (f : α → β)
    (hApply : ∀ o x y, apply' o (f x) (f y) = f (apply o x y)) (v : ι → α) (c : Chain ω ι) :
    c.value apply' (fun i => f (v i)) = f (c.value apply v) :=
  List.foldl_hom f fun x y => hApply y.1 x (v y.2)

end Chain

namespace Phrases

variable {κ τ ω ι α β : Type}

/-- Over elements that come from `f`, the phrases are the texts of some data, with their values. -/
def Spells (L : Phrases τ α) (f : κ → τ) (text : ι → List κ) (value : ι → α) : Prop :=
  ∀ w a, L (w.map f) a ↔ ∃ i, w = text i ∧ a = value i

/-- Over elements that come from `f`, what is chosen are the symbols, with their meanings. -/
def Symbols (choose : τ → Option β) (f : κ → τ) (symbol : ω → κ) (meaning : ω → β) : Prop :=
  ∀ k b, choose (f k) = some b ↔ ∃ o, k = symbol o ∧ b = meaning o

variable {L : Phrases τ α} {f : κ → τ} {text : ι → List κ} {value : ι → α}
  {choose : τ → Option (α → α → α)} {symbol : ω → κ} {apply : ω → α → α → α}

theorem Symbols.run {choose : τ → Option β} {meaning : ω → β}
    (h : Symbols choose f symbol meaning) (w : List κ) (bs : List β) :
    run choose (w.map f) bs ↔
      ∃ os : List ω, os ≠ [] ∧ w = os.map symbol ∧ bs = os.map meaning := by
  have hEach : (w.map f).map choose = bs.map some ↔
      ∃ os : List ω, w = os.map symbol ∧ bs = os.map meaning := by
    induction w generalizing bs with
    | nil =>
      constructor
      · intro hMap
        exact ⟨[], rfl, List.map_eq_nil_iff.mp hMap.symm⟩
      · rintro ⟨os, hw, rfl⟩
        rw [List.map_eq_nil_iff.mp hw.symm]
        rfl
    | cons k w ih =>
      constructor
      · intro hMap
        obtain ⟨b, bs, rfl, hb, hbs⟩ := List.map_eq_cons_iff.mp hMap.symm
        obtain ⟨o, rfl, rfl⟩ := (h k b).mp hb.symm
        obtain ⟨os, rfl, rfl⟩ := (ih bs).mp hbs.symm
        exact ⟨o :: os, rfl, rfl⟩
      · rintro ⟨os, hw, rfl⟩
        obtain ⟨o, os, rfl, rfl, rfl⟩ := List.map_eq_cons_iff.mp hw.symm
        have hb := (h (symbol o) (meaning o)).mpr ⟨o, rfl, rfl⟩
        have hbs := (ih (os.map meaning)).mpr ⟨os, rfl, rfl⟩
        rw [List.map_cons, List.map_cons, List.map_cons, List.map_cons, hb, hbs]
  rw [Phrases.run, hEach]
  constructor
  · rintro ⟨hNonempty, os, rfl, rfl⟩
    exact ⟨os, by simpa using hNonempty, rfl, rfl⟩
  · rintro ⟨os, hNonempty, rfl, rfl⟩
    exact ⟨by simpa using hNonempty, os, rfl, rfl⟩

theorem Spells.steps (hL : L.Spells f text value) (hOp : Symbols choose f symbol apply) (x : α) :
    Spells (L.Steps choose x) f (Chain.restText symbol text) (Chain.fold apply value x) := by
  intro w a
  constructor
  · intro h
    generalize hw : w.map f = v at h
    induction h generalizing w with
    | stop x => exact ⟨[], List.map_eq_nil_iff.mp hw, rfl⟩
    | step hChoose hPhrase _ ih =>
      obtain ⟨k, u, rfl, rfl, hu⟩ := List.map_eq_cons_iff.mp hw
      obtain ⟨w₁, w₂, rfl, rfl, hRest⟩ := List.map_eq_append_iff.mp hu
      obtain ⟨o, rfl, rfl⟩ := (hOp k _).mp hChoose
      obtain ⟨i, rfl, rfl⟩ := (hL w₁ _).mp hPhrase
      obtain ⟨rest, rfl, rfl⟩ := ih w₂ hRest
      exact ⟨(o, i) :: rest, rfl, rfl⟩
  · rintro ⟨rest, rfl, rfl⟩
    induction rest generalizing x with
    | nil => exact .stop x
    | cons y rest ih =>
      have hChoose := (hOp (symbol y.1) (apply y.1)).mpr ⟨y.1, rfl, rfl⟩
      have hPhrase := (hL (text y.2) (value y.2)).mpr ⟨y.2, rfl, rfl⟩
      rw [Chain.map_restText_cons]
      exact .step hChoose hPhrase (ih _)

theorem Spells.chain (hL : L.Spells f text value) (hOp : Symbols choose f symbol apply) :
    (L.chain choose).Spells f (Chain.text symbol text) (Chain.value apply value) := by
  intro w a
  constructor
  · rintro ⟨w₁, y, w₂, hw, hFirst, hSteps⟩
    obtain ⟨u₁, u₂, rfl, rfl, rfl⟩ := List.map_eq_append_iff.mp hw
    obtain ⟨i, rfl, rfl⟩ := (hL u₁ y).mp hFirst
    obtain ⟨rest, rfl, rfl⟩ := (hL.steps hOp _ u₂ a).mp hSteps
    exact ⟨⟨i, rest⟩, rfl, rfl⟩
  · rintro ⟨c, rfl, rfl⟩
    refine ⟨_, _, _, List.map_append, (hL _ _).mpr ⟨c.first, rfl, rfl⟩, ?_⟩
    exact (hL.steps hOp _ _ _).mpr ⟨c.rest, rfl, rfl⟩

/-- Operators that `g` respects may be applied before it. -/
theorem Spells.chain_hom {precise : ι → β} {applyPrecise : ω → β → β → β} (g : β → α)
    (hL : L.Spells f text fun i => g (precise i)) (hOp : Symbols choose f symbol apply)
    (hApply : ∀ o x y, apply o (g x) (g y) = g (applyPrecise o x y)) :
    (L.chain choose).Spells f (Chain.text symbol text) fun c =>
      g (Chain.value applyPrecise precise c) := by
  have hValue := funext (Chain.value_hom g hApply precise)
  exact hValue ▸ hL.chain hOp

end Phrases

namespace Arithmetic

/-! ## Sums as data -/

/-- The byte of an ASCII character. -/
def byte (c : Char) : UInt8 := c.toNat.toUInt8

/-- At least one decimal digit, the first one first. -/
structure Numeral where
  digits : List (Fin 10)
  nonempty : digits ≠ []

def digitByte (d : Fin 10) : UInt8 := (48 + d.val).toUInt8

def Numeral.text (n : Numeral) : Bytes := n.digits.map digitByte

def Numeral.value (n : Numeral) : Int := (Nat.ofDigits 10 (n.digits.reverse.map Fin.val) : Nat)

abbrev Product := Chain Unit Numeral

def Product.text : Product → Bytes := Chain.text (fun _ => byte '*') Numeral.text

def Product.value : Product → Int := Chain.value (fun _ x y => x * y) Numeral.value

inductive Sign where
  | plus
  | minus

namespace Sign

def symbol : Sign → UInt8
  | plus => byte '+'
  | minus => byte '-'

def apply {α : Type} [Add α] [Sub α] : Sign → α → α → α
  | plus, x, y => x + y
  | minus, x, y => x - y

end Sign

abbrev Sum := Chain Sign Product

def Sum.text : Sum → Bytes := Chain.text Sign.symbol Product.text

def Sum.value : Sum → Int := Chain.value Sign.apply Product.value

/-! ## The parser -/

section

variable {m : Type → Type} [Computation m] {σ υ : Type} [Source σ Rune]

/-- Digits as a number in decimal. -/
def evaluate (digits : List Rune) : Int64 :=
  digits.foldl (fun n d => n * 10 + Int64.ofInt (d.code - 48)) 0

def number (rounds : Nat) : Parser m σ υ Int64 :=
  Parser.map evaluate (Parser.many1 rounds Parser.digit)

def operator (c : Char) (f : Int64 → Int64 → Int64) : Parser m σ υ (Int64 → Int64 → Int64) :=
  Parser.map (fun _ => f) (Parser.char (.ofChar c))

def term (rounds : Nat) : Parser m σ υ Int64 :=
  Parser.chainl1 rounds (number rounds) (operator '*' (· * ·))

def expr (rounds : Nat) : Parser m σ υ Int64 :=
  Parser.chainl1 rounds (term rounds)
    (Parser.orElse (operator '+' (· + ·)) (operator '-' (· - ·)))

/-- A sum that is the whole input. -/
def sentence (rounds : Nat) : Parser m σ υ Int64 := (expr rounds).skip Parser.eof

end

/-! ## Its languages -/

section

variable {υ : Type}

def selectDigit (r : Rune) : Option Rune := if r.isDigit then some r else none

def select (c : Char) (f : Int64 → Int64 → Int64) (r : Rune) : Option (Int64 → Int64 → Int64) :=
  if r = .ofChar c then some f else none

def selectSign (r : Rune) : Option (Int64 → Int64 → Int64) :=
  (select '+' (· + ·) r).or (select '-' (· - ·) r)

def numbers : Phrases Rune Int64 := (Phrases.run selectDigit).map evaluate

def terms : Phrases Rune Int64 := numbers.chain (select '*' (· * ·))

def sums : Phrases Rune Int64 := terms.chain selectSign

def AfterTerm : Option Rune → Prop :=
  Phrases.ChainNext (Phrases.Refused selectDigit) (select '*' (· * ·))

variable {σ : Type} [Source σ Rune]

theorem selects_operator (c : Char) (f : Int64 → Int64 → Int64) :
    Parser.Selects (select c f) (operator c f : Parser Plain σ υ _) := by
  have hChoose : select c f = fun r => (if decide (r = .ofChar c) = true then some r else none).map
      fun _ => f := by
    funext r
    by_cases hr : r = .ofChar c <;> simp [select, hr]
  rw [hChoose]
  exact ((Parser.Selects.satisfy _).label _).map _

theorem select_eq_some {c : Char} {f g : Int64 → Int64 → Int64} {r : Rune} :
    select c f r = some g ↔ r = .ofChar c ∧ g = f := by
  rw [select]
  split <;> simp_all [eq_comm]

theorem selectSign_eq_some {g : Int64 → Int64 → Int64} {r : Rune} :
    selectSign r = some g ↔ r = .ofChar '+' ∧ g = (· + ·) ∨ r = .ofChar '-' ∧ g = (· - ·) := by
  rw [selectSign, Option.or_eq_some_iff, select_eq_some, select_eq_some]
  constructor
  · rintro (h | ⟨-, h⟩)
    · exact .inl h
    · exact .inr h
  · rintro (h | ⟨rfl, h⟩)
    · exact .inl h
    · exact .inr ⟨rfl, rfl, h⟩

theorem number_decides {n rounds : Nat} (hRounds : n < rounds) :
    Parser.Decides numbers (Phrases.Refused selectDigit) n (number rounds : Parser Plain σ υ _) :=
  (((Parser.Selects.satisfy Rune.isDigit).label _).many1 hRounds).map evaluate

theorem term_decides {n rounds : Nat} (hRounds : n < rounds) :
    Parser.Decides terms AfterTerm n (term rounds : Parser Plain σ υ _) := by
  refine Parser.Decides.chainl1 ?_ (number_decides hRounds) (selects_operator '*' _) hRounds
  intro r f hr
  obtain ⟨rfl, -⟩ := select_eq_some.mp hr
  rintro _ ⟨⟩
  rfl

theorem expr_decides {n rounds : Nat} (hRounds : n < rounds) :
    Parser.Decides sums (Phrases.ChainNext AfterTerm selectSign) n
      (expr rounds : Parser Plain σ υ _) := by
  refine Parser.Decides.chainl1 ?_ (term_decides hRounds)
    ((selects_operator '+' _).orElse (selects_operator '-' _)) hRounds
  intro r f hr
  rcases selectSign_eq_some.mp hr with ⟨rfl, -⟩ | ⟨rfl, -⟩
  · constructor <;> (rintro _ ⟨⟩; rfl)
  · constructor <;> (rintro _ ⟨⟩; rfl)

end

/-! ## The languages in bytes -/

/-- What a byte of ASCII reads as. -/
def rune (b : UInt8) : Rune := ⟨b.toNat⟩

theorem symbols_digit :
    Phrases.Symbols selectDigit rune digitByte fun d => rune (digitByte d) := by
  have hDigit (b : UInt8) : (rune b).isDigit = true ↔ ∃ d, b = digitByte d := by
    have hTable : ∀ n : Fin 256,
        (rune (.ofFin n)).isDigit = true ↔ ∃ d, UInt8.ofFin n = digitByte d := by
      decide +kernel
    exact hTable b.toFin
  intro b r
  rw [selectDigit, Option.ite_none_right_eq_some, hDigit, Option.some_inj]
  constructor
  · rintro ⟨⟨d, rfl⟩, rfl⟩
    exact ⟨d, rfl, rfl⟩
  · rintro ⟨d, rfl, rfl⟩
    exact ⟨⟨d, rfl⟩, rfl⟩

theorem evaluate_digits (ds : List (Fin 10)) :
    evaluate (ds.map fun d => rune (digitByte d)) =
      Int64.ofInt (Nat.ofDigits 10 (ds.reverse.map Fin.val) : Nat) := by
  -- The last digit is the outermost step of the fold and the lowest place of the number.
  induction ds using List.reverseRecOn with
  | nil => rfl
  | append_singleton ds d ih =>
    have hDigit : (rune (digitByte d)).code - 48 = d.val := by
      revert d
      decide
    have hLeft : evaluate ((ds ++ [d]).map fun d => rune (digitByte d)) =
        evaluate (ds.map fun d => rune (digitByte d)) * 10 + Int64.ofInt d.val := by
      rw [evaluate, List.map_append, List.foldl_append, ← hDigit]
      rfl
    have hRight : Nat.ofDigits 10 ((ds ++ [d]).reverse.map Fin.val) =
        d.val + 10 * Nat.ofDigits 10 (ds.reverse.map Fin.val) := by
      rw [List.reverse_concat, List.map_cons, Nat.ofDigits_cons]
    rw [hLeft, hRight, ih, Nat.add_comm, Nat.mul_comm, Int.natCast_add, Int.natCast_mul,
      Int64.ofInt_add, Int64.ofInt_mul]
    rfl

theorem numbers_spells :
    numbers.Spells rune Numeral.text fun n => Int64.ofInt n.value := by
  intro w a
  constructor
  · rintro ⟨digits, hRun, rfl⟩
    obtain ⟨ds, hNonempty, rfl, rfl⟩ := (symbols_digit.run w digits).mp hRun
    exact ⟨⟨ds, hNonempty⟩, rfl, evaluate_digits ds⟩
  · rintro ⟨n, rfl, rfl⟩
    have hRun := (symbols_digit.run n.text _).mpr ⟨n.digits, n.nonempty, rfl, rfl⟩
    exact ⟨_, hRun, evaluate_digits n.digits⟩

theorem rune_eq_ofChar {b : UInt8} {c : Char} (hc : c.toNat < 256) :
    rune b = .ofChar c ↔ b = byte c := by
  have hByte : (byte c).toNat = c.toNat := Nat.mod_eq_of_lt hc
  rw [rune, Rune.ofChar, Rune.mk.injEq, Int.natCast_inj, ← hByte, UInt8.toNat_inj]

theorem terms_spells : terms.Spells rune Product.text fun t => Int64.ofInt t.value := by
  have hSymbols : Phrases.Symbols (select '*' (· * ·)) rune (fun _ : Unit => byte '*')
      fun _ => (· * ·) := by
    intro b f
    rw [select_eq_some, rune_eq_ofChar (by decide)]
    exact ⟨fun h => ⟨(), h⟩, fun ⟨_, h⟩ => h⟩
  exact numbers_spells.chain_hom Int64.ofInt hSymbols fun _ x y => (Int64.ofInt_mul x y).symm

theorem symbols_sign : Phrases.Symbols selectSign rune Sign.symbol Sign.apply := by
  intro b f
  rw [selectSign_eq_some, rune_eq_ofChar (by decide), rune_eq_ofChar (by decide)]
  constructor
  · rintro (⟨rfl, rfl⟩ | ⟨rfl, rfl⟩)
    · exact ⟨.plus, rfl, rfl⟩
    · exact ⟨.minus, rfl, rfl⟩
  · rintro ⟨_ | _, rfl, rfl⟩
    · exact .inl ⟨rfl, rfl⟩
    · exact .inr ⟨rfl, rfl⟩

theorem sums_spells : sums.Spells rune Sum.text fun e => Int64.ofInt e.value := by
  refine terms_spells.chain_hom Int64.ofInt symbols_sign ?_
  intro sign x y
  cases sign with
  | plus => exact (Int64.ofInt_add x y).symm
  | minus => exact (Int64.ofInt_sub x y).symm

variable {υ : Type}

/-- From a text of ASCII the parser takes the sums, and nothing else. -/
theorem sentence_evaluates (name src : Bytes) (user : υ) (hAscii : ∀ b ∈ src, b < 0x80)
    {rounds : Nat} (hRounds : src.length < rounds) :
    (∀ e : Sum, src = e.text → ∃ cursor h, cursor.rest = [] ∧
      (sentence rounds).observe ⟨Text.ofBytes name src, user⟩ =
        (.ok ⟨true, .ok (Int64.ofInt e.value) ⟨cursor, user⟩ h⟩ : Plain _)) ∧
    ((∀ e : Sum, src ≠ e.text) → ∃ consumed h,
      (sentence rounds).observe ⟨Text.ofBytes name src, user⟩ =
        (.ok ⟨consumed, .error h⟩ : Plain _)) := by
  set s : State Text υ := ⟨Text.ofBytes name src, user⟩
  have hRunes : remaining s.input = src.map rune :=
    (Text.remaining_eq_runes _).trans (Utf8.runes_of_lt hAscii)
  have hLength : (remaining s.input).length ≤ src.length := by rw [hRunes, List.length_map]
  have hSums (a : Int64) : sums (remaining s.input) a ↔
      ∃ e : Sum, src = e.text ∧ a = Int64.ofInt e.value := hRunes ▸ sums_spells src a
  have hEnd : Phrases.ChainNext AfterTerm selectSign none := ⟨⟨nofun, nofun⟩, nofun⟩
  rcases (expr_decides hRounds).skip_eof hEnd hLength with
    ⟨a, h, hView, hSentence, hOnly⟩ | ⟨consumed, h, hView, hNone⟩
  · constructor
    · intro e he
      obtain rfl := hOnly _ ((hSums _).mpr ⟨e, he, rfl⟩)
      exact ⟨final s.input, h, Text.rest_of_end (next?_final s.input), hView⟩
    · intro hNone
      obtain ⟨e, he, -⟩ := (hSums a).mp hSentence
      exact absurd he (hNone e)
  · constructor
    · intro e he
      exact absurd ((hSums _).mpr ⟨e, he, rfl⟩) (hNone _)
    · intro _
      exact ⟨consumed, h, hView⟩

/-- The sum `9223372036854775807-1+2*3`. -/
def overflowing : Sum where
  first := ⟨⟨[9, 2, 2, 3, 3, 7, 2, 0, 3, 6, 8, 5, 4, 7, 7, 5, 8, 0, 7], by decide⟩, []⟩
  rest := [(.minus, ⟨⟨[1], by decide⟩, []⟩), (.plus, ⟨⟨[2], by decide⟩, [((), ⟨[3], by decide⟩)]⟩)]

theorem sentence_evaluates_overflow :
    (∀ b ∈ utf8 "9223372036854775807-1+2*3", b < 0x80) ∧
      (utf8 "9223372036854775807-1+2*3").length < 26 ∧
      ∃ cursor h, cursor.rest = [] ∧
        (sentence 26).observe ⟨Text.ofBytes [] (utf8 "9223372036854775807-1+2*3"), ()⟩ =
          (.ok ⟨true, .ok (-9223372036854775804) ⟨cursor, ()⟩ h⟩ : Plain _) := by
  have hValue : Int64.ofInt overflowing.value = -9223372036854775804 := by decide +kernel
  have hAscii : ∀ b ∈ utf8 "9223372036854775807-1+2*3", b < 0x80 := by decide +kernel
  refine ⟨hAscii, by decide, ?_⟩
  rw [← hValue]
  exact (sentence_evaluates [] _ () hAscii (by decide)).1 overflowing (by decide)

end Arithmetic

end Descent
