import Descent.Proofs.Source.Reading

/-! # Well-formed texts

What is read off a text is either a broken byte or a well-formed sequence, and a well-formed
sequence is exactly what its rune is written as. So a text without broken bytes is what its runes
are written as, and passing runes takes away the bytes that they are written as. The other way
round, scalar values read as they were written. -/

namespace Descent

namespace Utf8

theorem isTail_iff {b : Nat} : isTail b = true ↔ 0x80 ≤ b ∧ b ≤ 0xBF := by
  simp [isTail]

theorem startsTwo_iff {a b : Nat} :
    startsTwo a b = true ↔ 0xC2 ≤ a ∧ a ≤ 0xDF ∧ 0x80 ≤ b ∧ b ≤ 0xBF := by
  simp [startsTwo, isTail, and_assoc]

theorem startsThree_iff {a b : Nat} :
    startsThree a b = true ↔ 0xE0 ≤ a ∧ a ≤ 0xEF ∧ 0x80 ≤ b ∧ b ≤ 0xBF ∧
      (a = 0xE0 → 0xA0 ≤ b) ∧ (a = 0xED → b ≤ 0x9F) := by
  simp only [startsThree, Bool.and_eq_true, decide_eq_true_eq]
  split <;> split <;> omega

theorem startsFour_iff {a b : Nat} :
    startsFour a b = true ↔ 0xF0 ≤ a ∧ a ≤ 0xF4 ∧ 0x80 ≤ b ∧ b ≤ 0xBF ∧
      (a = 0xF0 → 0x90 ≤ b) ∧ (a = 0xF4 → b ≤ 0x8F) := by
  simp only [startsFour, Bool.and_eq_true, decide_eq_true_eq]
  split <;> split <;> omega

/-- The well-formed sequences, each with the scalar value that it stands for. -/
inductive Spells : Bytes → Nat → Prop where
  | one {a : UInt8} : a.toNat < 0x80 → Spells [a] a.toNat
  | two {a b : UInt8} : startsTwo a.toNat b.toNat = true →
      Spells [a, b] (a.toNat % 0x20 * 0x40 + low b)
  | three {a b c : UInt8} : startsThree a.toNat b.toNat = true → isTail c.toNat = true →
      Spells [a, b, c] (a.toNat % 0x10 * 0x1000 + low b * 0x40 + low c)
  | four {a b c d : UInt8} : startsFour a.toNat b.toNat = true → isTail c.toNat = true →
      isTail d.toNat = true →
      Spells [a, b, c, d] (a.toNat % 0x08 * 0x40000 + low b * 0x1000 + low c * 0x40 + low d)

theorem toUInt8_eq {n : Nat} {b : UInt8} (h : n = b.toNat) : n.toUInt8 = b := by
  rw [h]
  exact UInt8.ofNat_toNat

namespace Spells

variable {bytes : Bytes} {n : Nat}

theorem encodeScalar_eq (h : Spells bytes n) : Rune.encodeScalar n = bytes := by
  cases h with
  | one ha => rw [Rune.encodeScalar, if_pos ha, toUInt8_eq rfl]
  | @two a b h =>
    rw [startsTwo_iff] at h
    unfold low
    rw [Rune.encodeScalar, if_neg (by omega), if_pos (by omega), toUInt8_eq (b := a) (by omega),
      toUInt8_eq (b := b) (by omega)]
  | @three a b c h hc =>
    rw [startsThree_iff] at h
    rw [isTail_iff] at hc
    unfold low
    rw [Rune.encodeScalar, if_neg (by omega), if_neg (by omega), if_pos (by omega),
      toUInt8_eq (b := a) (by omega), toUInt8_eq (b := b) (by omega),
      toUInt8_eq (b := c) (by omega)]
  | @four a b c d h hc hd =>
    rw [startsFour_iff] at h
    rw [isTail_iff] at hc hd
    unfold low
    rw [Rune.encodeScalar, if_neg (by omega), if_neg (by omega), if_neg (by omega),
      toUInt8_eq (b := a) (by omega), toUInt8_eq (b := b) (by omega),
      toUInt8_eq (b := c) (by omega), toUInt8_eq (b := d) (by omega)]

theorem isScalar (h : Spells bytes n) : (⟨n⟩ : Rune).isScalar = true := by
  simp only [Rune.isScalar, Bool.or_eq_true, Bool.and_eq_true, decide_eq_true_eq]
  cases h with
  | one ha => omega
  | two h =>
    rw [startsTwo_iff] at h
    unfold low
    omega
  | three h hc =>
    rw [startsThree_iff] at h
    rw [isTail_iff] at hc
    unfold low
    omega
  | four h hc hd =>
    rw [startsFour_iff] at h
    rw [isTail_iff] at hc hd
    unfold low
    omega

theorem encode_eq (h : Spells bytes n) : (⟨n⟩ : Rune).encode = bytes := by
  rw [Rune.encode, Rune.orReplacement, if_pos h.isScalar]
  exact h.encodeScalar_eq

theorem runes_append (h : Spells bytes n) (rest : Bytes) :
    runes (bytes ++ rest) = ⟨n⟩ :: runes rest := by
  cases h with
  | @one a ha =>
    rw [List.cons_append, runes, readings_cons, read_of_lt (show a < 0x80 from ha)]
    rfl
  | @two a b h =>
    have hFirst := startsTwo_iff.mp h
    rw [List.cons_append, runes, readings_cons]
    simp only [List.cons_append, read, if_neg (show ¬ a.toNat < 0x80 by omega), h]
    simp [runes]
  | @three a b c h hc =>
    have hFirst := startsThree_iff.mp h
    have hTwo : startsTwo a.toNat b.toNat = false := by
      rw [Bool.eq_false_iff, ne_eq, startsTwo_iff]
      omega
    rw [List.cons_append, runes, readings_cons]
    simp only [List.cons_append, read, if_neg (show ¬ a.toNat < 0x80 by omega), hTwo, h, hc]
    simp [runes]
  | @four a b c d h hc hd =>
    have hFirst := startsFour_iff.mp h
    have hTwo : startsTwo a.toNat b.toNat = false := by
      rw [Bool.eq_false_iff, ne_eq, startsTwo_iff]
      omega
    have hThree : startsThree a.toNat b.toNat = false := by
      rw [Bool.eq_false_iff, ne_eq, startsThree_iff]
      omega
    rw [List.cons_append, runes, readings_cons]
    simp only [List.cons_append, read, if_neg (show ¬ a.toNat < 0x80 by omega), hTwo, hThree, h,
      hc, hd]
    simp [runes]

end Spells

theorem toNat_toUInt8 {n : Nat} (h : n < 256) : n.toUInt8.toNat = n := by
  rw [Nat.toUInt8_eq, UInt8.toNat_ofNat_of_lt' h]

theorem spells_encodeScalar {n : Nat} (h : (⟨n⟩ : Rune).isScalar = true) :
    Spells (Rune.encodeScalar n) n := by
  have hRange : n < 0xD800 ∨ 0xE000 ≤ n ∧ n ≤ 0x10FFFF := by
    simp only [Rune.isScalar, Bool.or_eq_true, Bool.and_eq_true, decide_eq_true_eq] at h
    omega
  unfold Rune.encodeScalar
  -- Each form begins where the one before it ends, so none is overlong.
  split
  · have hSpells := Spells.one (a := n.toUInt8)
    simp (disch := omega) only [toNat_toUInt8] at hSpells
    exact hSpells (by omega)
  · split
    · have hSpells := Spells.two (a := (0xC0 + n / 0x40).toUInt8) (b := (0x80 + n % 0x40).toUInt8)
      have hValue : (0xC0 + n / 0x40) % 0x20 * 0x40 + (0x80 + n % 0x40) % 0x40 = n := by omega
      simp (disch := omega) only [low, toNat_toUInt8, startsTwo_iff, hValue] at hSpells
      exact hSpells (by omega)
    · split
      · have hSpells := Spells.three (a := (0xE0 + n / 0x1000).toUInt8)
          (b := (0x80 + n / 0x40 % 0x40).toUInt8) (c := (0x80 + n % 0x40).toUInt8)
        have hValue : (0xE0 + n / 0x1000) % 0x10 * 0x1000 + (0x80 + n / 0x40 % 0x40) % 0x40 * 0x40 +
            (0x80 + n % 0x40) % 0x40 = n := by omega
        simp (disch := omega) only [low, toNat_toUInt8, startsThree_iff, isTail_iff, hValue]
          at hSpells
        exact hSpells (by omega) (by omega)
      · have hSpells := Spells.four (a := (0xF0 + n / 0x40000).toUInt8)
          (b := (0x80 + n / 0x1000 % 0x40).toUInt8) (c := (0x80 + n / 0x40 % 0x40).toUInt8)
          (d := (0x80 + n % 0x40).toUInt8)
        have hValue : (0xF0 + n / 0x40000) % 0x08 * 0x40000 +
            (0x80 + n / 0x1000 % 0x40) % 0x40 * 0x1000 + (0x80 + n / 0x40 % 0x40) % 0x40 * 0x40 +
            (0x80 + n % 0x40) % 0x40 = n := by omega
        simp (disch := omega) only [low, toNat_toUInt8, startsFour_iff, isTail_iff, hValue]
          at hSpells
        exact hSpells (by omega) (by omega) (by omega)

theorem runes_encode_append {r : Rune} (h : r.isScalar = true) (rest : Bytes) :
    runes (r.encode ++ rest) = r :: runes rest := by
  obtain ⟨n, rfl⟩ : ∃ n : Nat, r = ⟨n⟩ := by
    simp only [Rune.isScalar, Bool.or_eq_true, Bool.and_eq_true, decide_eq_true_eq] at h
    exact ⟨r.code.toNat, by rw [Int.toNat_of_nonneg (by omega)]⟩
  rw [Rune.encode, Rune.orReplacement, if_pos h]
  exact (spells_encodeScalar h).runes_append rest

/-- Scalar values read as they were written. -/
theorem runes_encode {x : List Rune} (h : ∀ r ∈ x, r.isScalar = true) :
    runes (x.flatMap Rune.encode) = x := by
  induction x with
  | nil => rfl
  | cons r x ih =>
    rw [List.forall_mem_cons] at h
    rw [List.flatMap_cons, runes_encode_append h.1, ih h.2]

/-- A reading is a broken byte or a well-formed sequence. -/
theorem read_isBroken_or_spells (head : UInt8) (rest : Bytes) :
    (read head rest).isBroken = true ∨ ∃ bytes n, Spells bytes n ∧ (read head rest).rune = ⟨n⟩ ∧
      head :: rest = bytes ++ (read head rest).rest := by
  fun_cases read head rest with
  | case1 rest a ha => exact .inr ⟨_, _, .one ha, rfl, rfl⟩
  | case3 a _ b rest h => exact .inr ⟨_, _, .two h, by simp [a], rfl⟩
  | case5 a _ b _ c rest h =>
    rw [Bool.and_eq_true] at h
    exact .inr ⟨_, _, .three h.1 h.2, by simp [a], rfl⟩
  | case7 a _ b _ c _ d rest h =>
    rw [Bool.and_eq_true, Bool.and_eq_true] at h
    exact .inr ⟨_, _, .four h.1.1 h.1.2 h.2, by simp [a], rfl⟩
  | case2 | case4 | case6 | case8 => exact .inl rfl

theorem encode_read {head : UInt8} {rest : Bytes} (h : (read head rest).isBroken = false) :
    head :: rest = (read head rest).rune.encode ++ (read head rest).rest := by
  rcases read_isBroken_or_spells head rest with hBroken | ⟨bytes, n, hSpells, hRune, hRest⟩
  · rw [h] at hBroken
    cases hBroken
  · rw [hRune, hSpells.encode_eq]
    exact hRest

theorem isValidFrom_eq (covered : Nat) (text : Bytes) :
    isValidFrom covered text = isValid (text.drop covered) := by
  induction covered generalizing text with
  | zero => rfl
  | succ covered ih =>
    cases text with
    | nil => rfl
    | cons b rest => exact ih rest

theorem isValid_cons (b : UInt8) (rest : Bytes) :
    isValid (b :: rest) = (!(read b rest).isBroken && isValid (read b rest).rest) := by
  have hRest : isValidFrom ((read b rest).width - 1) rest = isValid (read b rest).rest := by
    rw [isValidFrom_eq, ← rest_read_eq_drop]
  rw [isValid, isValidFrom, hRest]
  cases (read b rest).isBroken <;> rfl

end Utf8

open Source

namespace Text

theorem rest_eq_encoded {t t' : Text} {passed : List Rune} (h : Passes t passed t')
    (hValid : Utf8.isValid t.rest = true) :
    t.rest = passed.flatMap Rune.encode ++ t'.rest ∧ Utf8.isValid t'.rest = true := by
  induction h with
  | stay t => exact ⟨rfl, hValid⟩
  | move hNext _ ih =>
    obtain ⟨b, rest, hRest, hRune, hRest', -⟩ := next?_eq_some hNext
    rw [hRest, Utf8.isValid_cons, Bool.and_eq_true, Bool.not_eq_true'] at hValid
    rw [hRest'] at ih
    obtain ⟨hLater, hValid'⟩ := ih hValid.2
    refine ⟨?_, hValid'⟩
    rw [hRest, Utf8.encode_read hValid.1, hRune, List.flatMap_cons, List.append_assoc, ← hLater]

end Text

theorem Utf8.encode_runes {text : Bytes} (h : isValid text = true) :
    (runes text).flatMap Rune.encode = text := by
  have hPasses := passes_final (Text.ofBytes [] text)
  have hEncoded := (Text.rest_eq_encoded hPasses h).1
  rw [Text.remaining_eq_runes, Text.rest_of_end (next?_final _), List.append_nil] at hEncoded
  exact hEncoded.symm

/-- Passing the runes of one well-formed text in another takes away its bytes. -/
theorem Text.rest_eq_append {t t' : Text} {text : Bytes} (h : Passes t (Utf8.runes text) t')
    (hText : Utf8.isValid text = true) (hValid : Utf8.isValid t.rest = true) :
    t.rest = text ++ t'.rest := by
  have hEncoded := (rest_eq_encoded h hValid).1
  rwa [Utf8.encode_runes hText] at hEncoded

end Descent
