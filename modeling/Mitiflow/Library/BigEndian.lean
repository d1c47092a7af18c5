import Mathlib

namespace Mitiflow.Library

/-!
# Big-endian byte strings

Fixed-width numbers written most significant byte first, so that the order of
the byte strings is the order of the numbers.  Reading the bytes back gives
the number modulo the width; within the width the encoding is injective.
-/

/-- Bytes are ordered as numbers. -/
instance instLinearOrderByte : LinearOrder UInt8 where
  le_refl := UInt8.le_refl
  le_trans := fun _ _ _ => UInt8.le_trans
  le_antisymm := fun _ _ => UInt8.le_antisymm
  le_total := UInt8.le_total
  lt_iff_le_not_ge := fun first second => by
    rw [UInt8.lt_iff_toNat_lt, UInt8.le_iff_toNat_le, UInt8.le_iff_toNat_le]
    exact lt_iff_le_not_ge
  toDecidableLE := inferInstance

/-- The low `width` bytes of a number, most significant first. -/
def bigEndian (width value : Nat) : List UInt8 :=
  (List.range width).reverse.map
    (fun position => UInt8.ofNat (value / 256 ^ position))

/-- The number some bytes denote. -/
def fromBigEndian (bytes : List UInt8) : Nat :=
  bytes.foldl (fun value byte => value * 256 + byte.toNat) 0

@[simp]
theorem length_bigEndian (width value : Nat) :
    (bigEndian width value).length = width := by
  simp [bigEndian]

theorem bigEndian_succ (width value : Nat) :
    bigEndian (width + 1) value =
      UInt8.ofNat (value / 256 ^ width) :: bigEndian width value := by
  simp [bigEndian, List.range_succ]

theorem foldl_bigEndian (width value start : Nat) :
    (bigEndian width value).foldl
        (fun value byte => value * 256 + byte.toNat) start =
      start * 256 ^ width + value % 256 ^ width := by
  induction width generalizing start with
  | zero =>
    simp [bigEndian, Nat.mod_one]
  | succ width inductionHypothesis =>
    have topByte :
        (UInt8.ofNat (value / 256 ^ width)).toNat =
          value / 256 ^ width % 256 := by
      simp
    rw [bigEndian_succ, List.foldl_cons, inductionHypothesis, topByte,
      Nat.mod_pow_succ, Nat.pow_succ]
    ring

/-- Reading an encoded number keeps its low bytes. -/
theorem fromBigEndian_bigEndian (width value : Nat) :
    fromBigEndian (bigEndian width value) = value % 256 ^ width := by
  rw [fromBigEndian, foldl_bigEndian, Nat.zero_mul, Nat.zero_add]

variable {width bound : Nat}

theorem fromBigEndian_of_lt
    {value : Nat}
    (fits : value < 256 ^ width) :
    fromBigEndian (bigEndian width value) = value := by
  rw [fromBigEndian_bigEndian, Nat.mod_eq_of_lt fits]

theorem ofNat_fromBigEndian [NeZero bound]
    (wide : bound ≤ 256 ^ width)
    (value : Fin bound) :
    Fin.ofNat bound (fromBigEndian (bigEndian width value.val)) = value := by
  rw [fromBigEndian_of_lt (value.isLt.trans_le wide)]
  exact Fin.ext (Nat.mod_eq_of_lt value.isLt)

theorem bigEndian_inj [NeZero bound]
    (wide : bound ≤ 256 ^ width)
    {first second : Fin bound}
    (same : bigEndian width first.val = bigEndian width second.val) :
    first = second := by
  rw [← ofNat_fromBigEndian wide first, same, ofNat_fromBigEndian wide second]

/-! ## Order -/

/-- Strings of parts of equal length are compared part by part. -/
theorem append_lt_append_iff
    {first second rest otherRest : List UInt8}
    (sameLength : first.length = second.length) :
    first ++ rest < second ++ otherRest ↔
      first < second ∨ first = second ∧ rest < otherRest := by
  induction first generalizing second with
  | nil =>
    rw [List.eq_nil_of_length_eq_zero sameLength.symm]
    simp
  | cons byte bytes inductionHypothesis =>
    cases second with
    | nil =>
      cases sameLength
    | cons otherByte otherBytes =>
      have sameTail : bytes.length = otherBytes.length :=
        Nat.succ.inj sameLength
      simp only [List.cons_append, List.cons_lt_cons_iff,
        inductionHypothesis sameTail, List.cons.injEq]
      tauto

/-- Numbers are compared by their leading digit and then by the rest. -/
theorem mod_pow_succ_lt_iff (width first second : Nat) :
    first % 256 ^ (width + 1) < second % 256 ^ (width + 1) ↔
      first / 256 ^ width % 256 < second / 256 ^ width % 256 ∨
        first / 256 ^ width % 256 = second / 256 ^ width % 256 ∧
          first % 256 ^ width < second % 256 ^ width := by
  rw [Nat.mod_pow_succ, Nat.mod_pow_succ]
  rcases lt_trichotomy (first / 256 ^ width % 256)
      (second / 256 ^ width % 256) with below | same | above
  · have scaled := Nat.mul_le_mul_left (256 ^ width) below
    rw [Nat.mul_succ] at scaled
    simp only [below, true_or, iff_true]
    omega
  · simp [same]
  · have scaled := Nat.mul_le_mul_left (256 ^ width) above
    rw [Nat.mul_succ] at scaled
    simp only [above.not_gt, above.ne', false_and, or_self, iff_false]
    omega

theorem bigEndian_lt_bigEndian_iff (width first second : Nat) :
    bigEndian width first < bigEndian width second ↔
      first % 256 ^ width < second % 256 ^ width := by
  induction width with
  | zero =>
    simp [bigEndian, Nat.mod_one]
  | succ width inductionHypothesis =>
    rw [bigEndian_succ, bigEndian_succ, List.cons_lt_cons_iff,
      inductionHypothesis, mod_pow_succ_lt_iff, UInt8.lt_iff_toNat_lt,
      ← UInt8.toNat_inj]
    simp

theorem bigEndian_lt_iff
    (wide : bound ≤ 256 ^ width)
    (first second : Fin bound) :
    bigEndian width first.val < bigEndian width second.val ↔
      first < second := by
  rw [bigEndian_lt_bigEndian_iff,
    Nat.mod_eq_of_lt (first.isLt.trans_le wide),
    Nat.mod_eq_of_lt (second.isLt.trans_le wide), Fin.lt_def]

end Mitiflow.Library
