import Mathlib.Algebra.Order.Floor.Semifield
import Mathlib.Data.Int.ModEq
import Mathlib.Data.Rat.Floor
import MixedModules.Coercion
import MixedModules.Proofs.Number.Exactness

/-! The wrap of a double to 32 bits.

The wrap cuts the number down to a whole one, takes the remainder by `2 ^ 32`, adds `2 ^ 32` to a
negative one, and casts the result twice. Each of these steps gives a double, and none of them
rounds: whatever number of whole value the one before it gives, the next holds its own. So the wrap
is the remainder of exact integers, for all patterns. -/
namespace MixedModules.Number

open Format (double)

/-! ## The number of a pattern -/

/-- The number of a sign and a magnitude. -/
def signed (negative : Bool) (magnitude : ℚ) : ℚ := if negative then -magnitude else magnitude

/-- The whole number next to a number on the side of zero, or the number itself. -/
def towardZero (q : ℚ) : ℤ := if q < 0 then ⌈q⌉ else ⌊q⌋

namespace Double

variable {x y : Double} {negative other : Bool} {v q : ℚ} {k m n : ℕ} {g : ℤ}

/-- The number that the 64 bits stand for, read from the sign bit, the 11 bits of the exponent and
the 52 bits of the fraction. Infinities and what is no number have none. -/
def number? (x : Double) : Option ℚ :=
  let bits := x.bits.toBitVec
  let exponent := (bits.extractLsb' 52 11).toNat
  let fraction := (bits.extractLsb' 0 52).toNat
  if exponent = 2047 then none
  else if exponent = 0 then some (signed bits.msb (fraction * 2 ^ (-1074 : ℤ)))
  else some (signed bits.msb ((2 ^ 52 + fraction) * 2 ^ ((exponent : ℤ) - 1075)))

/-- The number of the bits is the number of the datum that is read from them. -/
theorem number?_eq (x : Double) : x.number? = match x.datum with
    | .finite negative k g => some (signed negative (k * 2 ^ g))
    | _ => none := by
  have sign : x.bits.toBitVec.msb = (x.bits.toNat / 2 ^ 63 % 2 == 1) := by
    have bound : x.bits.toNat < 2 ^ 64 := x.bits.toNat_lt
    rw [BitVec.msb_eq_decide, UInt64.toNat_toBitVec, Bool.eq_iff_iff, decide_eq_true_eq, beq_iff_eq]
    omega
  have exponent : (x.bits.toBitVec.extractLsb' 52 11).toNat = x.bits.toNat / 2 ^ 52 % 2 ^ 11 := by
    rw [BitVec.extractLsb'_toNat, UInt64.toNat_toBitVec, Nat.shiftRight_eq_div_pow]
  have fraction : (x.bits.toBitVec.extractLsb' 0 52).toNat = x.bits.toNat % 2 ^ 52 := by
    rw [BitVec.extractLsb'_toNat, UInt64.toNat_toBitVec, Nat.shiftRight_zero]
  set field := x.bits.toNat / 2 ^ 52 % 2 ^ 11
  set part := x.bits.toNat % 2 ^ 52
  set negative := x.bits.toNat / 2 ^ 63 % 2 == 1
  have read : x.datum =
      if field = 2047 then if part = 0 then .infinite negative else .nan
      else if field = 0 then .finite negative part (-1074)
      else .finite negative (2 ^ 52 + part) (-1074 + (field - 1 : ℕ)) := rfl
  rw [number?, sign, exponent, fraction, read]
  by_cases full : field = 2047
  · by_cases whole : part = 0 <;> simp [full, whole]
  simp only [if_neg full]
  by_cases none : field = 0
  · simp only [if_pos none]
  · have shift : (-1074 : ℤ) + (field - 1 : ℕ) = field - 1075 := by omega
    simp only [if_neg none, shift]
    push_cast
    rfl

/-! ## Steps of the wrap -/

theorem floor_eq (k : ℕ) (g : ℤ) : Datum.floor k g = ⌊(k * 2 ^ g : ℚ)⌋₊ := by
  rw [Datum.floor, ← Format.scaled_ratio k g, Nat.floor_div_eq_div]

/-- Doubles hold the whole part of what they hold. -/
theorem holds_floor (holds : double.Holds v) : double.Holds (⌊v⌋₊ : ℚ) := by
  obtain ⟨k, e, mantissa, least, most, rfl⟩ := holds
  rcases le_or_gt 0 e with whole | part
  · obtain ⟨shift, rfl⟩ := Int.eq_ofNat_of_zero_le whole
    have same : (k : ℚ) * 2 ^ (shift : ℤ) = (k * 2 ^ shift : ℕ) := by push_cast; simp
    rw [same, Nat.floor_natCast, ← same]
    exact ⟨k, shift, mantissa, least, most, rfl⟩
  · apply holds_natCast
    refine lt_of_le_of_lt (Nat.floor_le_of_le ?_) mantissa
    exact mul_le_of_le_one_right (Nat.cast_nonneg k) (zpow_le_one_of_nonpos₀ (by norm_num) part.le)

theorem stands_whole (stands : x.Stands negative v) : x.whole.Stands negative (⌊v⌋₊ : ℚ) := by
  have holds := holds_floor stands.holds
  obtain ⟨k, g, held, rfl⟩ := stands
  have unscaled : ((Datum.floor k g : ℕ) : ℚ) * 2 ^ (0 : ℤ) = (⌊(k * 2 ^ g : ℚ)⌋₊ : ℚ) := by
    rw [floor_eq, zpow_zero, mul_one]
  rw [← unscaled] at holds ⊢
  rw [whole, held]
  exact stands_ofDatum negative holds

/-- On any grid that both numbers lie on, mantissas leave the same remainder as the numbers. -/
theorem mod_scaled {a b : ℕ} {unit : ℚ} (positive : 0 < unit) (first : (a : ℚ) * unit = n)
    (second : (b : ℚ) * unit = m) : ((a % b : ℕ) : ℚ) * unit = (n % m : ℕ) := by
  have quotient : n / m = a / b := by
    rw [← Nat.floor_div_eq_div (K := ℚ) n m, ← Nat.floor_div_eq_div (K := ℚ) a b, ← first, ← second,
      mul_div_mul_right _ _ positive.ne']
  have parts : ((n % m : ℕ) : ℚ) = n - m * (n / m : ℕ) := by
    rw [eq_sub_iff_add_eq]
    exact_mod_cast Nat.mod_add_div n m
  have scaled : ((a % b : ℕ) : ℚ) = a - b * (a / b : ℕ) := by
    rw [eq_sub_iff_add_eq]
    exact_mod_cast Nat.mod_add_div a b
  rw [parts, scaled, quotient, ← first, ← second]
  ring

/-- A mantissa on a lower grid. -/
theorem lowered (k : ℕ) {g low : ℤ} (below : low ≤ g) :
    ((k * Nat.pow 2 (g - low).toNat : ℕ) : ℚ) * 2 ^ low = k * 2 ^ g := by
  obtain ⟨shift, rfl⟩ := Int.le.dest below
  rw [add_sub_cancel_left, Int.toNat_natCast, zpow_add₀ two_ne_zero, zpow_natCast, Nat.pow_eq]
  push_cast
  ring

theorem stands_remainder (first : x.Stands negative n) (second : y.Stands other m) (hm : 0 < m)
    (small : m ≤ 2 ^ 53) : (x.remainder y).Stands negative (n % m : ℕ) := by
  obtain ⟨a, e, heldFirst, number⟩ := first
  obtain ⟨b, d, heldSecond, divisor⟩ := second
  have unit : (0 : ℚ) < 2 ^ min e d := by positivity
  have left := mod_scaled unit ((lowered a (min_le_left e d)).trans number)
    ((lowered b (min_le_right e d)).trans divisor)
  have nonzero : b * Nat.pow 2 (d - min e d).toNat ≠ 0 := by
    intro zero
    have none : (m : ℚ) = 0 := by
      rw [← divisor, ← lowered b (min_le_right e d), zero, Nat.cast_zero, zero_mul]
    exact hm.ne' (by exact_mod_cast none)
  have holds : double.Holds ((n % m : ℕ) : ℚ) :=
    holds_natCast ((Nat.mod_lt n hm).trans_le small)
  rw [← left] at holds ⊢
  rw [remainder, heldFirst, heldSecond]
  simp only [Datum.remainder, nonzero, if_false]
  exact stands_ofDatum negative holds

theorem stands_abs (stands : x.Stands negative v) : x.abs.Stands false v := by
  have holds := stands.holds
  obtain ⟨k, g, held, rfl⟩ := stands
  rw [Double.abs, held]
  exact stands_ofDatum false holds

/-- A number is taken away from a larger one without rounding, if the difference is held. -/
theorem stands_add {a b : ℚ} (first : x.Stands true a) (second : y.Stands false b) (less : a < b)
    (holds : double.Holds (b - a)) : (x + y).Stands false (b - a) := by
  obtain ⟨k, e, heldFirst, rfl⟩ := first
  obtain ⟨l, d, heldSecond, rfl⟩ := second
  have unit : (0 : ℚ) < 2 ^ min e d := by positivity
  set sum : ℤ := Datum.scaled true k (e - min e d).toNat + Datum.scaled false l (d - min e d).toNat
    with added
  -- On the lower of the two grids both numbers are integers, and nothing is lost.
  have exact : (sum : ℚ) * 2 ^ min e d = l * 2 ^ d - k * 2 ^ e := by
    rw [← lowered k (min_le_left e d), ← lowered l (min_le_right e d), added]
    simp only [Datum.scaled, if_true, Bool.false_eq_true, if_false]
    push_cast
    ring
  have positive : 0 < sum := by
    have : (0 : ℚ) < sum := pos_of_mul_pos_left (by rw [exact]; exact sub_pos.mpr less) unit.le
    exact_mod_cast this
  have magnitude : ((sum.natAbs : ℕ) : ℚ) * 2 ^ min e d = l * 2 ^ d - k * 2 ^ e := by
    rw [← exact, Nat.cast_natAbs, abs_of_pos positive]
  rw [← magnitude] at holds ⊢
  change (ofDatum (x.datum.add y.datum)).Stands _ _
  rw [heldFirst, heldSecond]
  simp only [Datum.add, ← added, positive.ne', if_false, decide_eq_false positive.not_gt]
  exact stands_ofDatum false holds

theorem isBelowZero_iff (stands : x.Stands negative v) :
    x.datum.isBelowZero = true ↔ negative = true ∧ v ≠ 0 := by
  obtain ⟨k, g, held, rfl⟩ := stands
  have unit : (2 : ℚ) ^ g ≠ 0 := by positivity
  simp [held, Datum.isBelowZero, unit]

/-- What a negative number leaves is what its magnitude leaves short of the divisor. -/
theorem neg_emod (hm : 0 < m) (rest : n % m ≠ 0) : (-(n : ℤ)) % m = (m - n % m : ℕ) := by
  have below := Nat.mod_lt n hm
  have parts : (m : ℤ) * (n / m : ℕ) + (n % m : ℕ) = n := by exact_mod_cast Nat.div_add_mod n m
  have apart : -(n : ℤ) = (m - n % m : ℕ) + m * (-(n / m : ℕ) - 1) := by
    rw [Nat.cast_sub below.le, ← parts]
    ring
  rw [apart, Int.add_mul_emod_self_left]
  exact Int.emod_eq_of_lt (by omega) (by omega)

/-- The remainder that is never below zero is that of exact integers, and zero if it has a sign. -/
theorem stands_modulo (first : x.Stands negative n) (second : y.Stands false m) (hm : 0 < m)
    (small : m ≤ 2 ^ 53) : ∃ (sign : Bool) (rest : ℕ), (x.modulo y).Stands sign rest ∧
      (sign = true → rest = 0) ∧ (rest : ℤ) = (if negative then -(n : ℤ) else n) % m := by
  have remains := stands_remainder first second hm small
  have below := Nat.mod_lt n hm
  have under := isBelowZero_iff remains
  rw [Nat.cast_ne_zero] at under
  rw [modulo]
  -- The divisor is added to a negative remainder only, and the negative zero is none.
  by_cases left : negative = true ∧ n % m ≠ 0
  · obtain ⟨rfl, rest⟩ := left
    have short : ((m - n % m : ℕ) : ℚ) = m - (n % m : ℕ) := Nat.cast_sub below.le
    have holds : double.Holds ((m : ℚ) - (n % m : ℕ)) := by
      rw [← short]
      exact holds_natCast (by omega)
    rw [if_pos (under.mpr ⟨rfl, rest⟩)]
    refine ⟨false, m - n % m, ?_, by simp, (neg_emod hm rest).symm⟩
    rw [short]
    exact stands_add remains (stands_abs second) (by exact_mod_cast below) holds
  · rw [if_neg (under.not.mpr left)]
    refine ⟨negative, n % m, remains, fun sign => by_contra fun rest => left ⟨sign, rest⟩, ?_⟩
    cases negative with
    | false => exact Int.natCast_mod n m
    | true =>
      have none : n % m = 0 := by_contra fun rest => left ⟨rfl, rest⟩
      have divides : (m : ℤ) ∣ n := by exact_mod_cast Nat.dvd_of_mod_eq_zero none
      rw [none, if_pos rfl, Int.emod_eq_zero_of_dvd (dvd_neg.mpr divides), Nat.cast_zero]

theorem toNat_toUInt32 {sign : Bool} (stands : x.Stands sign n) (small : n < 2 ^ 32)
    (zero : sign = true → n = 0) : x.toUInt32.toNat = n := by
  obtain ⟨k, g, held, exact⟩ := stands
  have whole : Datum.floor k g = n := by rw [floor_eq, exact, Nat.floor_natCast]
  simp only [toUInt32, held, whole]
  cases sign with
  | true => rw [zero rfl]; rfl
  | false =>
    have bound : n < UInt32.size := small
    rw [if_neg (by decide), min_eq_left (by omega), UInt32.toNat_ofNat_of_lt' bound]

theorem stands_wordCount : wordCount.Stands false (2 ^ 32 : ℕ) :=
  stands_ofInt (n := (UInt32.size : ℕ)) (by decide)

/-- The wrap of a number is its whole part modulo `2 ^ 32`, in the range of signed words. -/
theorem toInt_toInt32 (stands : x.Stands negative v) : x.toInt32.toInt =
    (if negative then -(⌊v⌋₊ : ℤ) else ⌊v⌋₊).bmod (2 ^ 32) := by
  obtain ⟨sign, rest, modulo, zero, exact⟩ :=
    stands_modulo (stands_whole stands) stands_wordCount (by decide) (by decide)
  have small : rest < 2 ^ 32 := by
    have := Int.emod_lt_of_pos (if negative then -(⌊v⌋₊ : ℤ) else ⌊v⌋₊)
      (b := (2 ^ 32 : ℕ)) (by decide)
    omega
  rw [toInt32, if_pos stands.isFinite]
  calc ((x.whole.modulo wordCount).toUInt32.toInt32).toInt
      = ((x.whole.modulo wordCount).toUInt32.toNat : ℤ).bmod (2 ^ 32) :=
        BitVec.toInt_eq_toNat_bmod _
    _ = ((if negative then -(⌊v⌋₊ : ℤ) else ⌊v⌋₊) % (2 ^ 32 : ℕ)).bmod (2 ^ 32) := by
      rw [toNat_toUInt32 modulo small zero, exact]
    _ = (if negative then -(⌊v⌋₊ : ℤ) else ⌊v⌋₊).bmod (2 ^ 32) := Int.emod_bmod ..

/-- What is no finite number wraps to zero. -/
theorem toInt32_of_number?_eq_none (none : x.number? = .none) : x.toInt32 = 0 := by
  rw [number?_eq] at none
  rw [toInt32, isFinite]
  cases held : x.datum with
  | finite negative k g =>
    rw [held] at none
    cases none
  | nan => rfl
  | infinite negative => rfl

theorem towardZero_signed (negative : Bool) (nonneg : 0 ≤ v) :
    towardZero (signed negative v) = if negative then -(⌊v⌋₊ : ℤ) else ⌊v⌋₊ := by
  rw [Int.natCast_floor_eq_floor nonneg]
  cases negative with
  | false => rw [signed, if_neg (by decide), towardZero, if_neg nonneg.not_gt, if_neg (by decide)]
  | true =>
    rw [signed, if_pos rfl, if_pos rfl, towardZero]
    split
    · exact Int.ceil_neg
    · next zero =>
      have none : v = 0 := by linarith
      simp [none]

/-- The wrap of a number, as the number is read from the bits. -/
theorem toInt_toInt32_of_number? (some : x.number? = .some q) :
    x.toInt32.toInt = (towardZero q).bmod (2 ^ 32) := by
  rw [number?_eq] at some
  cases held : x.datum with
  | finite negative k g =>
    rw [held] at some
    cases some
    rw [towardZero_signed negative (by positivity)]
    exact toInt_toInt32 ⟨k, g, held, rfl⟩
  | nan =>
    rw [held] at some
    cases some
  | infinite negative =>
    rw [held] at some
    cases some

/-- The wrap is the one signed 32-bit integer that is congruent to the whole part. -/
theorem eq_toInt32_iff (some : x.number? = .some q) (n : ℤ) : n = x.toInt32.toInt ↔
    -2 ^ 31 ≤ n ∧ n < 2 ^ 31 ∧ n ≡ towardZero q [ZMOD 2 ^ 32] := by
  have congruent : n ≡ towardZero q [ZMOD 2 ^ 32] ↔ (2 ^ 32 : ℤ) ∣ n - towardZero q :=
    ⟨fun same => same.symm.dvd, fun divides => (Int.modEq_of_dvd divides).symm⟩
  rw [toInt_toInt32_of_number? some, eq_comm, Int.bmod_eq_iff (by decide), congruent]
  norm_num

/-- The double of a 32-bit integer wraps to the integer. -/
theorem toInt32_ofInt (v : Int32) : (ofInt v.toInt).toInt32 = v := by
  have low := v.le_toInt
  have high := v.toInt_lt
  apply Int32.toInt_inj.mp
  have same : (if decide (v.toInt < 0) then -(v.toInt.natAbs : ℤ) else v.toInt.natAbs) =
      v.toInt := by
    by_cases below : v.toInt < 0
    · rw [if_pos (decide_eq_true below)]
      omega
    · rw [if_neg (by simpa using below)]
      omega
  rw [toInt_toInt32 (stands_ofInt (by omega)), Nat.floor_natCast, same]
  exact Int.bmod_eq_of_le (by omega) (by omega)

end Double
end MixedModules.Number
