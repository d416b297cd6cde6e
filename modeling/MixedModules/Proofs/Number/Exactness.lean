import Mathlib.Algebra.Order.Field.Power
import Mathlib.Data.Rat.Floor
import Mathlib.Tactic.FieldSimp
import Mathlib.Tactic.Linarith
import MixedModules.Number.Double

/-! Numbers that a format holds.

A format holds a number if some mantissa on one of its grids is the number. Such a number is
written without rounding: reading the pattern gives it back, with its sign. What a pattern
stands for is held, if it is a number at all. -/
namespace MixedModules.Number

/-! ## Scales -/

namespace Format

variable {f : Format} {k num den : ℕ} {e g : ℤ} {v : ℚ} {negative : Bool}

theorem upScale_pos (e : ℤ) : 0 < upScale e := Nat.pow_pos (by decide)

/-- A power of two is the ratio of its two multipliers, one of which is one. -/
theorem upScale_ratio (e : ℤ) : (upScale e : ℚ) = 2 ^ e * upScale (-e) := by
  unfold upScale
  rcases e.eq_nat_or_neg with ⟨n, rfl | rfl⟩ <;> simp

/-- The ratio that is written for a mantissa with its power of two. -/
theorem scaled_ratio (k : ℕ) (e : ℤ) :
    ((k * upScale e : ℕ) : ℚ) / upScale (-e) = k * 2 ^ e := by
  have unit : (upScale (-e) : ℚ) ≠ 0 := by exact_mod_cast (upScale_pos (-e)).ne'
  rw [div_eq_iff unit, Nat.cast_mul, upScale_ratio e]
  ring

theorem roundedQuotient_mul (k : ℕ) (positive : 0 < den) : roundedQuotient (k * den) den = k := by
  simp [roundedQuotient, positive, Nat.mul_div_cancel k positive]

/-! ## Grids -/

theorem log2_bounds {n : ℕ} (positive : 0 < n) :
    (2 : ℚ) ^ (n.log2 : ℤ) ≤ n ∧ (n : ℚ) < 2 ^ ((n.log2 : ℤ) + 1) := by
  have low := Nat.log2_self_le positive.ne'
  have high := Nat.lt_log2_self (n := n)
  constructor
  · exact_mod_cast low
  · exact_mod_cast high

/-- The ratio has at most one bit more than the fraction on its grid, and on a grid above the
least one it has no bit less. -/
theorem gridExponent_bounds (f : Format) (hn : 0 < num) (hd : 0 < den) :
    f.leastExponent ≤ f.gridExponent num den ∧
    (num : ℚ) / den < 2 ^ (f.gridExponent num den + f.fractionBits + 1) ∧
    (f.leastExponent < f.gridExponent num den →
      (2 : ℚ) ^ (f.gridExponent num den + f.fractionBits) ≤ num / den) := by
  have positive : (0 : ℚ) < den := by exact_mod_cast hd
  obtain ⟨numLow, numHigh⟩ := log2_bounds hn
  obtain ⟨denLow, denHigh⟩ := log2_bounds hd
  set guess : ℤ := (num.log2 : ℤ) - den.log2 - f.fractionBits - 1 with guessed
  have low : (2 : ℚ) ^ (guess + f.fractionBits) ≤ num / den := by
    rw [le_div_iff₀ positive]
    calc (2 : ℚ) ^ (guess + f.fractionBits) * den
        ≤ 2 ^ (guess + f.fractionBits) * 2 ^ ((den.log2 : ℤ) + 1) := by gcongr
      _ = 2 ^ (num.log2 : ℤ) := by
        rw [← zpow_add₀ two_ne_zero]
        congr 1
        omega
      _ ≤ num := numLow
  have high : (num : ℚ) / den < 2 ^ (guess + f.fractionBits + 2) := by
    rw [div_lt_iff₀ positive]
    calc (num : ℚ) < 2 ^ ((num.log2 : ℤ) + 1) := numHigh
      _ = 2 ^ (guess + f.fractionBits + 2) * 2 ^ (den.log2 : ℤ) := by
        rw [← zpow_add₀ two_ne_zero]
        congr 1
        omega
      _ ≤ 2 ^ (guess + f.fractionBits + 2) * den := by gcongr
  -- What the definition tests with naturals is whether the first guess is high enough.
  have fits : num * upScale (-guess) < den * upScale guess * Nat.pow 2 (f.fractionBits + 1) ↔
      (num : ℚ) / den < 2 ^ (guess + f.fractionBits + 1) := by
    have unit : (0 : ℚ) < upScale (-guess) := by exact_mod_cast upScale_pos (-guess)
    have scaled : (den : ℚ) * upScale guess * 2 ^ (f.fractionBits + 1) =
        2 ^ (guess + f.fractionBits + 1) * den * upScale (-guess) := by
      rw [upScale_ratio guess, add_assoc, zpow_add₀ two_ne_zero]
      norm_cast
      push_cast
      ring
    rw [div_lt_iff₀ positive, ← mul_lt_mul_iff_left₀ unit, ← scaled, Nat.pow_eq]
    exact_mod_cast Iff.rfl
  have grid : f.gridExponent num den = max f.leastExponent
      (if (num : ℚ) / den < 2 ^ (guess + f.fractionBits + 1) then guess else guess + 1) := by
    simp only [gridExponent, ← guessed, decide_eq_true_eq, fits]
  rw [grid]
  split
  · next small =>
    refine ⟨le_max_left _ _, small.trans_le ?_, fun above => ?_⟩
    · gcongr
      · norm_num
      · exact le_max_right _ _
    · rw [max_eq_right (by omega)]
      exact low
  · next large =>
    refine ⟨le_max_left _ _, high.trans_le ?_, fun above => ?_⟩
    · have := le_max_right f.leastExponent (guess + 1)
      exact zpow_le_zpow_right₀ (by norm_num) (by omega)
    · rw [max_eq_right (by omega)]
      rw [add_right_comm]
      exact not_lt.mp large

/-! ## Patterns -/

/-- A mantissa on a grid of the format, such that a pattern is made of them: it has the leading bit
unless the grid is the least one. -/
structure Packs (f : Format) (k : ℕ) (g : ℤ) : Prop where
  mantissa : k < 2 ^ (f.fractionBits + 1)
  least : f.leastExponent ≤ g
  most : (g - f.leastExponent).toNat + 1 < f.topField
  leading : k < 2 ^ f.fractionBits → g = f.leastExponent

/-- The numbers that a format has a mantissa and a grid for. -/
def Holds (f : Format) (v : ℚ) : Prop :=
  ∃ (k : ℕ) (e : ℤ), k < 2 ^ (f.fractionBits + 1) ∧ f.leastExponent ≤ e ∧
    (e - f.leastExponent).toNat + 1 < f.topField ∧ v = k * 2 ^ e

theorem Packs.holds (packs : f.Packs k g) : f.Holds (k * 2 ^ g) :=
  ⟨k, g, packs.mantissa, packs.least, packs.most, rfl⟩

/-- A pattern is read field by field. -/
theorem read_fields (f : Format) (negative : Bool) {field fraction : ℕ}
    (hfield : field < 2 ^ f.exponentBits) (hfraction : fraction < 2 ^ f.fractionBits) :
    f.read ((if negative then f.signBit else 0) + (field * 2 ^ f.fractionBits + fraction)) =
      if field = f.topField then if fraction = 0 then .infinite negative else .nan
      else if field = 0 then .finite negative fraction f.leastExponent
      else .finite negative (2 ^ f.fractionBits + fraction)
        (f.leastExponent + (field - 1 : Nat)) := by
  have sign : f.signBit = 2 ^ f.exponentBits * 2 ^ f.fractionBits := by
    rw [signBit, Nat.pow_eq, Nat.pow_add, Nat.mul_comm]
  have unit : 0 < 2 ^ f.fractionBits := Nat.pow_pos (by decide)
  set bits := (if negative then f.signBit else 0) + (field * 2 ^ f.fractionBits + fraction)
    with packed
  have parts : bits =
      ((if negative then 2 ^ f.exponentBits else 0) + field) * 2 ^ f.fractionBits + fraction := by
    rw [packed, sign]
    split <;> ring
  have fractionRead : bits % 2 ^ f.fractionBits = fraction := by
    rw [parts, Nat.mul_add_mod_of_lt hfraction]
  have upper : bits / 2 ^ f.fractionBits =
      (if negative then 2 ^ f.exponentBits else 0) + field := by
    rw [parts, Nat.mul_comm, Nat.mul_add_div unit, Nat.div_eq_of_lt hfraction, Nat.add_zero]
  have fieldRead : bits / 2 ^ f.fractionBits % 2 ^ f.exponentBits = field := by
    rw [upper]
    split <;> simp [Nat.mod_eq_of_lt hfield]
  have signRead : (bits / f.signBit % 2 == 1) = negative := by
    rw [sign, Nat.mul_comm, ← Nat.div_div_eq_div_mul, upper]
    cases negative <;> simp [Nat.div_eq_of_lt hfield]
  simp only [read, Nat.pow_eq, fractionRead, fieldRead, signRead]

/-- A mantissa with its grid is read back from its pattern. -/
theorem read_packed (packs : f.Packs k g) (negative : Bool) :
    f.read ((if negative then f.signBit else 0) +
      ((g - f.leastExponent).toNat * 2 ^ f.fractionBits + k)) = .finite negative k g := by
  have bound := packs.mantissa
  have most := packs.most
  have least := packs.least
  have top : f.topField < 2 ^ f.exponentBits :=
    Nat.sub_lt (Nat.pow_pos (by decide)) (by decide)
  rcases Nat.lt_or_ge k (2 ^ f.fractionBits) with small | large
  · obtain rfl := packs.leading small
    rw [Int.sub_self, Int.toNat_zero, read_fields f negative (Nat.pow_pos (by decide)) small,
      if_neg (by omega), if_pos rfl]
  · obtain ⟨fraction, rfl⟩ := Nat.exists_eq_add_of_le large
    have carried : (g - f.leastExponent).toNat * 2 ^ f.fractionBits +
        (2 ^ f.fractionBits + fraction) =
        ((g - f.leastExponent).toNat + 1) * 2 ^ f.fractionBits + fraction := by ring
    rw [carried, read_fields f negative (by omega) (by omega), if_neg (by omega),
      if_neg (by omega), Nat.add_sub_cancel]
    congr 1
    omega

/-- What a pattern stands for is made of a mantissa on a grid, if it is a number at all. -/
theorem packs_of_read (hf : 1 < f.topField) {bits : ℕ} (held : f.read bits = .finite negative k g) :
    f.Packs k g := by
  have fraction : bits % 2 ^ f.fractionBits < 2 ^ f.fractionBits :=
    Nat.mod_lt _ (Nat.pow_pos (by decide))
  have field : bits / 2 ^ f.fractionBits % 2 ^ f.exponentBits < f.topField + 1 :=
    (Nat.mod_lt _ (Nat.pow_pos (by decide))).trans_eq
      (Nat.sub_add_cancel (Nat.pow_pos (by decide))).symm
  unfold read at held
  simp only [Nat.pow_eq] at held
  split at held
  · split at held <;> cases held
  · split at held
    · cases held
      exact ⟨by omega, le_refl _, by omega, fun _ => rfl⟩
    · cases held
      exact ⟨by omega, by omega, by omega, fun small => by omega⟩

/-- A number that the format holds is a whole mantissa on the grid that is chosen for it. -/
theorem packs_grid (hn : 0 < num) (hd : 0 < den) (holds : f.Holds (num / den)) :
    ∃ m : ℕ, f.Packs m (f.gridExponent num den) ∧
      (m : ℚ) * 2 ^ f.gridExponent num den = num / den := by
  obtain ⟨k, e, mantissa, least, most, value⟩ := holds
  obtain ⟨above, high, low⟩ := f.gridExponent_bounds hn hd
  generalize f.gridExponent num den = g at *
  -- Above the least grid the ratio has its leading bit, so no mantissa of it lies on a lower one.
  have finer : g ≤ e := by
    rcases above.eq_or_lt with same | above
    · exact same ▸ least
    have inside : (2 : ℚ) ^ (g + f.fractionBits) < 2 ^ (e + f.fractionBits + 1) := by
      refine (low above).trans_lt ?_
      rw [value, add_assoc, zpow_add₀ two_ne_zero, mul_comm]
      gcongr
      exact_mod_cast mantissa
    have := (zpow_lt_zpow_iff_right₀ (by norm_num)).mp inside
    omega
  obtain ⟨shift, rfl⟩ := Int.le.dest finer
  have exact : ((k * 2 ^ shift : ℕ) : ℚ) * 2 ^ g = num / den := by
    rw [value, zpow_add₀ two_ne_zero]
    push_cast
    rw [zpow_natCast]
    ring
  have unit : (0 : ℚ) < 2 ^ g := by positivity
  refine ⟨k * 2 ^ shift, ⟨?_, above, by omega, fun small => ?_⟩, exact⟩
  · rw [← exact, add_assoc, zpow_add₀ two_ne_zero, mul_comm, mul_lt_mul_iff_right₀ unit] at high
    exact_mod_cast high
  · by_contra other
    have low := low (lt_of_le_of_ne above (Ne.symm other))
    rw [← exact, zpow_add₀ two_ne_zero, mul_comm, mul_le_mul_iff_left₀ unit] at low
    exact small.not_ge (by exact_mod_cast low)

/-- A ratio that is a mantissa on its grid is not rounded. -/
theorem magnitude_of_packs {m : ℕ} (hn : 0 < num) (hd : 0 < den)
    (packs : f.Packs m (f.gridExponent num den))
    (exact : (m : ℚ) * 2 ^ f.gridExponent num den = num / den) :
    f.magnitude num den =
      (f.gridExponent num den - f.leastExponent).toNat * 2 ^ f.fractionBits + m := by
  have short := packs.mantissa
  have room : (f.gridExponent num den - f.leastExponent).toNat + 2 ≤ f.topField := packs.most
  have positive : (den : ℚ) ≠ 0 := by exact_mod_cast hd.ne'
  rw [magnitude, if_neg hn.ne']
  generalize f.gridExponent num den = g at *
  have whole : num * upScale (-g) = m * (den * upScale g) := by
    rw [eq_div_iff positive] at exact
    have : (num : ℚ) * upScale (-g) = m * (den * upScale g) := by
      rw [upScale_ratio g, ← exact]
      ring
    exact_mod_cast this
  dsimp only
  rw [whole, roundedQuotient_mul m (Nat.mul_pos hd (upScale_pos g)), infinityBits, Nat.pow_eq]
  apply min_eq_right
  calc (g - f.leastExponent).toNat * 2 ^ f.fractionBits + m
      ≤ ((g - f.leastExponent).toNat + 2) * 2 ^ f.fractionBits := by
        rw [Nat.pow_succ] at short
        rw [Nat.add_mul]
        omega
    _ ≤ f.topField * 2 ^ f.fractionBits := Nat.mul_le_mul_right _ room

/-- A number that the format holds is read back from the pattern that is nearest to it. -/
theorem read_nearest (negative : Bool) (hd : 0 < den) (holds : f.Holds (num / den)) :
    ∃ k g, f.read (f.nearest negative num den) = .finite negative k g ∧
      (k : ℚ) * 2 ^ g = num / den := by
  rcases Nat.eq_zero_or_pos num with rfl | hn
  · obtain ⟨_, _, _, _, most, _⟩ := holds
    have packs : f.Packs 0 f.leastExponent :=
      ⟨Nat.pow_pos (by decide), le_refl _, by omega, fun _ => rfl⟩
    refine ⟨0, f.leastExponent, ?_, by simp⟩
    have read := read_packed packs negative
    rw [Int.sub_self, Int.toNat_zero, Nat.zero_mul] at read
    exact read
  · obtain ⟨m, packs, exact⟩ := packs_grid hn hd holds
    refine ⟨m, _, ?_, exact⟩
    rw [nearest, magnitude_of_packs hn hd packs exact, read_packed packs]

/-! ## What is written -/

theorem magnitude_le (f : Format) (num den : ℕ) : f.magnitude num den ≤ f.infinityBits := by
  unfold magnitude
  split
  · exact Nat.zero_le _
  · exact min_le_left _ _

theorem infinityBits_lt (f : Format) : f.infinityBits < f.signBit := by
  rw [infinityBits, signBit, topField, Nat.pow_eq, Nat.pow_eq, Nat.pow_eq, Nat.add_comm,
    Nat.pow_add]
  exact Nat.mul_lt_mul_of_pos_right (Nat.sub_lt (Nat.pow_pos (by decide)) (by decide))
    (Nat.pow_pos (by decide))

theorem nearest_lt (f : Format) (negative : Bool) (num den : ℕ) :
    f.nearest negative num den < 2 * f.signBit := by
  have small := (f.magnitude_le num den).trans_lt f.infinityBits_lt
  unfold nearest
  split <;> omega

/-- A ratio is always written as a number, if it may be infinite. -/
theorem read_nearest_ne_nan (f : Format) (negative : Bool) (num den : ℕ) :
    f.read (f.nearest negative num den) ≠ .nan := by
  have unit : 0 < 2 ^ f.fractionBits := Nat.pow_pos (by decide)
  have bound : f.magnitude num den ≤ f.topField * 2 ^ f.fractionBits := f.magnitude_le num den
  have top : f.topField < 2 ^ f.exponentBits := Nat.sub_lt (Nat.pow_pos (by decide)) (by decide)
  have field : f.magnitude num den / 2 ^ f.fractionBits ≤ f.topField :=
    Nat.div_le_of_le_mul (by rwa [Nat.mul_comm])
  rw [nearest, ← Nat.div_add_mod' (f.magnitude num den) (2 ^ f.fractionBits),
    read_fields f negative (field.trans_lt top) (Nat.mod_lt _ unit)]
  split
  · next full =>
    have none : f.magnitude num den % 2 ^ f.fractionBits = 0 := by
      have parts := Nat.div_add_mod' (f.magnitude num den) (2 ^ f.fractionBits)
      rw [full] at parts
      omega
    rw [if_pos none]
    simp
  · split <;> simp

end Format

/-! ## Doubles -/

namespace Double

open Format (double)

variable {x : Double} {k num den n : ℕ} {e : ℤ} {v : ℚ} {negative : Bool}

/-- A finite double of a sign and a magnitude. Zero has either sign. -/
def Stands (x : Double) (negative : Bool) (v : ℚ) : Prop :=
  ∃ (k : ℕ) (g : ℤ), x.datum = .finite negative k g ∧ (k : ℚ) * 2 ^ g = v

theorem Stands.holds (stands : x.Stands negative v) : double.Holds v := by
  obtain ⟨k, g, held, rfl⟩ := stands
  exact (Format.packs_of_read (by decide) held).holds

theorem Stands.isFinite (stands : x.Stands negative v) : x.isFinite = true := by
  obtain ⟨k, g, held, _⟩ := stands
  rw [Double.isFinite, held]

theorem datum_ofRatio (negative : Bool) (num den : ℕ) :
    (ofRatio negative num den).datum = double.read (double.nearest negative num den) := by
  have word : double.nearest negative num den < 2 ^ 64 := double.nearest_lt negative num den
  rw [datum, ofRatio, UInt64.toNat_ofNat_of_lt' word]

/-- A number that doubles hold is the double that is nearest to it. -/
theorem stands_ofRatio (negative : Bool) (hd : 0 < den) (holds : double.Holds (num / den)) :
    (ofRatio negative num den).Stands negative (num / den) := by
  obtain ⟨k, g, read, exact⟩ := Format.read_nearest negative hd holds
  exact ⟨k, g, (datum_ofRatio negative num den).trans read, exact⟩

theorem stands_ofDatum (negative : Bool) (holds : double.Holds (k * 2 ^ e)) :
    (ofDatum (.finite negative k e)).Stands negative (k * 2 ^ e) := by
  rw [← Format.scaled_ratio k e] at holds ⊢
  exact stands_ofRatio negative (Format.upScale_pos (-e)) holds

/-- Doubles hold every natural number of 53 bits. -/
theorem holds_natCast (small : n < 2 ^ 53) : double.Holds n :=
  ⟨n, 0, small, by decide, by decide, by simp⟩

theorem stands_ofInt {n : ℤ} (small : n.natAbs < 2 ^ 53) :
    (ofInt n).Stands (n < 0) n.natAbs := by
  have whole : ((n.natAbs : ℕ) : ℚ) / (1 : ℕ) = n.natAbs := by simp
  rw [← whole]
  exact stands_ofRatio _ Nat.one_pos (by rw [whole]; exact holds_natCast small)

end Double
end MixedModules.Number
