import EventLoop.Evaluation.Timers
import Mathlib

set_option autoImplicit false

/-!
# Delays and timers as doubles

Delays are finite and not negative, and such doubles are in a linear order, by exponent and then by
mantissa.
-/

namespace EventLoop

open Float.Model Float.Model.UnpackedFloat

structure IsDelay (x : Float) : Prop where
  finite : x.isFinite = true
  nonneg : 0 ≤ x

namespace Number

variable {x y : Float}

theorem le_iff_compare :
    x ≤ y ↔ (x.toModel.unpack.compare y.toModel.unpack).any (·.isLE) = true := by
  change decide ((x.toModel.unpack.compare y.toModel.unpack).any (·.isLE) = true) = true ↔ _
  simp

theorem lt_iff_compare : x < y ↔ x.toModel.unpack.compare y.toModel.unpack = some .lt := by
  change decide ((x.toModel.unpack.compare y.toModel.unpack == some .lt) = true) = true ↔ _
  simp

theorem beq_iff_compare :
    (x == y) = true ↔ x.toModel.unpack.compare y.toModel.unpack = some .eq := by
  change (x.toModel.unpack.compare y.toModel.unpack == some .eq) = true ↔ _
  simp

def rank (x : Float) : Nat ×ₗ (Int ×ₗ Nat) :=
  match x.toModel.unpack with
  | .finite _ mantissa exponent _ => toLex (1, toLex (exponent, mantissa))
  | _ => toLex (0, toLex (0, 0))

theorem rank_of_positive {mantissa : Nat} {exponent : Int} {positive : 0 < mantissa}
    (found : x.toModel.unpack = .finite .positive mantissa exponent positive) :
    rank x = toLex (1, toLex (exponent, mantissa)) := by
  rw [rank, found]

end Number

open Number

theorem isDelay_normalDelay (given : Float) : IsDelay (normalDelay given) := by
  unfold normalDelay
  split
  next valid =>
    obtain ⟨finite, positive⟩ : given.isFinite = true ∧ 0 < given := by simpa using valid
    refine ⟨finite, ?_⟩
    rw [lt_iff_compare] at positive
    rw [le_iff_compare, positive]
    rfl
  next => exact ⟨rfl, rfl⟩

namespace IsDelay

variable {x y : Float}

theorem unpack_cases (delay : IsDelay x) :
    (∃ sign, x.toModel.unpack = .zero sign) ∨
      ∃ mantissa exponent positive,
        x.toModel.unpack = .finite .positive mantissa exponent positive := by
  obtain ⟨finite, nonneg⟩ := delay
  have zero : (0 : Float).toModel.unpack = .zero .positive := rfl
  rw [le_iff_compare, zero] at nonneg
  change x.toModel.unpack.isFinite = true at finite
  generalize x.toModel.unpack = value at *
  cases value with
  | notANumber | infinity sign => cases finite
  | zero sign => exact .inl ⟨sign, rfl⟩
  | finite sign mantissa exponent positive =>
      cases sign with
      | negative => cases nonneg
      | positive => exact .inr ⟨_, _, _, rfl⟩

theorem of_positive {mantissa : Nat} {exponent : Int} {positive : 0 < mantissa}
    (found : x.toModel.unpack = .finite .positive mantissa exponent positive) : IsDelay x := by
  constructor
  · change x.toModel.unpack.isFinite = true
    rw [found]
    rfl
  · rw [le_iff_compare, found]
    rfl

theorem compare_eq (first : IsDelay x) (second : IsDelay y) :
    x.toModel.unpack.compare y.toModel.unpack = some (compare (rank x) (rank y)) := by
  unfold rank
  obtain ⟨sign, left⟩ | ⟨mantissa, exponent, positive, left⟩ := first.unpack_cases <;>
    obtain ⟨sign, right⟩ | ⟨mantissa, exponent, positive, right⟩ := second.unpack_cases <;>
    rw [left, right] <;> rfl

theorem le_iff (first : IsDelay x) (second : IsDelay y) : x ≤ y ↔ rank x ≤ rank y := by
  rw [le_iff_compare, first.compare_eq second, Option.any_some, ← compare_le_iff_le,
    Ordering.isLE_iff_ne_gt]

theorem lt_iff (first : IsDelay x) (second : IsDelay y) : x < y ↔ rank x < rank y := by
  rw [lt_iff_compare, first.compare_eq second, Option.some_inj, compare_lt_iff_lt]

theorem beq_iff (first : IsDelay x) (second : IsDelay y) :
    (x == y) = true ↔ rank x = rank y := by
  rw [beq_iff_compare, first.compare_eq second, Option.some_inj, compare_eq_iff_eq]

end IsDelay

namespace Number

theorem unpackMantissa_toNat (bits : BitVec 64) :
    (@unpackMantissa .binary64 bits).toNat = bits.toNat % leadingBit := by
  simp [unpackMantissa, leadingBit]

theorem unpackExponent_toNat (bits : BitVec 64) :
    (@unpackExponent .binary64 bits).toNat = bits.toNat / leadingBit % 2048 := by
  simp [unpackExponent, leadingBit, Nat.shiftRight_eq_div_pow]

theorem ofBitVec_unpackSign (bits : BitVec 64) :
    Sign.ofBitVec (@unpackSign .binary64 bits) =
      if signBit ≤ bits.toNat then .negative else .positive := by
  have bound := bits.isLt
  have value : (@unpackSign .binary64 bits).toNat = bits.toNat / signBit := by
    simp only [unpackSign, signBit, BitVec.toNat_cast, BitVec.extractLsb_toNat,
      Nat.shiftRight_eq_div_pow]
    omega
  have low : @unpackSign .binary64 bits = 0#1 ↔ ¬signBit ≤ bits.toNat := by
    rw [← BitVec.toNat_inj, value]
    simp [signBit]
  by_cases high : signBit ≤ bits.toNat <;> simp [Sign.ofBitVec, low, high]

theorem toNat_leading_append {fraction : BitVec 52} :
    (1#1 ++ fraction).toNat = leadingBit + fraction.toNat := by
  rw [BitVec.toNat_append, ← Nat.shiftLeft_add_eq_or_of_lt fraction.isLt]
  rfl

theorem unpack_eq_finite {bits : BitVec 64} {sign : Sign} {mantissa : Nat} {exponent : Int}
    {positive : 0 < mantissa}
    (found : UnpackedFloat.unpack .binary64 bits = .finite sign mantissa exponent positive) :
    let biased := bits.toNat / leadingBit % 2048
    let fraction := bits.toNat % leadingBit
    biased ≠ 2047 ∧ (sign = if signBit ≤ bits.toNat then .negative else .positive) ∧
      (biased = 0 ∧ mantissa = fraction ∧ exponent = leastExponent ∨
        biased ≠ 0 ∧ mantissa = leadingBit + fraction ∧
          exponent = leastExponent + (biased - 1 : Nat)) := by
  intro biased fraction
  have biasedBits := unpackExponent_toNat bits
  simp only [UnpackedFloat.unpack] at found
  -- The greatest exponent is that of infinity and NaN, the least that of subnormal numbers.
  split at found
  next => split at found <;> cases found
  next notLast =>
    have finite : biased ≠ 2047 := fun last =>
      notLast (BitVec.eq_of_toNat_eq (biasedBits.trans last))
    refine ⟨finite, ?_⟩
    split at found
    next least =>
      split at found
      next => cases found
      next =>
        cases found
        rw [least] at biasedBits ⊢
        exact ⟨ofBitVec_unpackSign bits, .inl ⟨biasedBits.symm, unpackMantissa_toNat bits, rfl⟩⟩
    next normal =>
      have above : biased ≠ 0 := fun zero =>
        normal (BitVec.eq_of_toNat_eq (biasedBits.trans zero))
      cases found
      refine ⟨ofBitVec_unpackSign bits, .inr ⟨above, ?_, ?_⟩⟩
      · rw [toNat_leading_append, unpackMantissa_toNat]
      · have bias : Format.binary64.exponentBias = 1023 := rfl
        rw [biasedBits, bias, leastExponent]
        omega

theorem Dyadic.ofFloat?_of_positive {x : Float} {mantissa : Nat} {exponent : Int}
    {positive : 0 < mantissa}
    (found : x.toModel.unpack = .finite .positive mantissa exponent positive) :
    Dyadic.ofFloat? x = some ⟨false, mantissa, exponent⟩ := by
  obtain ⟨finite, sign, parts⟩ := unpack_eq_finite found
  have bits : x.toBits.toNat = x.toModel.toBits.toBitVec.toNat := rfl
  have low : ¬signBit ≤ x.toModel.toBits.toBitVec.toNat := by
    intro high
    rw [if_pos high] at sign
    cases sign
  unfold Dyadic.ofFloat?
  simp only [bits, low, finite, if_false, decide_false]
  obtain ⟨least, rfl, rfl⟩ | ⟨normal, rfl, rfl⟩ := parts
  · simp only [least, if_true]
  · simp only [normal, if_false]

section Normal

variable {mantissa : Nat} {exponent : Int} (low : 2 ^ 52 ≤ mantissa) (high : mantissa < 2 ^ 53)
variable (least : -1074 ≤ exponent)

theorem shiftRight_mul_two_pow (mantissa count : Nat) :
    (⟨mantissa * 2 ^ count, false, false⟩ : ExtendedMantissa) >>> count =
      ⟨mantissa, false, false⟩ := by
  induction count generalizing mantissa with
  | zero => simp [HShiftRight.hShiftRight, Nat.repeat]
  | succ count ih =>
      have doubled := ih (mantissa * 2)
      simp only [HShiftRight.hShiftRight] at doubled ⊢
      rw [Nat.pow_succ', ← Nat.mul_assoc, Nat.repeat, doubled]
      simp [ExtendedMantissa.shiftRightOne]

include low high

theorem log2_mul_two_pow (count : Nat) : (mantissa * 2 ^ count).log2 = 52 + count := by
  have positive : 0 < 2 ^ count := Nat.two_pow_pos count
  have nonzero : mantissa * 2 ^ count ≠ 0 := Nat.mul_ne_zero (by omega) (by omega)
  refine (Nat.log2_eq_iff nonzero).mpr ⟨?_, ?_⟩
  · rw [Nat.pow_add]
    exact Nat.mul_le_mul_right _ low
  · rw [Nat.add_right_comm, Nat.pow_add]
    exact Nat.mul_lt_mul_of_pos_right high positive

include least

theorem shiftToTargetExponent_scaled (count : Nat) :
    shiftToTargetExponent .binary64 (mantissa * 2 ^ count) (exponent - count) .exact =
      (⟨mantissa, false, false⟩, exponent) := by
  have target : Format.binary64.targetExponent
      (totalExponent (mantissa * 2 ^ count) (exponent - count)) = exponent := by
    simp only [Format.targetExponent, totalExponent, Format.mantissaBits, Format.minExponent,
      log2_mul_two_pow low high]
    omega
  have amount : (exponent - (exponent - count)).toNat = count := by omega
  simp only [shiftToTargetExponent, shiftToExponent, target, amount,
    ExtendedMantissa.ofMantissaAndAccuracy, shiftRight_mul_two_pow, Int.sub_add_cancel]

theorem roundWithAccuracy_scaled (sign : Sign) (count : Nat) :
    roundWithAccuracy .binary64 sign (mantissa * 2 ^ count) (exponent - count) .exact =
      .finite sign mantissa exponent (by omega) := by
  have again := shiftToTargetExponent_scaled low high least 0
  simp only [Nat.pow_zero, Nat.mul_one, Int.natCast_zero, Int.sub_zero] at again
  have rounded : ExtendedMantissa.roundedMantissa ⟨mantissa, false, false⟩ = mantissa := rfl
  have nonzero : mantissa ≠ 0 := by omega
  simp only [roundWithAccuracy, shiftToTargetExponent_scaled low high least, rounded, again,
    nonzero, dif_neg, not_false_eq_true]

theorem unpack_pack_normal (sign : Sign) (greatest : exponent ≤ 971) :
    (Float.Model.pack (.finite sign mantissa exponent (by omega))).unpack =
      .finite sign mantissa exponent (by omega) := by
  obtain ⟨biased, rfl⟩ : ∃ biased : Nat, exponent = biased - 1075 :=
    ⟨(exponent + 1075).toNat, by omega⟩
  have bias : ((Format.binary64.exponentBias : Nat) : Int) = 1023 := rfl
  -- The mantissa has its leading bit, so packing stores the exponent with its bias and drops that
  -- bit.
  have sum : ((biased : Int) - 1075 + 1023 + (52 : Nat)).toNat = biased := by omega
  have log : mantissa.log2 = 52 := by simpa using log2_mul_two_pow low high 0
  have bits : 52 + 1 = Format.binary64.mantissaBits := rfl
  have inRange : ¬2 ^ 11 ≤ biased + 1 := by omega
  have packed : UnpackedFloat.pack .binary64 (.finite sign mantissa (biased - 1075) (by omega)) =
      packComponents .binary64 sign (BitVec.ofNat 11 biased) (BitVec.ofNat 52 mantissa) := by
    simp only [UnpackedFloat.pack, bias, sum, log, bits, inRange, if_false, if_true]
  have value : (BitVec.ofNat 11 biased).toNat = biased := Nat.mod_eq_of_lt (by omega)
  have fraction : (1#1 ++ BitVec.ofNat 52 mantissa).toNat = mantissa := by
    rw [toNat_leading_append, BitVec.toNat_ofNat, leadingBit]
    omega
  have notLast : BitVec.ofNat 11 biased ≠ -1#11 := by
    intro last
    have : biased = 2047 := value.symm.trans (congrArg BitVec.toNat last)
    omega
  have normal : BitVec.ofNat 11 biased ≠ 0#11 := by
    intro zero
    have : biased = 0 := value.symm.trans (congrArg BitVec.toNat zero)
    omega
  change UnpackedFloat.unpack .binary64 (UnpackedFloat.pack .binary64 _) = _
  rw [packed]
  simp only [UnpackedFloat.unpack, unpackExponent_packComponents, unpackMantissa_packComponents,
    unpackSign_packComponents, Sign.ofBitVec_toBitVec, notLast, normal, if_false, fraction, value,
    bias]
  congr 1

end Normal

def lift (number : Nat) : Nat := 52 - number.log2

def oneBits : UInt64 := 0x3FF0000000000000

theorem oneBits_unpack :
    (Float.ofBits oneBits).toModel.unpack = .finite .positive (2 ^ 52) (-52) (by decide) :=
  rfl

section Whole

variable {number : Nat} (positive : 0 < number) (small : number < 2 ^ 53)

include positive small

theorem log2_add_lift : number.log2 + lift number = 52 := by
  have bound : number.log2 < 53 := (Nat.log2_lt (by omega)).mpr small
  rw [lift]
  omega

theorem lifted_bounds :
    2 ^ 52 ≤ number * 2 ^ lift number ∧ number * 2 ^ lift number < 2 ^ 53 := by
  have exponents := log2_add_lift positive small
  have shifted : 0 < 2 ^ lift number := Nat.two_pow_pos _
  constructor
  · rw [← exponents, Nat.pow_add]
    exact Nat.mul_le_mul_right _ (Nat.log2_self_le (by omega))
  · have : (53 : Nat) = number.log2 + 1 + lift number := by omega
    rw [this, Nat.pow_add]
    exact Nat.mul_lt_mul_of_pos_right Nat.lt_log2_self shifted

theorem ofNat_eq :
    UnpackedFloat.ofNat .binary64 number =
      .finite .positive (number * 2 ^ lift number) (-(lift number : Int))
        (by have := lifted_bounds positive small; omega) := by
  obtain ⟨low, high⟩ := lifted_bounds positive small
  have exponents := log2_add_lift positive small
  have least : -1074 ≤ -(lift number : Int) := by omega
  have greater : compare (number : Int) 0 = .gt := by
    rw [compare_gt_iff_gt]
    omega
  have target : Format.binary64.targetExponent (totalExponent number 0) = -(lift number : Int) := by
    simp only [Format.targetExponent, totalExponent, Format.mantissaBits, Format.minExponent]
    omega
  have rounded := roundWithAccuracy_scaled low high least .positive 0
  simp only [Nat.pow_zero, Nat.mul_one, Int.natCast_zero, Int.sub_zero] at rounded
  simp only [UnpackedFloat.ofNat, UnpackedFloat.ofInt, UnpackedFloat.normalize, greater,
    UnpackedFloat.round, target, decreaseExponent, Int.zero_sub, Int.neg_neg, Int.toNat_natCast,
    Nat.shiftLeft_eq, rounded]

theorem toFloat_unpack :
    (Nat.toFloat number).toModel.unpack =
      .finite .positive (number * 2 ^ lift number) (-(lift number : Int))
        (by have := lifted_bounds positive small; omega) := by
  obtain ⟨low, high⟩ := lifted_bounds positive small
  have exponents := log2_add_lift positive small
  have least : -1074 ≤ -(lift number : Int) := by omega
  have greatest : -(lift number : Int) ≤ 971 := by omega
  have same : number.toUInt64.toNat = number :=
    UInt64.toNat_ofNat_of_lt (Nat.lt_trans small (by decide))
  -- A number of at most 53 bits is taken as it is and multiplied by the double for one.
  have product : Nat.toFloat number = number.toUInt64.toFloat * Float.ofBits oneBits :=
    dif_pos (⟨small, by decide⟩ : number < 2 ^ 53 ∧ 0 ≤ 22)
  have unpacked : (Nat.toFloat number).toModel.unpack =
      (Float.Model.pack (UnpackedFloat.mul .binary64
        (Float.Model.pack (UnpackedFloat.ofNat .binary64 number.toUInt64.toNat)).unpack
        (Float.ofBits oneBits).toModel.unpack)).unpack := by
    rw [product]
    rfl
  rw [unpacked, same, oneBits_unpack, ofNat_eq positive small,
    unpack_pack_normal low high least .positive greatest]
  change (Float.Model.pack (roundWithAccuracy .binary64 .positive
    (number * 2 ^ lift number * 2 ^ 52) (-(lift number : Int) - (52 : Nat)) .exact)).unpack = _
  rw [roundWithAccuracy_scaled low high least,
    unpack_pack_normal low high least .positive greatest]

theorem isWhole_toFloat : isWhole (Nat.toFloat number) = true := by
  have parts := Dyadic.ofFloat?_of_positive (toFloat_unpack positive small)
  simp only [isWhole, parts, Int.neg_neg, Int.toNat_natCast, Nat.one_shiftLeft,
    Nat.mul_mod_left, beq_self_eq_true, Bool.or_true]

theorem toNat_toFloat : toNat (Nat.toFloat number) = number := by
  have parts := Dyadic.ofFloat?_of_positive (toFloat_unpack positive small)
  have noShift : (-(lift number : Int)).toNat = 0 := by omega
  simp only [toNat, parts, Bool.false_eq_true, if_false, noShift, Nat.shiftLeft_zero, Int.neg_neg,
    Int.toNat_natCast, Nat.shiftRight_eq_div_pow]
  exact Nat.mul_div_cancel _ (Nat.two_pow_pos _)

theorem one_le_toFloat : 1 ≤ Nat.toFloat number := by
  have one : (1 : Float).toModel.unpack = .finite .positive (2 ^ 52) (-52) (by decide) := rfl
  have bounds := lifted_bounds positive small
  have exponents := log2_add_lift positive small
  have found := toFloat_unpack positive small
  rw [(IsDelay.of_positive one).le_iff (.of_positive found), rank_of_positive one,
    rank_of_positive found, Prod.Lex.toLex_le_toLex, Prod.Lex.toLex_le_toLex]
  omega

theorem toFloat_le_countLimit : Nat.toFloat number ≤ Nat.toFloat Text.countLimit := by
  have limit : (Nat.toFloat Text.countLimit).toModel.unpack =
      .finite .positive (2 ^ 52) 12 (by decide) := rfl
  have found := toFloat_unpack positive small
  rw [(IsDelay.of_positive found).le_iff (.of_positive limit), rank_of_positive found,
    rank_of_positive limit, Prod.Lex.toLex_le_toLex, Prod.Lex.toLex_le_toLex]
  omega

end Whole

end Number

theorem Timers.timerOf?_toFloat {id : Nat} (positive : 0 < id) (small : id < 2 ^ 53) :
    timerOf? (Nat.toFloat id) = some id := by
  have below : min id (Text.countLimit - 1) = id := by
    rw [Text.countLimit]
    omega
  simp [timerOf?, one_le_toFloat positive small, isWhole_toFloat positive small,
    toFloat_le_countLimit positive small, toNat_toFloat positive small, below]

end EventLoop
