import KeywordScript.Json.Basic

/-! Integers as floating-point numbers: a natural number of at most 53 binary digits is represented
exactly, so that two of them are the same number only if they are the same float. -/

namespace KeywordScript.Number

open Float.Model Float.Model.UnpackedFloat

/-- The significand of `n`: its binary digits, moved up until there are 53. -/
def significand (n : Nat) : Nat :=
  n <<< (52 - n.log2)

variable {n k : Nat}

theorem significand_ne_zero (hn : n ≠ 0) : significand n ≠ 0 := by
  rw [significand, Nat.shiftLeft_eq]
  exact Nat.mul_ne_zero hn (Nat.ne_of_gt (Nat.two_pow_pos _))

theorem log2_significand (hn : n ≠ 0) (hdigits : n.log2 ≤ 52) : (significand n).log2 = 52 := by
  obtain ⟨hlower, hupper⟩ := (Nat.log2_eq_iff hn).mp rfl
  have hpow : 2 ^ n.log2 * 2 ^ (52 - n.log2) = 2 ^ 52 := by
    rw [← Nat.pow_add, Nat.add_sub_cancel' hdigits]
  have hnext : 2 ^ (52 + 1) = 2 ^ 52 * 2 := Nat.pow_succ 2 52
  rw [Nat.log2_eq_iff (significand_ne_zero hn), significand, Nat.shiftLeft_eq]
  constructor
  · rw [← hpow]
    exact Nat.mul_le_mul_right _ hlower
  · calc n * 2 ^ (52 - n.log2) < 2 ^ (n.log2 + 1) * 2 ^ (52 - n.log2) :=
          Nat.mul_lt_mul_of_pos_right hupper (Nat.two_pow_pos _)
      _ = 2 ^ (52 + 1) := by rw [hnext, Nat.pow_succ, Nat.mul_right_comm, hpow]

def scale (n : Nat) : Int :=
  n.log2 - 52

/-- Where the most significant digit is no fraction, the format has 53 digits from there on. -/
theorem targetExponent_of_pos {position : Int} (h : 0 < position) :
    Format.binary64.targetExponent position = position - 53 := by
  have hbits : (Format.binary64.mantissaBits : Int) = 53 := rfl
  have hmin : Format.binary64.minExponent = -1074 := rfl
  rw [Format.targetExponent, hbits, hmin]
  omega

private theorem targetExponent_significand (hn : n ≠ 0) (hdigits : n.log2 ≤ 52) :
    Format.binary64.targetExponent (totalExponent (significand n) (scale n)) = scale n := by
  rw [totalExponent, log2_significand hn hdigits, targetExponent_of_pos, scale]
  · omega
  · rw [scale]
    omega

/-- A significand of 53 digits is rounded to itself. -/
theorem shift_significand (hn : n ≠ 0) (hdigits : n.log2 ≤ 52) :
    shiftToTargetExponent .binary64 (significand n) (scale n) .exact =
      ({ mantissa := significand n, roundBit := false, stickyBit := false }, scale n) := by
  rw [shiftToTargetExponent, targetExponent_significand hn hdigits, shiftToExponent, Int.sub_self]
  simp only [Int.toNat_zero, Int.natCast_zero, Int.add_zero]
  rfl

private theorem roundWithAccuracy_significand (hn : n ≠ 0) (hdigits : n.log2 ≤ 52) :
    roundWithAccuracy .binary64 .positive (significand n) (scale n) .exact =
      .finite .positive (significand n) (scale n)
        (Nat.pos_of_ne_zero (significand_ne_zero hn)) := by
  have hshift := shift_significand hn hdigits
  have hrounded : ExtendedMantissa.roundedMantissa
      { mantissa := significand n, roundBit := false, stickyBit := false } = significand n := rfl
  unfold roundWithAccuracy
  rw [hshift]
  dsimp only
  rw [hrounded, hshift]
  exact dif_neg (significand_ne_zero hn)

theorem ofNat_eq_finite (hn : n ≠ 0) (hdigits : n.log2 ≤ 52) :
    UnpackedFloat.ofNat .binary64 n =
      .finite .positive (significand n) (scale n)
        (Nat.pos_of_ne_zero (significand_ne_zero hn)) := by
  have hcompare : compare (n : Int) 0 = .gt := by
    rw [Int.compare_eq_gt]
    omega
  have htarget : Format.binary64.targetExponent (totalExponent n 0) = scale n := by
    rw [totalExponent, targetExponent_of_pos, scale]
    · omega
    · omega
  have hdecrease : decreaseExponent n 0 (scale n) = (significand n, scale n) := by
    have hshift : (0 - scale n).toNat = 52 - n.log2 := by
      rw [scale]
      omega
    have hscale : 0 - ((52 - n.log2 : Nat) : Int) = scale n := by
      rw [scale]
      omega
    simp only [decreaseExponent, hshift, hscale, significand]
  rw [UnpackedFloat.ofNat, UnpackedFloat.ofInt, UnpackedFloat.normalize, hcompare]
  dsimp only
  rw [Int.toNat_natCast, UnpackedFloat.round, htarget, hdecrease]
  exact roundWithAccuracy_significand hn hdigits

/-- How a finite number is packed: too large, with all 53 digits, or with fewer. -/
theorem pack_finite (sign : Sign) (m : Nat) (e : Int) (hm : 0 < m) :
    UnpackedFloat.pack .binary64 (.finite sign m e hm) =
      if 2048 ≤ (e + 1023 + 52).toNat + 1 then packedInfinity .binary64 sign
      else if m.log2 + 1 = 53 then
        packComponents .binary64 sign (BitVec.ofNat _ (e + 1023 + 52).toNat) (BitVec.ofNat _ m)
      else packComponents .binary64 sign 0#_ (BitVec.ofNat _ m) := rfl

theorem pack_eq_components (hn : n ≠ 0) (hdigits : n.log2 ≤ 52) :
    UnpackedFloat.pack .binary64 (UnpackedFloat.ofNat .binary64 n) =
      packComponents .binary64 .positive (BitVec.ofNat _ (n.log2 + 1023))
        (BitVec.ofNat _ (significand n)) := by
  have hbias : (scale n + 1023 + 52).toNat = n.log2 + 1023 := by
    rw [scale]
    omega
  have hrange : ¬2048 ≤ n.log2 + 1023 + 1 := by omega
  have hnormal : (significand n).log2 + 1 = 53 := by rw [log2_significand hn hdigits]
  rw [ofNat_eq_finite hn hdigits, pack_finite, hbias, if_neg hrange, if_pos hnormal]

theorem toNat_exponent (hn : n ≠ 0) (hdigits : n.log2 ≤ 52) :
    (unpackExponent (UnpackedFloat.pack .binary64 (UnpackedFloat.ofNat .binary64 n))).toNat =
      n.log2 + 1023 := by
  rw [pack_eq_components hn hdigits, unpackExponent_packComponents, BitVec.toNat_ofNat]
  change (n.log2 + 1023) % 2048 = _
  omega

theorem toNat_mantissa (hn : n ≠ 0) (hdigits : n.log2 ≤ 52) :
    (unpackMantissa (UnpackedFloat.pack .binary64 (UnpackedFloat.ofNat .binary64 n))).toNat =
      significand n - 4503599627370496 := by
  obtain ⟨hlower, hupper⟩ :=
    (Nat.log2_eq_iff (significand_ne_zero hn)).mp (log2_significand hn hdigits)
  rw [pack_eq_components hn hdigits, unpackMantissa_packComponents, BitVec.toNat_ofNat]
  change significand n % 4503599627370496 = _
  omega

theorem toNat_exponent_zero :
    (unpackExponent (UnpackedFloat.pack .binary64 (UnpackedFloat.ofNat .binary64 0))).toNat = 0 :=
      rfl

/-- Two numbers whose floats have the same bits have as many digits, and the same ones. -/
theorem eq_of_pack_eq (hn : n.log2 ≤ 52) (hk : k.log2 ≤ 52)
    (h : UnpackedFloat.pack .binary64 (UnpackedFloat.ofNat .binary64 n) =
      UnpackedFloat.pack .binary64 (UnpackedFloat.ofNat .binary64 k)) : n = k := by
  have hexponent := congrArg (fun b => (unpackExponent b).toNat) h
  have hmantissa := congrArg (fun b => (unpackMantissa b).toNat) h
  dsimp only at hexponent hmantissa
  by_cases hn0 : n = 0 <;> by_cases hk0 : k = 0
  · rw [hn0, hk0]
  · rw [hn0, toNat_exponent_zero, toNat_exponent hk0 hk] at hexponent
    omega
  · rw [hk0, toNat_exponent_zero, toNat_exponent hn0 hn] at hexponent
    omega
  · rw [toNat_exponent hn0 hn, toNat_exponent hk0 hk] at hexponent
    rw [toNat_mantissa hn0 hn, toNat_mantissa hk0 hk] at hmantissa
    have hlog : n.log2 = k.log2 := by omega
    have hsignificand : significand n = significand k := by
      have hn52 :=
        (Nat.le_log2 (significand_ne_zero hn0)).mp (Nat.le_of_eq (log2_significand hn0 hn).symm)
      have hk52 :=
        (Nat.le_log2 (significand_ne_zero hk0)).mp (Nat.le_of_eq (log2_significand hk0 hk).symm)
      omega
    rw [significand, significand, hlog, Nat.shiftLeft_eq, Nat.shiftLeft_eq] at hsignificand
    exact Nat.eq_of_mul_eq_mul_right (Nat.two_pow_pos _) hsignificand

theorem log2_le_of_lt_size (hn : n < UInt32.size) : n.log2 ≤ 52 := by
  by_cases hn0 : n = 0
  · rw [hn0, Nat.log2_zero]
    decide
  · have hlt : n.log2 < 32 := (Nat.log2_lt hn0).mpr hn
    omega

theorem toNat_ofNat_of_lt_size (hn : n < UInt32.size) : (UInt64.ofNat n).toNat = n :=
  UInt64.toNat_ofNat_of_lt (Nat.lt_trans hn (by decide))

/-- Integers of 32 bits are told apart as floats. -/
theorem toFloat_inj_of_lt_size {n k : UInt64} (hn : n.toNat < UInt32.size)
    (hk : k.toNat < UInt32.size) :
    n.toFloat = k.toFloat ↔ n = k := by
  constructor
  · intro h
    have hbits := congrArg (fun x : Float => x.toModel.toBits.toBitVec) h
    exact UInt64.toNat_inj.mp (eq_of_pack_eq (log2_le_of_lt_size hn) (log2_le_of_lt_size hk) hbits)
  · exact congrArg _

theorem isFinite_unpack {b : BitVec Format.binary64.numBits} (h : unpackExponent b ≠ -1#_) :
    (UnpackedFloat.unpack .binary64 b).isFinite = true := by
  unfold UnpackedFloat.unpack
  rw [if_neg h]
  by_cases hexponent : unpackExponent b = 0#_
  · rw [if_pos hexponent]
    by_cases hmantissa : unpackMantissa b = 0#_
    · rw [dif_pos hmantissa]
      rfl
    · rw [dif_neg hmantissa]
      rfl
  · rw [if_neg hexponent]
    rfl

theorem isFinite_toFloat_of_lt_size {n : UInt64} (hn : n.toNat < UInt32.size) :
    n.toFloat.isFinite = true := by
  have hexponent :
      unpackExponent (UnpackedFloat.pack .binary64 (UnpackedFloat.ofNat .binary64 n.toNat)) ≠
        -1#_ := by
    intro h
    have htoNat := congrArg BitVec.toNat h
    by_cases hn0 : n.toNat = 0
    · rw [hn0, toNat_exponent_zero] at htoNat
      cases htoNat
    · rw [toNat_exponent hn0 (log2_le_of_lt_size hn)] at htoNat
      change _ = 2047 at htoNat
      have := log2_le_of_lt_size hn
      omega
  exact isFinite_unpack hexponent

end KeywordScript.Number
