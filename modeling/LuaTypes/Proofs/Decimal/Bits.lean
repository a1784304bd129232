import LuaTypes.Proofs.Decimal.Rounding

/-!
The bits of binary numbers. A finite number is packed into the fields that it has been taken from.
-/

namespace LuaTypes.Decimal

open Float.Model Float.Model.UnpackedFloat

def signBit (negative : Bool) : Sign :=
  if negative then .negative else .positive

theorem toNat_toBitVec (negative : Bool) : (signBit negative).toBitVec.toNat = negative.toNat := by
  cases negative <;> rfl

theorem toNat_packComponents (negative : Bool) (exponent : BitVec 11) (fraction : BitVec 52)
    : (packComponents Format.binary64 (signBit negative) exponent fraction).toNat
        =
      negative.toNat * (0x800 * Binary.leading) + exponent.toNat * Binary.leading + fraction.toNat := by
  unfold packComponents
  simp only [BitVec.toNat_append, toNat_toBitVec]
  have hexponent := exponent.isLt
  have hfraction := fraction.isLt
  rw [← Nat.shiftLeft_add_eq_or_of_lt hexponent, ← Nat.shiftLeft_add_eq_or_of_lt hfraction]
  simp only [Nat.shiftLeft_eq, Binary.leading]
  omega

def biased (m : Nat) (q : Int) : Nat :=
  if Binary.leading ≤ m then (q + 1075).toNat else 0

variable {m : Nat} {q : Int}

theorem log2_of_leading_le (h : Canonical m q) (hm : Binary.leading ≤ m) : m.log2 = 52 := by
  have := log2_eq (m := m) (k := 0) (by simpa using hm) (by simpa using h.lt)
  omega

theorem log2_of_lt_leading (h : Canonical m q) (hm : m < Binary.leading) : m.log2 < 52 :=
  (Nat.log2_lt (Nat.ne_of_gt h.pos)).mpr hm

theorem pack_finite (h : Canonical m q) (sign : Sign)
    : UnpackedFloat.pack Format.binary64 (.finite sign m q h.pos)
        =
      packComponents Format.binary64 sign (BitVec.ofNat 11 (biased m q)) (BitVec.ofNat 52 m) := by
  have hgreatest := h.greatest
  have hleast := h.least
  have hbias : Format.binary64.exponentBias = 1023 := rfl
  have hbits : Format.binary64.mantissaBits = 53 := rfl
  unfold UnpackedFloat.pack biased
  dsimp only
  rw [if_neg (by rw [hbias]; omega)]
  by_cases hm : Binary.leading ≤ m
  · have hlog := log2_of_leading_le h hm
    rw [if_pos hm, if_pos (by omega), hbias]
    congr 2
    omega
  · have hlog := log2_of_lt_leading h (Nat.lt_of_not_le hm)
    rw [if_neg hm, if_neg (by omega)]

theorem biased_lt (h : Canonical m q) : biased m q < 0x7FF := by
  have hgreatest := h.greatest
  unfold biased
  split <;> omega

theorem unpackSign_packComponents (negative : Bool) (exponent : BitVec 11) (fraction : BitVec 52)
    : unpackSign (packComponents Format.binary64 (signBit negative) exponent fraction)
        =
      (signBit negative).toBitVec := by
  apply BitVec.eq_of_toNat_eq
  unfold unpackSign
  rw [BitVec.toNat_cast, BitVec.extractLsb_toNat, toNat_packComponents, toNat_toBitVec]
  have hexponent := exponent.isLt
  have hfraction := fraction.isLt
  simp only [Nat.shiftRight_eq_div_pow, Binary.leading]
  cases negative
  · simp only [Bool.toNat_false]
    omega
  · simp only [Bool.toNat_true]
    omega

section Unpack

variable {bits : BitVec Format.binary64.numBits} {sign : Sign} {exponent : BitVec 11} {fraction : BitVec 52}

theorem unpack_normal (hsign : Sign.ofBitVec (unpackSign bits) = sign)
    (hexponent : unpackExponent bits = exponent) (hfraction : unpackMantissa bits = fraction)
    (hones : exponent ≠ -1#11) (hzero : exponent ≠ 0#11) (hm : (1#1 ++ fraction).toNat = m)
    (hq : (exponent.toNat : Int) - (1023 + 52) = q) (hpos : 0 < m)
    : UnpackedFloat.unpack Format.binary64 bits = .finite sign m q hpos := by
  subst hsign hexponent hfraction hm hq
  exact (if_neg hones).trans (if_neg hzero)

theorem unpack_subnormal (hsign : Sign.ofBitVec (unpackSign bits) = sign)
    (hexponent : unpackExponent bits = exponent) (hfraction : unpackMantissa bits = fraction)
    (hzero : exponent = 0#11) (hne : fraction ≠ 0#52) (hm : fraction.toNat = m)
    (hq : (exponent.toNat : Int) - (1023 + 52) + 1 = q) (hpos : 0 < m)
    : UnpackedFloat.unpack Format.binary64 bits = .finite sign m q hpos := by
  subst hsign hexponent hfraction hm hq
  have hones : unpackExponent bits ≠ -1#11 := by
    rw [hzero]
    decide
  exact ((if_neg hones).trans (if_pos hzero)).trans (dif_neg hne)

end Unpack

theorem unpack_pack_finite (h : Canonical m q) (negative : Bool)
    : UnpackedFloat.unpack Format.binary64
        (UnpackedFloat.pack Format.binary64 (.finite (signBit negative) m q h.pos))
        =
      .finite (signBit negative) m q h.pos := by
  have hbiased := biased_lt h
  have hlt := h.lt
  have hleast := h.least
  have hexponent : (BitVec.ofNat 11 (biased m q)).toNat = biased m q := by
    rw [BitVec.toNat_ofNat, Nat.mod_eq_of_lt (by omega)]
  have hfraction : (BitVec.ofNat 52 m).toNat = m % Binary.leading := BitVec.toNat_ofNat m 52
  have hsign : Sign.ofBitVec (signBit negative).toBitVec = signBit negative := by
    cases negative <;> rfl
  have hones : BitVec.ofNat 11 (biased m q) ≠ -1#11 := by
    intro heq
    have := congrArg BitVec.toNat heq
    rw [hexponent] at this
    have hones : (-1#11).toNat = 0x7FF := rfl
    omega
  have hzero : BitVec.ofNat 11 (biased m q) = 0#11 ↔ biased m q = 0 := by
    rw [← BitVec.toNat_inj, hexponent]
    rfl
  rw [pack_finite h]
  rw [← unpackSign_packComponents] at hsign
  -- From `leading` on the mantissa has its leading bit, which is not stored; below it the number is subnormal.
  by_cases hm : Binary.leading ≤ m
  · have hq : biased m q = (q + 1075).toNat := if_pos hm
    have hmantissa : (1#1 ++ BitVec.ofNat 52 m).toNat = m := by
      have hlower : m % Binary.leading < 2 ^ 52 := Nat.mod_lt _ (by decide)
      have hone : (1#1).toNat = 1 := rfl
      rw [BitVec.toNat_append, hfraction, ← Nat.shiftLeft_add_eq_or_of_lt hlower, hone, Nat.shiftLeft_eq]
      unfold Binary.leading at hm hlt ⊢
      omega
    refine unpack_normal hsign (unpackExponent_packComponents ..) (unpackMantissa_packComponents ..)
      hones ?_ hmantissa ?_ h.pos
    · rw [Ne, hzero]
      omega
    · rw [hexponent]
      omega
  · have hq : biased m q = 0 := if_neg hm
    have hleast : q = -1074 := by
      have := h.least
      have := h.normal
      omega
    have hmantissa : m % Binary.leading = m := Nat.mod_eq_of_lt (Nat.lt_of_not_le hm)
    have hne : BitVec.ofNat 52 m ≠ 0#52 := by
      intro heq
      have := congrArg BitVec.toNat heq
      rw [hfraction, hmantissa] at this
      exact Nat.ne_of_gt h.pos this
    refine unpack_subnormal hsign (unpackExponent_packComponents ..) (unpackMantissa_packComponents ..)
      (hzero.mpr hq) hne (hfraction.trans hmantissa) ?_ h.pos
    rw [hexponent]
    omega

theorem toNat_toBits (x : Float)
    : x.toBits.toNat
        =
      (Binary.ofFloat x).negative.toNat * (0x800 * Binary.leading) +
        (Binary.ofFloat x).exponent * Binary.leading + (Binary.ofFloat x).fraction := by
  have hlt := x.toBits.toNat_lt
  simp only [Binary.ofFloat, Binary.leading]
  by_cases hsign : x.toBits.toNat / (0x800 * 0x10000000000000) % 2 = 1
  · simp only [hsign, decide_true, Bool.toNat_true]
    omega
  · simp only [hsign, decide_false, Bool.toNat_false]
    omega

theorem eq_of_toBits_eq {x y : Float} (h : x.toBits.toNat = y.toBits.toNat) : x = y := by
  obtain ⟨⟨a, ha⟩⟩ := x
  obtain ⟨⟨b, hb⟩⟩ := y
  have hab : a = b := UInt64.toNat_inj.mp h
  subst hab
  rfl

theorem Binary.fraction_lt (x : Float) : (ofFloat x).fraction < leading :=
  Nat.mod_lt _ (by decide)

theorem Binary.exponent_lt (x : Float) : (ofFloat x).exponent < 0x800 :=
  Nat.mod_lt _ (by decide)

theorem canonical_ofFloat {x : Float} (hfinite : (Binary.ofFloat x).isFinite)
    (hzero : (Binary.ofFloat x).significand ≠ 0)
    : Canonical (Binary.ofFloat x).significand (Binary.ofFloat x).scale := by
  have hfraction := Binary.fraction_lt x
  have hexponent := Binary.exponent_lt x
  simp only [Binary.isFinite, decide_eq_true_eq] at hfinite
  simp only [Binary.significand, Binary.scale] at hzero ⊢
  split at hzero
  · rename_i hsubnormal
    constructor <;> simp only [hsubnormal, ↓reduceIte] <;> omega
  · rename_i hnormal
    constructor <;> simp only [hnormal, ↓reduceIte] <;> omega

theorem toBits_ofModel_pack (u : UnpackedFloat)
    : (Float.ofModel (.pack u)).toBits.toNat = (UnpackedFloat.pack Format.binary64 u).toNat :=
  rfl

theorem ofModel_pack_finite {x : Float} (hfinite : (Binary.ofFloat x).isFinite)
    (hzero : (Binary.ofFloat x).significand ≠ 0)
    : Float.ofModel (.pack (.finite (signBit (Binary.ofFloat x).negative) (Binary.ofFloat x).significand
        (Binary.ofFloat x).scale (Nat.pos_of_ne_zero hzero))) = x := by
  have hcanonical := canonical_ofFloat hfinite hzero
  have hfraction := Binary.fraction_lt x
  have hexponent := Binary.exponent_lt x
  have hleading : 0 < Binary.leading := by decide
  apply eq_of_toBits_eq
  rw [toNat_toBits x, toBits_ofModel_pack, pack_finite hcanonical, toNat_packComponents,
    BitVec.toNat_ofNat, BitVec.toNat_ofNat]
  have hstored : biased (Binary.ofFloat x).significand (Binary.ofFloat x).scale
      = (Binary.ofFloat x).exponent := by
    unfold biased Binary.significand Binary.scale
    split <;> split <;> omega
  have hlower : (Binary.ofFloat x).significand % 2 ^ 52 = (Binary.ofFloat x).fraction := by
    unfold Binary.significand
    unfold Binary.leading at hfraction ⊢
    split <;> omega
  rw [hstored, hlower, Nat.mod_eq_of_lt hexponent]

theorem neg_ofModel_pack (h : Canonical m q)
    : -(Float.ofModel (.pack (.finite .positive m q h.pos)))
        =
      Float.ofModel (.pack (.finite .negative m q h.pos)) := by
  have hunpack : (Float.Model.pack (.finite .positive m q h.pos)).unpack = .finite .positive m q h.pos :=
    unpack_pack_finite h false
  show Float.ofModel (.pack (Float.Model.pack (.finite .positive m q h.pos)).unpack.neg) = _
  rw [hunpack]
  rfl

end LuaTypes.Decimal
