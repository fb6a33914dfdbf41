import Milling.Number.Double
import Mathlib.Algebra.Group.Nat.Defs

/-!
# What a finite double looks like

The exact view of a double and the test for being finite come from different
sides: one takes the bits apart by arithmetic, the other asks the processor. They
agree, and a finite double has at most fifty-three digits in base two and an
exponent in a fixed range, which is all that exact statements about it need.

The processor itself takes a double apart into a sign, a significand and an
exponent before it computes, and packs the result again. Packing undoes taking
apart, and the parts are those of the exact view.
-/

namespace Milling.Double

open Float.Model (Format UnpackedFloat)
open Float.Model.UnpackedFloat

theorem toNat_unpackExponent (b : BitVec Float.Model.Format.binary64.numBits) :
    (Float.Model.UnpackedFloat.unpackExponent b).toNat =
      b.toNat / Nat.pow 2 52 % Nat.pow 2 11 := by
  simp only [Float.Model.UnpackedFloat.unpackExponent, BitVec.toNat_cast, BitVec.extractLsb_toNat,
    Nat.shiftRight_eq_div_pow, Nat.pow_eq]

/-- The processor's test for being finite looks at the field of the exponent only. -/
theorem isFinite_iff (x : Float) :
    x.isFinite ↔ x.toBits.toNat / Nat.pow 2 52 % Nat.pow 2 11 ≠ 2047 := by
  rw [← UInt64.toNat_toBitVec, ← toNat_unpackExponent]
  show (Float.Model.UnpackedFloat.unpack Float.Model.Format.binary64
    x.toBits.toBitVec).isFinite = true ↔ _
  unfold Float.Model.UnpackedFloat.unpack
  dsimp only
  generalize @Float.Model.UnpackedFloat.unpackExponent Float.Model.Format.binary64
    x.toBits.toBitVec = field
  have hfield : field = -1#11 ↔ field.toNat = 2047 := by
    rw [← BitVec.toNat_inj]
    rfl
  -- all ones stand for what is not finite, all zeros for the numbers nearest to zero
  by_cases hones : field = -1#11
  · have hout : ¬ field.toNat ≠ 2047 := fun hne => hne (hfield.mp hones)
    rw [if_pos hones]
    refine ⟨fun hc => absurd hc ?_, fun hne => absurd hne hout⟩
    by_cases hfraction : @Float.Model.UnpackedFloat.unpackMantissa
        Float.Model.Format.binary64 x.toBits.toBitVec = 0#52
    · rw [if_pos hfraction]
      exact Bool.false_ne_true
    · rw [if_neg hfraction]
      exact Bool.false_ne_true
  · have hne : field.toNat ≠ 2047 := fun hc => hones (hfield.mpr hc)
    rw [if_neg hones]
    refine ⟨fun _ => hne, fun _ => ?_⟩
    by_cases hzeros : field = 0#11
    · rw [if_pos hzeros]
      by_cases hfraction : @Float.Model.UnpackedFloat.unpackMantissa
          Float.Model.Format.binary64 x.toBits.toBitVec = 0#52
      · rw [dif_pos hfraction]
        rfl
      · rw [dif_neg hfraction]
        rfl
    · rw [if_neg hzeros]
      rfl

/-- A finite double has a sign, a significand of fifty-three bits and an exponent in range. -/
theorem view_finite {x : Float} (h : x.isFinite) : ∃ negative significand exponent,
    view x = .finite negative significand exponent ∧ significand < 2 ^ 53 ∧
      -1074 ≤ exponent ∧ exponent ≤ 971 := by
  have hfield := (isFinite_iff x).mp h
  have hfraction : x.toBits.toNat % Nat.pow 2 52 < 2 ^ 52 := Nat.mod_lt _ (by decide)
  have hmax : x.toBits.toNat / Nat.pow 2 52 % Nat.pow 2 11 < 2048 := Nat.mod_lt _ (by decide)
  unfold view
  dsimp only
  rw [if_neg hfield]
  split
  · exact ⟨_, _, _, rfl, by omega, by omega, by omega⟩
  · exact ⟨_, _, _, rfl, by simp only [Nat.pow_eq] at *; omega, by omega, by omega⟩

theorem view_not_finite {x : Float} (h : ¬ x.isFinite) :
    view x = .nan ∨ ∃ negative, view x = .infinite negative := by
  by_cases hfield : x.toBits.toNat / Nat.pow 2 52 % Nat.pow 2 11 = 2047
  · unfold view
    dsimp only
    rw [if_pos hfield]
    split
    · exact .inr ⟨_, rfl⟩
    · exact .inl rfl
  · exact absurd ((isFinite_iff x).mpr hfield) h

theorem isFinite_of_view {x : Float} {negative : Bool} {m : ℕ} {e : ℤ}
    (h : view x = .finite negative m e) : x.isFinite := by
  by_cases hfinite : x.isFinite
  · exact hfinite
  · rcases view_not_finite hfinite with hview | ⟨_, hview⟩
    · rw [hview] at h
      cases h
    · rw [hview] at h
      cases h

/-! ## The parts that the processor computes with -/

theorem toNat_unpackMantissa (b : BitVec Format.binary64.numBits) :
    (unpackMantissa b).toNat = b.toNat % Nat.pow 2 52 := by
  simp only [unpackMantissa, BitVec.toNat_cast, BitVec.extractLsb_toNat, Nat.shiftRight_zero,
    Nat.pow_eq]

theorem toNat_unpackSign (b : BitVec Format.binary64.numBits) :
    (unpackSign b).toNat = b.toNat / Nat.pow 2 63 := by
  unfold unpackSign
  simp only [BitVec.toNat_cast, BitVec.extractLsb_toNat, Nat.shiftRight_eq_div_pow, Nat.pow_eq]
  have := b.isLt
  simp only [Format.numBits] at this
  omega

theorem toNat_packComponents (sign : Sign) (exponent : BitVec 11) (fraction : BitVec 52) :
    (packComponents Format.binary64 sign exponent fraction).toNat =
      (sign.toBitVec.toNat * 2 ^ 11 + exponent.toNat) * 2 ^ 52 + fraction.toNat := by
  rw [packComponents, BitVec.toNat_append, BitVec.toNat_append,
    ← Nat.shiftLeft_add_eq_or_of_lt exponent.isLt, ← Nat.shiftLeft_add_eq_or_of_lt fraction.isLt,
    Nat.shiftLeft_eq, Nat.shiftLeft_eq]

theorem packComponents_unpack (b : BitVec Format.binary64.numBits) :
    packComponents Format.binary64 (Sign.ofBitVec (unpackSign b)) (unpackExponent b)
      (unpackMantissa b) = b := by
  have hsign : (Sign.ofBitVec (unpackSign b)).toBitVec = unpackSign b := by
    generalize unpackSign b = s
    revert s
    decide
  apply BitVec.eq_of_toNat_eq
  have := b.isLt
  rw [toNat_packComponents, hsign, toNat_unpackSign, toNat_unpackExponent, toNat_unpackMantissa]
  simp only [Nat.pow_eq]
  omega

theorem toNat_implicit (v : BitVec 52) : (1#1 ++ v).toNat = 2 ^ 52 + v.toNat := by
  rw [BitVec.toNat_append, ← Nat.shiftLeft_add_eq_or_of_lt v.isLt]
  simp [Nat.shiftLeft_eq]


/-- A finite pattern of bits is what its parts pack to. -/
theorem pack_unpack {b : BitVec Format.binary64.numBits} (h : unpackExponent b ≠ -1#11) :
    pack Format.binary64 (unpack Format.binary64 b) = b := by
  have hparts := packComponents_unpack b
  have hfraction : (unpackMantissa b).toNat < 2 ^ 52 := (unpackMantissa b).isLt
  have hfield : (unpackExponent b).toNat ≠ 2047 := fun hc => h (BitVec.toNat_inj.mp hc)
  have hmax : (unpackExponent b).toNat < 2048 := (unpackExponent b).isLt
  unfold unpack
  dsimp only
  rw [if_neg h]
  by_cases hzeros : unpackExponent b = 0#11
  · rw [if_pos hzeros]
    rw [hzeros] at hparts
    by_cases hnone : unpackMantissa b = 0#52
    · rw [dif_pos hnone]
      rw [hnone] at hparts
      exact hparts
    · -- a number below the normal ones has no leading bit to hide
      rw [dif_neg hnone, hzeros]
      have hlog : ¬ (unpackMantissa b).toNat.log2 + 1 = Format.binary64.mantissaBits := by
        have hpos : (unpackMantissa b).toNat ≠ 0 := fun hc => hnone (BitVec.toNat_inj.mp hc)
        have := (Nat.log2_lt hpos).mpr hfraction
        show ¬ _ = 53
        omega
      unfold pack
      dsimp only
      rw [if_neg (by decide), if_neg hlog, BitVec.ofNat_toNat, BitVec.setWidth_eq]
      exact hparts
  · rw [if_neg hzeros]
    have hbiased : (((unpackExponent b).toNat : ℤ) -
        (Format.binary64.exponentBias + Format.binary64.mantissaBitsWithoutImplicit) +
        Format.binary64.exponentBias + Format.binary64.mantissaBitsWithoutImplicit).toNat =
        (unpackExponent b).toNat := by
      omega
    have hlog : (1#1 ++ unpackMantissa b).toNat.log2 + 1 = Format.binary64.mantissaBits := by
      rw [toNat_implicit]
      show _ = 52 + 1
      rw [Nat.add_right_cancel_iff, Nat.log2_eq_iff (by omega)]
      omega
    show (if 2 ^ 11 ≤ (_ : ℤ).toNat + 1 then _ else _) = b
    rw [hbiased, if_neg (by omega), if_pos hlog, toNat_implicit, BitVec.ofNat_toNat,
      BitVec.setWidth_eq]
    have hhidden : BitVec.ofNat 52 (2 ^ 52 + (unpackMantissa b).toNat) = unpackMantissa b := by
      apply BitVec.eq_of_toNat_eq
      rw [BitVec.toNat_ofNat]
      omega
    rw [hhidden]
    exact hparts

theorem toBits_ofBits {bits : UInt64} (h : bits.toNat / Nat.pow 2 52 % Nat.pow 2 11 ≠ 2047) :
    (Float.ofBits bits).toBits = bits := by
  rw [← UInt64.toNat_toBitVec, ← toNat_unpackExponent] at h
  show UInt64.ofBitVec (pack Format.binary64 (unpack Format.binary64 bits.toBitVec)) = bits
  rw [pack_unpack (b := bits.toBitVec) fun hc => h (by rw [hc]; rfl)]

/-- A sign as the processor has it. -/
def sign (negative : Bool) : Sign := if negative then .negative else .positive

theorem sign_neg (negative : Bool) : -sign negative = sign !negative := by
  cases negative with
  | false => rfl
  | true => rfl

theorem toNat_sign (negative : Bool) : (sign negative).toBitVec.toNat = negative.toNat := by
  cases negative with
  | false => rfl
  | true => rfl

theorem ofBitVec_unpackSign (b : BitVec Format.binary64.numBits) :
    Sign.ofBitVec (unpackSign b) = sign (Nat.pow 2 63 ≤ b.toNat) := by
  have hbit := toNat_unpackSign b
  have hlt := b.isLt
  simp only [Format.numBits, Nat.pow_eq] at hlt hbit ⊢
  rw [Sign.ofBitVec, sign]
  by_cases hlarge : 2 ^ 63 ≤ b.toNat
  · have hone : ¬ unpackSign b = 0#1 := by
      intro hzero
      rw [hzero, BitVec.toNat_ofNat] at hbit
      omega
    rw [if_neg hone, if_pos (decide_eq_true hlarge)]
  · have hzero : unpackSign b = 0#1 := by
      apply BitVec.eq_of_toNat_eq
      rw [hbit, BitVec.toNat_ofNat]
      omega
    rw [if_pos hzero, if_neg (by simpa using hlarge)]

/-- The parts of a double that is not zero are the ones that the processor computes with. -/
theorem unpack_of_view {x : Float} {negative : Bool} {m : ℕ} {e : ℤ}
    (h : view x = .finite negative m e) :
    (m = 0 ∧ x.toModel.unpack = .zero (sign negative)) ∨
      (2 ^ 52 ≤ m ∨ e = -1074) ∧ ∃ hm, x.toModel.unpack = .finite (sign negative) m e hm := by
  have hfraction := toNat_unpackMantissa x.toBits.toBitVec
  have hfield := toNat_unpackExponent x.toBits.toBitVec
  have hsign := ofBitVec_unpackSign x.toBits.toBitVec
  rw [UInt64.toNat_toBitVec] at hfraction hfield hsign
  unfold view at h
  dsimp only at h
  rw [← hfraction, ← hfield] at h
  show (_ ∧ unpack Format.binary64 x.toBits.toBitVec = _) ∨
    _ ∧ ∃ hm, unpack Format.binary64 x.toBits.toBitVec = _
  unfold unpack
  dsimp only
  rw [hsign]
  have hones : @unpackExponent Format.binary64 x.toBits.toBitVec = -1#11 ↔
      (@unpackExponent Format.binary64 x.toBits.toBitVec).toNat = 2047 := by
    rw [← BitVec.toNat_inj]
    rfl
  have hzeros : @unpackExponent Format.binary64 x.toBits.toBitVec = 0#11 ↔
      (@unpackExponent Format.binary64 x.toBits.toBitVec).toNat = 0 := by
    rw [← BitVec.toNat_inj]
    rfl
  by_cases htop : (@unpackExponent Format.binary64 x.toBits.toBitVec).toNat = 2047
  · rw [if_pos htop] at h
    split at h <;> cases h
  · rw [if_neg htop] at h
    rw [if_neg (mt hones.mp htop)]
    by_cases hlow : (@unpackExponent Format.binary64 x.toBits.toBitVec).toNat = 0
    · rw [if_pos hlow] at h
      cases h
      rw [if_pos (hzeros.mpr hlow)]
      by_cases hnone : @unpackMantissa Format.binary64 x.toBits.toBitVec = 0#52
      · rw [dif_pos hnone]
        exact .inl ⟨by rw [hnone]; rfl, rfl⟩
      · rw [dif_neg hnone]
        have hpos : 0 < (@unpackMantissa Format.binary64 x.toBits.toBitVec).toNat :=
          Nat.pos_of_ne_zero fun hc => hnone (BitVec.toNat_inj.mp hc)
        refine .inr ⟨.inr rfl, hpos, ?_⟩
        congr 1
        rw [hlow]
        rfl
    · rw [if_neg hlow] at h
      cases h
      rw [if_neg (mt hzeros.mp hlow)]
      have hpos : 0 < Nat.pow 2 52 + (@unpackMantissa Format.binary64 x.toBits.toBitVec).toNat :=
        Nat.lt_of_lt_of_le (by decide) (Nat.le_add_right _ _)
      refine .inr ⟨.inl (Nat.le_add_right _ _), hpos, ?_⟩
      congr 1
      exact toNat_implicit _

/-! ## The opposite of a double -/

/-- The view of a double whose parts are known. -/
theorem view_of_parts {x : Float} {negative : Bool} {exponent : BitVec 11} {fraction : BitVec 52}
    (h : x.toBits.toBitVec =
      packComponents Format.binary64 (sign negative) exponent fraction) :
    view x =
      if exponent.toNat = 2047 then
        if fraction.toNat = 0 then .infinite negative else .nan
      else if exponent.toNat = 0 then .finite negative fraction.toNat (-1074)
      else .finite negative (Nat.pow 2 52 + fraction.toNat) (exponent.toNat - 1075) := by
  have hbits := congrArg BitVec.toNat h
  rw [toNat_packComponents, toNat_sign, UInt64.toNat_toBitVec] at hbits
  have hexponent : exponent.toNat < 2 ^ 11 := exponent.isLt
  have hfraction : fraction.toNat < 2 ^ 52 := fraction.isLt
  have hsign : decide (Nat.pow 2 63 ≤ x.toBits.toNat) = negative := by
    cases negative with
    | false => simp only [Bool.toNat_false, Nat.pow_eq] at hbits ⊢; simp; omega
    | true => simp only [Bool.toNat_true, Nat.pow_eq] at hbits ⊢; simp; omega
  have hfield : x.toBits.toNat / Nat.pow 2 52 % Nat.pow 2 11 = exponent.toNat := by
    simp only [Nat.pow_eq]
    omega
  have hrest : x.toBits.toNat % Nat.pow 2 52 = fraction.toNat := by
    simp only [Nat.pow_eq]
    omega
  unfold view
  dsimp only
  rw [hsign, hfield, hrest]

/-- What is packed with the opposite sign has the same parts besides. -/
theorem pack_neg_finite (s : Sign) (m : ℕ) (e : ℤ) (hm : 0 < m) : ∃ exponent fraction,
    pack Format.binary64 (.finite s m e hm) = packComponents Format.binary64 s exponent fraction ∧
      pack Format.binary64 (.finite (-s) m e hm) =
        packComponents Format.binary64 (-s) exponent fraction := by
  unfold pack
  dsimp only
  split
  · exact ⟨_, _, rfl, rfl⟩
  · split
    · exact ⟨_, _, rfl, rfl⟩
    · exact ⟨_, _, rfl, rfl⟩

/-- **The opposite of a double differs from it in the sign only.** -/
theorem view_neg {x : Float} {negative : Bool} {m : ℕ} {e : ℤ}
    (h : view x = .finite negative m e) : view (-x) = .finite (!negative) m e := by
  have hfield := (isFinite_iff x).mp (isFinite_of_view h)
  rw [← UInt64.toNat_toBitVec, ← toNat_unpackExponent] at hfield
  have hparts : ∃ exponent fraction,
      x.toBits.toBitVec = packComponents Format.binary64 (sign negative) exponent fraction ∧
        (-x).toBits.toBitVec =
          packComponents Format.binary64 (sign !negative) exponent fraction := by
    have hopposite : (-x).toBits.toBitVec = pack Format.binary64 x.toModel.unpack.neg := rfl
    have hsame : x.toBits.toBitVec = pack Format.binary64 x.toModel.unpack :=
      (pack_unpack (b := x.toBits.toBitVec) fun hc => hfield (by rw [hc]; rfl)).symm
    rw [hopposite, hsame, ← sign_neg]
    rcases unpack_of_view h with ⟨-, hzero⟩ | ⟨-, hm, hunpack⟩
    · rw [hzero]
      exact ⟨_, _, rfl, rfl⟩
    · rw [hunpack]
      exact pack_neg_finite _ m e hm
  obtain ⟨exponent, fraction, hx, hneg⟩ := hparts
  rw [view_of_parts hx] at h
  rw [view_of_parts hneg]
  split at h
  · split at h <;> cases h
  · rename_i htop
    rw [if_neg htop]
    split at h
    · rename_i hlow
      rw [if_pos hlow]
      cases h
      rfl
    · rename_i hlow
      rw [if_neg hlow]
      cases h
      rfl

end Milling.Double
