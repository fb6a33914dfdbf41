import Milling.Proofs.Sums

/-!
# Rounded sums

The sum of two doubles is rounded, and two large doubles may lose all of a small one. What
rounding never does is to step over a double: none lies strictly between the exact sum and
the rounded one. So what is added to a number never moves it to the wrong side.
-/

namespace Milling.Double

open Float.Model (Format UnpackedFloat)
open Float.Model.UnpackedFloat

/-! ## Rounding on a place -/

section Rounding

variable {m : ℕ} {e : ℤ}

/-- The last place that is left of a number when it is rounded. -/
def roundingPlace (m : ℕ) (e : ℤ) : ℤ := max ((m.log2 : ℤ) + 1 + e - 53) (-1074)

/-- A number rounded on a place: nothing that fits on the place lies between the two. -/
structure RoundedOn (q : ℚ) (place : ℤ) (r : ℕ) : Prop where
  le_of_le : ∀ k : ℕ, (k : ℚ) * 2 ^ place ≤ q → k ≤ r
  ge_of_ge : ∀ k : ℕ, q ≤ (k : ℚ) * 2 ^ place → r ≤ k

theorem mantissa_le_roundedMantissa (em : ExtendedMantissa) :
    em.mantissa ≤ em.roundedMantissa := by
  obtain ⟨mantissa, _ | _, _ | _⟩ := em
  · exact Nat.le_refl _
  · exact Nat.le_refl _
  · exact Nat.le_add_right _ _
  · exact Nat.le_succ _

theorem roundedOn_shiftRight (m n : ℕ) (e : ℤ) :
    RoundedOn (m * 2 ^ e) (e + n)
      (ExtendedMantissa.ofMantissaAndAccuracy m .exact >>> n).roundedMantissa := by
  have hlow := mantissa_le_roundedMantissa (ExtendedMantissa.ofMantissaAndAccuracy m .exact >>> n)
  have hhigh := rounded_le m n
  rw [mantissa_shiftRight] at hlow
  generalize (ExtendedMantissa.ofMantissaAndAccuracy m .exact >>> n).roundedMantissa = r at *
  have hlow : m / 2 ^ n ≤ r := hlow
  have hpos : 0 < 2 ^ n := Nat.pow_pos (by decide)
  have hunit : (0 : ℚ) < 2 ^ e := by positivity
  have hplace : ∀ k : ℕ, (k : ℚ) * 2 ^ (e + n) = (k * 2 ^ n : ℕ) * 2 ^ e := by
    intro k
    rw [zpow_add₀ (by norm_num), zpow_natCast]
    push_cast
    ring
  constructor
  · intro k hk
    rw [hplace, mul_le_mul_iff_left₀ hunit, Nat.cast_le] at hk
    exact ((Nat.le_div_iff_mul_le hpos).mpr hk).trans hlow
  · intro k hk
    rw [hplace, mul_le_mul_iff_left₀ hunit, Nat.cast_le] at hk
    -- less than a whole unit of the place is added
    have hless : r * 2 ^ n < (k + 1) * 2 ^ n := by
      rw [Nat.add_mul, Nat.one_mul]
      omega
    exact Nat.le_of_lt_succ (Nat.lt_of_mul_lt_mul_right hless)

/-- The exact number that some parts stand for. What is not finite stands for none. -/
def exact : UnpackedFloat → ℚ
  | .finite sign m e _ => (sign.apply m : ℤ) * 2 ^ e
  | _ => 0

theorem exact_zero (s : Sign) : exact (.zero s) = 0 := rfl

theorem exact_finite (s : Sign) {m : ℕ} (e : ℤ) (hm : 0 < m) :
    exact (.finite s m e hm) = (s.apply m : ℤ) * 2 ^ e := rfl

/-- Parts that a double can have, but for an exponent that may be too large. -/
def Sound : UnpackedFloat → Prop
  | .finite _ m e _ => m < 2 ^ 53 ∧ -1074 ≤ e ∧ (2 ^ 52 ≤ m ∨ e = -1074)
  | _ => True

theorem lt_zpow_roundingPlace (m : ℕ) (e : ℤ) :
    (m : ℚ) * 2 ^ e < 2 ^ 53 * 2 ^ roundingPlace m e := by
  have hlog : (m : ℚ) < 2 ^ (m.log2 + 1) := by exact_mod_cast Nat.lt_log2_self
  calc (m : ℚ) * 2 ^ e < 2 ^ (m.log2 + 1) * 2 ^ e := by gcongr
    _ = 2 ^ (((m.log2 + 1 : ℕ) : ℤ) + e) := by rw [zpow_add₀ (by norm_num), zpow_natCast]
    _ ≤ 2 ^ ((53 : ℕ) + roundingPlace m e) := by
        refine zpow_le_zpow_right₀ (by norm_num) ?_
        rw [roundingPlace]
        omega
    _ = 2 ^ 53 * 2 ^ roundingPlace m e := by rw [zpow_add₀ (by norm_num), zpow_natCast]

/-- A number has its leading digit fifty-two places above the last, unless that is the least. -/
theorem zpow_roundingPlace_le (hm : 0 < m) :
    roundingPlace m e = -1074 ∨ (2 : ℚ) ^ 52 * 2 ^ roundingPlace m e ≤ m * 2 ^ e := by
  by_cases hleast : (m.log2 : ℤ) + 1 + e - 53 ≤ -1074
  · exact .inl (max_eq_right hleast)
  · have hlog : (2 : ℚ) ^ m.log2 ≤ m := by exact_mod_cast Nat.log2_self_le (Nat.ne_of_gt hm)
    have hplace : ((52 : ℕ) : ℤ) + roundingPlace m e = m.log2 + e := by
      rw [roundingPlace]
      omega
    refine .inr ?_
    calc (2 : ℚ) ^ 52 * 2 ^ roundingPlace m e = 2 ^ m.log2 * 2 ^ e := by
          rw [← zpow_natCast, ← zpow_natCast, ← zpow_add₀ (by norm_num), ← zpow_add₀ (by norm_num),
            hplace]
      _ ≤ m * 2 ^ e := by gcongr

/-- A significand that fits is not shifted any more. -/
theorem shiftToTargetExponent_of_lt {r : ℕ} {place : ℤ} (hr : r < 2 ^ 53) (hplace : -1074 ≤ place) :
    shiftToTargetExponent Format.binary64 r place .exact = (⟨r, false, false⟩, place) := by
  have hlog : r.log2 ≤ 52 := by
    by_cases hzero : r = 0
    · simp [hzero]
    · exact Nat.le_of_lt_succ ((Nat.log2_lt hzero).mpr hr)
  have hshift : (max ((r.log2 : ℤ) + 1 + place - 53) (-1074) - place).toNat = 0 := by omega
  have hlast : max place (max ((r.log2 : ℤ) + 1 + place - 53) (-1074)) = place := by omega
  rw [shiftToTargetExponent_eq, hshift, hlast]
  rfl

/-- A carry into one more digit takes the last place with it. -/
theorem shiftToTargetExponent_carry {place : ℤ} (hplace : -1074 ≤ place) :
    shiftToTargetExponent Format.binary64 (2 ^ 53) place .exact =
      (⟨2 ^ 52, false, false⟩, place + 1) := by
  have hlog : (2 ^ 53 : ℕ).log2 = 53 := Nat.log2_two_pow
  have hshift : (max (((2 ^ 53 : ℕ).log2 : ℤ) + 1 + place - 53) (-1074) - place).toNat = 1 := by
    omega
  have hlast : max place (max (((2 ^ 53 : ℕ).log2 : ℤ) + 1 + place - 53) (-1074)) = place + 1 := by
    omega
  rw [shiftToTargetExponent_eq, hshift, hlast]
  rfl

/-- **What is rounded is rounded on its place**, and there it is a double. -/
theorem exists_roundedOn (hm : 0 < m) (he : e ≤ roundingPlace m e) : ∃ r : ℕ,
    RoundedOn (m * 2 ^ e) (roundingPlace m e) r ∧
      (roundingPlace m e = -1074 ∨ 2 ^ 52 ≤ r) ∧
      ∀ s : Sign, Sound (roundWithAccuracy Format.binary64 s m e .exact) ∧
        exact (roundWithAccuracy Format.binary64 s m e .exact) =
          (s.apply r : ℤ) * 2 ^ roundingPlace m e := by
  have hleast : -1074 ≤ roundingPlace m e := le_max_right _ _
  have hrounded := roundedOn_shiftRight m (roundingPlace m e - e).toNat e
  have hplace : e + ((roundingPlace m e - e).toNat : ℤ) = roundingPlace m e := by omega
  rw [hplace] at hrounded
  have hfirst : shiftToTargetExponent Format.binary64 m e .exact =
      (ExtendedMantissa.ofMantissaAndAccuracy m .exact >>> (roundingPlace m e - e).toNat,
        roundingPlace m e) := by
    rw [shiftToTargetExponent_eq, ← roundingPlace, max_eq_right he]
  have hmost := hrounded.ge_of_ge (2 ^ 53) (by
    push_cast
    exact (lt_zpow_roundingPlace m e).le)
  have hnormal := (zpow_roundingPlace_le (e := e) hm).imp_right fun hlow =>
    hrounded.le_of_le (2 ^ 52) (by push_cast; exact hlow)
  refine ⟨_, hrounded, hnormal, fun s => ?_⟩
  unfold roundWithAccuracy
  rw [hfirst]
  dsimp only
  generalize (ExtendedMantissa.ofMantissaAndAccuracy m .exact >>>
    (roundingPlace m e - e).toNat).roundedMantissa = r at *
  generalize roundingPlace m e = place at *
  rcases Nat.lt_or_eq_of_le hmost with hlt | rfl
  · rw [shiftToTargetExponent_of_lt hlt hleast]
    by_cases hzero : r = 0
    · rw [dif_pos hzero, hzero]
      refine ⟨trivial, ?_⟩
      rw [exact_zero]
      cases s <;> simp [Sign.apply]
    · rw [dif_neg hzero]
      exact ⟨⟨hlt, hleast, hnormal.symm⟩, rfl⟩
  · rw [shiftToTargetExponent_carry hleast, dif_neg (by norm_num)]
    refine ⟨⟨by norm_num, by omega, .inl (Nat.le_refl _)⟩, ?_⟩
    rw [exact_finite, zpow_add_one₀ (by norm_num)]
    cases s <;> simp [Sign.apply] <;> ring

theorem shiftLeft_mul_zpow (m k : ℕ) (e : ℤ) :
    ((m <<< k : ℕ) : ℚ) * 2 ^ (e - k) = m * 2 ^ e := by
  rw [Nat.shiftLeft_eq, zpow_sub₀ (by norm_num), zpow_natCast]
  push_cast
  field_simp

theorem log2_shiftLeft (hm : 0 < m) (k : ℕ) : (m <<< k).log2 = m.log2 + k := by
  have hpos : 0 < 2 ^ k := Nat.pow_pos (by decide)
  have hlow := Nat.log2_self_le (Nat.ne_of_gt hm)
  have hhigh := Nat.lt_log2_self (n := m)
  rw [Nat.shiftLeft_eq, Nat.log2_eq_iff (Nat.ne_of_gt (Nat.mul_pos hm hpos)), Nat.pow_add,
    Nat.add_right_comm, Nat.pow_add]
  exact ⟨Nat.mul_le_mul_right _ hlow, Nat.mul_lt_mul_of_pos_right hhigh hpos⟩

theorem exists_round_eq (hm : 0 < m) (e : ℤ) : ∃ r : ℕ,
    RoundedOn (m * 2 ^ e) (roundingPlace m e) r ∧
      (roundingPlace m e = -1074 ∨ 2 ^ 52 ≤ r) ∧
      ∀ s : Sign, Sound (round Format.binary64 s m e) ∧
        exact (round Format.binary64 s m e) = (s.apply r : ℤ) * 2 ^ roundingPlace m e := by
  obtain ⟨k, hk⟩ : ∃ k, k = (e - roundingPlace m e).toNat := ⟨_, rfl⟩
  have hround : ∀ s, round Format.binary64 s m e =
      roundWithAccuracy Format.binary64 s (m <<< k) (e - k) .exact := by
    intro s
    rw [hk]
    rfl
  have hpos : 0 < m <<< k := by
    rw [Nat.shiftLeft_eq]
    exact Nat.mul_pos hm (Nat.pow_pos (by decide))
  have hplace : roundingPlace (m <<< k) (e - k) = roundingPlace m e := by
    rw [roundingPlace, roundingPlace, log2_shiftLeft hm]
    omega
  have h := exists_roundedOn hpos (e := e - k) (by rw [hplace]; omega)
  simp only [hround]
  rwa [hplace, shiftLeft_mul_zpow] at h

/-- A number on a place, in units of a finer one. -/
theorem zpow_units {place j : ℤ} (h : place ≤ j) (k : ℕ) :
    (k : ℚ) * 2 ^ j = (k * 2 ^ (j - place).toNat : ℕ) * 2 ^ place := by
  push_cast
  rw [mul_assoc, ← zpow_natCast (2 : ℚ) (j - place).toNat, ← zpow_add₀ (by norm_num)]
  congr 2
  omega

/-- A double on a finer place is below all that has its leading digit on the coarser one. -/
theorem zpow_lt_of_lt {place j : ℤ} {k : ℕ} (hk : k < 2 ^ 53) (h : j < place) :
    (k : ℚ) * 2 ^ j < 2 ^ 52 * 2 ^ place := by
  calc (k : ℚ) * 2 ^ j < 2 ^ 53 * 2 ^ j := by
        gcongr
        exact_mod_cast hk
    _ = 2 ^ 52 * 2 ^ (j + 1) := by
        rw [zpow_add_one₀ (by norm_num)]
        ring
    _ ≤ 2 ^ 52 * 2 ^ place := by
        gcongr
        · norm_num
        · exact h

/-- **Rounding on a place steps over no double**, whatever its own place is. -/
theorem RoundedOn.magnitude_le_iff {r k : ℕ} {j : ℤ} (hm : 0 < m)
    (h : RoundedOn (m * 2 ^ e) (roundingPlace m e) r)
    (hnormal : roundingPlace m e = -1074 ∨ 2 ^ 52 ≤ r) (hk : k < 2 ^ 53) (hj : -1074 ≤ j) :
    ((k : ℚ) * 2 ^ j ≤ m * 2 ^ e → (k : ℚ) * 2 ^ j ≤ r * 2 ^ roundingPlace m e) ∧
      (m * 2 ^ e ≤ (k : ℚ) * 2 ^ j → (r : ℚ) * 2 ^ roundingPlace m e ≤ k * 2 ^ j) := by
  by_cases hcoarse : roundingPlace m e ≤ j
  · rw [zpow_units hcoarse]
    constructor
    · intro hle
      gcongr
      exact h.le_of_le _ hle
    · intro hle
      gcongr
      exact h.ge_of_ge _ hle
  · have hfine : j < roundingPlace m e := not_le.mp hcoarse
    have hless := zpow_lt_of_lt hk hfine
    have hplace : roundingPlace m e ≠ -1074 := by omega
    constructor
    · intro _
      have hr : (2 : ℚ) ^ 52 ≤ r := by exact_mod_cast hnormal.resolve_left hplace
      exact hless.le.trans (mul_le_mul_of_nonneg_right hr (by positivity))
    · intro hle
      have hlow := (zpow_roundingPlace_le hm).resolve_left hplace
      linarith

end Rounding

/-! ## Sums -/

/-- No double lies strictly between two exact numbers, nor on the far side of one only. -/
structure Adjacent (q r : ℚ) : Prop where
  le_of_le : ∀ x : Float, x.isFinite → value x ≤ q → value x ≤ r
  ge_of_ge : ∀ x : Float, x.isFinite → q ≤ value x → r ≤ value x

theorem Adjacent.refl (q : ℚ) : Adjacent q q := ⟨fun _ _ => id, fun _ _ => id⟩

theorem Adjacent.neg {q r : ℚ} (h : Adjacent q r) : Adjacent (-q) (-r) := by
  constructor
  · intro x hx hle
    have := h.ge_of_ge (-x) (isFinite_neg hx) (by rw [value_neg hx]; linarith)
    rw [value_neg hx] at this
    linarith
  · intro x hx hle
    have := h.le_of_le (-x) (isFinite_neg hx) (by rw [value_neg hx]; linarith)
    rw [value_neg hx] at this
    linarith

/-- A number above zero and its rounding. -/
theorem adjacent_of_roundedOn {m r : ℕ} {e : ℤ} (hm : 0 < m)
    (h : RoundedOn (m * 2 ^ e) (roundingPlace m e) r)
    (hnormal : roundingPlace m e = -1074 ∨ 2 ^ 52 ≤ r) :
    Adjacent (m * 2 ^ e) (r * 2 ^ roundingPlace m e) := by
  have hpos : (0 : ℚ) < m * 2 ^ e := by positivity
  have hrounded : (0 : ℚ) ≤ r * 2 ^ roundingPlace m e := by positivity
  constructor
  · intro x hx hle
    obtain ⟨negative, k, j, hview, hk, hj, -⟩ := view_finite hx
    rw [value_of_view hview] at hle ⊢
    cases negative with
    | false =>
        rw [if_neg (by decide), one_mul] at hle ⊢
        exact (h.magnitude_le_iff hm hnormal hk hj).1 hle
    | true =>
        have hvalue : (0 : ℚ) ≤ k * 2 ^ j := by positivity
        rw [if_pos rfl]
        linarith
  · intro x hx hle
    obtain ⟨negative, k, j, hview, hk, hj, -⟩ := view_finite hx
    rw [value_of_view hview] at hle ⊢
    cases negative with
    | false =>
        rw [if_neg (by decide), one_mul] at hle ⊢
        exact (h.magnitude_le_iff hm hnormal hk hj).2 hle
    | true =>
        have hvalue : (0 : ℚ) ≤ k * 2 ^ j := by positivity
        rw [if_pos rfl] at hle
        linarith

/-- A signed number is rounded by its magnitude. -/
theorem adjacent_normalize (n e : ℤ) (zeroSign : Sign) :
    Sound (UnpackedFloat.normalize Format.binary64 n e zeroSign) ∧
      Adjacent (n * 2 ^ e) (exact (UnpackedFloat.normalize Format.binary64 n e zeroSign)) := by
  rcases lt_trichotomy n 0 with hn | rfl | hn
  · obtain ⟨m, rfl⟩ : ∃ m : ℕ, n = -(m : ℤ) := ⟨(-n).toNat, by omega⟩
    have hm : 0 < m := by omega
    obtain ⟨r, hr, hnormal, hround⟩ := exists_round_eq hm e
    have hnormalize : UnpackedFloat.normalize Format.binary64 (-(m : ℤ)) e zeroSign =
        round Format.binary64 .negative m e := by
      rw [UnpackedFloat.normalize, compare_lt_iff_lt.mpr hn]
      simp
    have hadjacent := (adjacent_of_roundedOn hm hr hnormal).neg
    rw [hnormalize, (hround .negative).2]
    refine ⟨(hround .negative).1, ?_⟩
    simpa [Sign.apply] using hadjacent
  · have hnormalize : UnpackedFloat.normalize Format.binary64 0 e zeroSign = .zero zeroSign := rfl
    rw [hnormalize, Int.cast_zero, zero_mul]
    exact ⟨trivial, Adjacent.refl 0⟩
  · obtain ⟨m, rfl⟩ : ∃ m : ℕ, n = (m : ℤ) := ⟨n.toNat, by omega⟩
    have hm : 0 < m := by omega
    obtain ⟨r, hr, hnormal, hround⟩ := exists_round_eq hm e
    have hnormalize : UnpackedFloat.normalize Format.binary64 (m : ℤ) e zeroSign =
        round Format.binary64 .positive m e := by
      rw [UnpackedFloat.normalize, compare_gt_iff_gt.mpr hn]
      simp
    rw [hnormalize, (hround .positive).2]
    exact ⟨(hround .positive).1, adjacent_of_roundedOn hm hr hnormal⟩

/-! ## Packing -/

theorem not_isFinite_pack_infinity (s : Sign) :
    ¬(Float.ofModel (.pack (.infinity s))).isFinite := by
  cases s <;> decide +kernel

theorem not_isFinite_pack_notANumber : ¬(Float.ofModel (.pack .notANumber)).isFinite := by
  decide +kernel

theorem value_pack_zero (s : Sign) : value (Float.ofModel (.pack (.zero s))) = 0 := by
  cases s <;> decide +kernel

/-- What is packed as a number is found again. -/
theorem view_pack {negative : Bool} {m : ℕ} {e : ℤ} {hm : 0 < m}
    (hsound : Sound (.finite (sign negative) m e hm))
    (h : (Float.ofModel (.pack (.finite (sign negative) m e hm))).isFinite) :
    view (Float.ofModel (.pack (.finite (sign negative) m e hm))) = .finite negative m e := by
  obtain ⟨hm53, he, hnormal⟩ := hsound
  by_cases hlarge : 2 ^ 11 ≤ (e + 1023 + 52).toNat + 1
  · have hinfinity : Float.Model.pack (.finite (sign negative) m e hm) =
        .pack (.infinity (sign negative)) := by
      rw [Float.Model.pack, Float.Model.pack, Float.Model.mk.injEq]
      exact congrArg UInt64.ofBitVec (if_pos hlarge)
    rw [hinfinity] at h
    exact absurd h (not_isFinite_pack_infinity _)
  · by_cases hleading : m.log2 + 1 = 53
    · have hparts : (Float.ofModel (.pack (.finite (sign negative) m e hm))).toBits.toBitVec =
          packComponents Format.binary64 (sign negative)
            (BitVec.ofNat 11 (e + 1023 + 52).toNat) (BitVec.ofNat 52 m) :=
        (if_neg hlarge).trans (if_pos hleading)
      have hlow : 2 ^ 52 ≤ m := (Nat.le_log2 (Nat.ne_of_gt hm)).mp (by omega)
      rw [view_of_parts hparts, BitVec.toNat_ofNat, BitVec.toNat_ofNat, Nat.pow_eq]
      rw [if_neg (by omega), if_neg (by omega)]
      congr 1
      · omega
      · omega
    · have hparts : (Float.ofModel (.pack (.finite (sign negative) m e hm))).toBits.toBitVec =
          packComponents Format.binary64 (sign negative) 0#11 (BitVec.ofNat 52 m) :=
        (if_neg hlarge).trans (if_neg hleading)
      have hlow : m < 2 ^ 52 := by
        by_contra hge
        have hlog : m.log2 = 52 :=
          (Nat.log2_eq_iff (Nat.ne_of_gt hm)).mpr ⟨not_lt.mp hge, hm53⟩
        exact hleading (by rw [hlog])
      have hleast : e = -1074 := hnormal.resolve_left (by omega)
      rw [view_of_parts hparts, BitVec.toNat_ofNat, BitVec.toNat_ofNat, Nat.zero_mod,
        if_neg (by decide), if_pos rfl, hleast, Nat.mod_eq_of_lt hlow]

/-- **A double that is packed has the value of its parts**, if it is one. -/
theorem value_pack {u : UnpackedFloat} (hu : Sound u)
    (h : (Float.ofModel (.pack u)).isFinite) : value (Float.ofModel (.pack u)) = exact u := by
  cases u with
  | infinity s => exact absurd h (not_isFinite_pack_infinity s)
  | notANumber => exact absurd h not_isFinite_pack_notANumber
  | zero s => exact value_pack_zero s
  | finite s m e hm =>
      obtain ⟨negative, rfl⟩ : ∃ negative, s = sign negative := by
        cases s with
        | negative => exact ⟨true, rfl⟩
        | positive => exact ⟨false, rfl⟩
      rw [value_of_view (view_pack hu h), exact_finite]
      cases negative <;> simp [sign, Sign.apply]

/-- A finite double has the value of the parts that the processor computes with. -/
theorem exact_unpack {x : Float} (h : x.isFinite) :
    Sound x.toModel.unpack ∧ exact x.toModel.unpack = value x := by
  obtain ⟨negative, m, e, hview, hm53, he, -⟩ := view_finite h
  rw [value_of_view hview]
  rcases unpack_of_view hview with ⟨rfl, hunpack⟩ | ⟨hnormal, hm, hunpack⟩
  · rw [hunpack]
    exact ⟨trivial, by rw [exact_zero, Nat.cast_zero, zero_mul, mul_zero]⟩
  · rw [hunpack]
    refine ⟨⟨hm53, he, hnormal⟩, ?_⟩
    rw [exact_finite]
    cases negative <;> simp [sign, Sign.apply]

theorem decreaseExponent_mul_zpow (m : ℕ) {e place : ℤ} (h : place ≤ e) :
    ((decreaseExponent m e place).1 : ℚ) * 2 ^ place = m * 2 ^ e := by
  rw [← shiftLeft_mul_zpow m (e - place).toNat e]
  congr 2
  omega

theorem apply_decreaseExponent (s : Sign) (m : ℕ) {e place : ℤ} (h : place ≤ e) :
    ((s.apply (decreaseExponent m e place).1 : ℤ) : ℚ) * 2 ^ place = (s.apply m : ℤ) * 2 ^ e := by
  have hmul := decreaseExponent_mul_zpow m h
  cases s with
  | negative =>
      rw [Sign.apply, Sign.apply]
      push_cast
      rw [neg_mul, neg_mul, hmul]
  | positive => exact hmul

/-- The sum of two finite doubles, before it is packed. -/
theorem adjacent_add_unpack {x y : Float} (hx : x.isFinite) (hy : y.isFinite) :
    Sound (add Format.binary64 x.toModel.unpack y.toModel.unpack) ∧
      Adjacent (value x + value y)
        (exact (add Format.binary64 x.toModel.unpack y.toModel.unpack)) := by
  obtain ⟨hsoundx, hvaluex⟩ := exact_unpack hx
  obtain ⟨hsoundy, hvaluey⟩ := exact_unpack hy
  obtain ⟨n₁, m₁, e₁, hview₁, -⟩ := view_finite hx
  obtain ⟨n₂, m₂, e₂, hview₂, -⟩ := view_finite hy
  rw [← hvaluex, ← hvaluey]
  rcases unpack_of_view hview₁ with ⟨-, hunpack₁⟩ | ⟨-, hm₁, hunpack₁⟩
  · -- a zero leaves the other number as it is
    rcases unpack_of_view hview₂ with ⟨-, hunpack₂⟩ | ⟨-, hm₂, hunpack₂⟩
    · rw [hunpack₁, hunpack₂]
      have hzero : ∃ s, add Format.binary64 (.zero (sign n₁)) (.zero (sign n₂)) = .zero s := by
        cases n₁ <;> cases n₂ <;> exact ⟨_, rfl⟩
      obtain ⟨s, hzero⟩ := hzero
      rw [hzero, exact_zero, exact_zero, exact_zero, add_zero]
      exact ⟨trivial, Adjacent.refl 0⟩
    · rw [hunpack₂] at hsoundy
      rw [hunpack₁, hunpack₂, exact_zero, zero_add]
      exact ⟨hsoundy, Adjacent.refl _⟩
  · rcases unpack_of_view hview₂ with ⟨-, hunpack₂⟩ | ⟨-, hm₂, hunpack₂⟩
    · rw [hunpack₁] at hsoundx
      rw [hunpack₁, hunpack₂, exact_zero, add_zero]
      exact ⟨hsoundx, Adjacent.refl _⟩
    · rw [hunpack₁, hunpack₂]
      have hleft := apply_decreaseExponent (sign n₁) m₁ (min_le_left e₁ e₂)
      have hright := apply_decreaseExponent (sign n₂) m₂ (min_le_right e₁ e₂)
      have hsum := adjacent_normalize
        ((sign n₁).apply (decreaseExponent m₁ e₁ (min e₁ e₂)).1 +
          (sign n₂).apply (decreaseExponent m₂ e₂ (min e₁ e₂)).1) (min e₁ e₂) .positive
      rw [Int.cast_add, add_mul, hleft, hright] at hsum
      exact hsum

/-- **Rounding a sum steps over no double.** -/
theorem adjacent_add {x y : Float} (hx : x.isFinite) (hy : y.isFinite) (h : (x + y).isFinite) :
    Adjacent (value x + value y) (value (x + y)) := by
  obtain ⟨hsound, hadjacent⟩ := adjacent_add_unpack hx hy
  have hvalue : value (x + y) =
      exact (add Format.binary64 x.toModel.unpack y.toModel.unpack) := value_pack hsound h
  rwa [hvalue]

theorem unpack_neg {y : Float} (hy : y.isFinite) : (-y).toModel.unpack = y.toModel.unpack.neg := by
  obtain ⟨n, m, e, hview, -⟩ := view_finite hy
  rcases unpack_of_view hview with ⟨hm, hunpack⟩ | ⟨-, hm, hunpack⟩
  · rcases unpack_of_view (view_neg hview) with ⟨-, hneg⟩ | ⟨-, hpos, -⟩
    · rw [hunpack, hneg, ← sign_neg]
      rfl
    · omega
  · rcases unpack_of_view (view_neg hview) with ⟨hzero, -⟩ | ⟨-, _, hneg⟩
    · omega
    · rw [hunpack, hneg, ← sign_neg]
      rfl

theorem sub_eq_add_neg_unpacked (u v : UnpackedFloat) :
    sub Format.binary64 u v = add Format.binary64 u v.neg := by
  cases v with
  | infinity t => cases u <;> rfl
  | notANumber => cases u <;> rfl
  | zero t => cases u <;> rfl
  | finite t n f hn =>
      cases u with
      | infinity s => rfl
      | notANumber => rfl
      | zero s => rfl
      | finite s m e hm =>
          have happly : ∀ k : ℤ, (-t).apply k = -t.apply k := by
            intro k
            cases t with
            | negative => exact (neg_neg k).symm
            | positive => rfl
          show UnpackedFloat.normalize _ (_ - _) _ _ =
            UnpackedFloat.normalize _ (_ + (-t).apply _) _ _
          rw [happly, ← Int.sub_eq_add_neg]

/-- A difference is the sum with the opposite. -/
theorem sub_eq_add_neg {x y : Float} (hy : y.isFinite) : x - y = x + -y := by
  show Float.ofModel (.pack (sub Format.binary64 x.toModel.unpack y.toModel.unpack)) = _
  rw [sub_eq_add_neg_unpacked, ← unpack_neg hy]
  rfl

/-- What is not below zero moves no number down. -/
theorem le_add_of_nonneg {x y : Float} (hx : x.isFinite) (hy : y.isFinite)
    (h : (x + y).isFinite) (hpos : 0 ≤ value y) : x ≤ x + y :=
  (le_iff_value_le hx h).mpr ((adjacent_add hx hy h).le_of_le x hx (by linarith))

theorem add_le_of_nonpos {x y : Float} (hx : x.isFinite) (hy : y.isFinite)
    (h : (x + y).isFinite) (hneg : value y ≤ 0) : x + y ≤ x :=
  (le_iff_value_le h hx).mpr ((adjacent_add hx hy h).ge_of_ge x hx (by linarith))

end Milling.Double
