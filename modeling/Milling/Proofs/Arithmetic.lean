import Milling.Proofs.Doubles
import Milling.Proofs.Shortest

/-!
# Double arithmetic against exact numbers

The processor multiplies two doubles by multiplying their significands exactly and
leaving out the places that a double does not have. That rounds to the nearest
double, and the one thing that can go wrong is that the result is beyond the
largest. Here it is said when it is not: a product below `limit` is a number.

The other operation that matters is turning a whole number into a double. It adds
at most half of the last place, and nothing at all to a number of fifty-three
digits in base two.
-/

namespace Milling.Double

open Float.Model (Format)
open Float.Model.UnpackedFloat

/-! ## Rounding a product -/

section Rounding

variable {m : ℕ} {e : ℤ}

theorem mantissa_shiftRight (em : ExtendedMantissa) : ∀ n : ℕ,
    (em >>> n).mantissa = em.mantissa / 2 ^ n
  | 0 => (Nat.div_one _).symm
  | n + 1 => by
      show (em >>> n).mantissa / 2 = _
      rw [mantissa_shiftRight em n, Nat.div_div_eq_div_mul, Nat.pow_succ]

/-- What rounding adds, it adds for the bit behind the last one that stays. -/
theorem roundedMantissa_le (em : ExtendedMantissa) :
    em.roundedMantissa ≤ em.mantissa + em.roundBit.toNat := by
  obtain ⟨mantissa, _ | _, _ | _⟩ := em
  · exact Nat.le_refl _
  · exact Nat.le_refl _
  · exact Nat.add_le_add_left (Nat.le_of_lt_succ (Nat.mod_lt _ (by decide))) _
  · exact Nat.le_refl _

/-- Leaving out places by rounding adds at most half a unit of the last one that stays. -/
theorem rounded_le (m n : ℕ) :
    2 * ((ExtendedMantissa.ofMantissaAndAccuracy m .exact >>> n).roundedMantissa * 2 ^ n) ≤
      2 * m + 2 ^ n := by
  cases n with
  | zero =>
      show 2 * (m * 1) ≤ 2 * m + 1
      omega
  | succ n =>
      have hle := roundedMantissa_le (ExtendedMantissa.ofMantissaAndAccuracy m .exact >>> (n + 1))
      have hbit : (ExtendedMantissa.ofMantissaAndAccuracy m .exact >>> (n + 1)).roundBit =
          (m / 2 ^ n % 2 != 0) := by
        show ((ExtendedMantissa.ofMantissaAndAccuracy m .exact >>> n).mantissa % 2 != 0) = _
        rw [mantissa_shiftRight]
        rfl
      have hmantissa : (ExtendedMantissa.ofMantissaAndAccuracy m .exact >>> (n + 1)).mantissa =
          m / 2 ^ n / 2 := by
        rw [mantissa_shiftRight, Nat.pow_succ, ← Nat.div_div_eq_div_mul]
        rfl
      have hunits : (m / 2 ^ n % 2 != 0).toNat = m / 2 ^ n % 2 := by
        rcases Nat.mod_two_eq_zero_or_one (m / 2 ^ n) with hm | hm <;> rw [hm] <;> rfl
      rw [hbit, hmantissa, hunits] at hle
      -- in units of half the last place, the bit is all that can be added
      have htwice : 2 * (ExtendedMantissa.ofMantissaAndAccuracy m .exact >>>
          (n + 1)).roundedMantissa ≤ m / 2 ^ n + 1 := by
        omega
      calc 2 * ((ExtendedMantissa.ofMantissaAndAccuracy m .exact >>>
            (n + 1)).roundedMantissa * 2 ^ (n + 1))
          = 2 * (2 * (ExtendedMantissa.ofMantissaAndAccuracy m .exact >>>
            (n + 1)).roundedMantissa * 2 ^ n) := by ring
        _ ≤ 2 * ((m / 2 ^ n + 1) * 2 ^ n) := by gcongr
        _ = 2 * (m / 2 ^ n * 2 ^ n) + 2 ^ (n + 1) := by ring
        _ ≤ 2 * m + 2 ^ (n + 1) := by gcongr; exact Nat.div_mul_le_self _ _

/-- What rounds beyond the largest double begins half a place above it. -/
def limit : ℕ := (2 ^ 54 - 1) * 2 ^ 970

theorem shiftToTargetExponent_eq (m : ℕ) (e : ℤ) (accuracy : Accuracy) :
    shiftToTargetExponent Format.binary64 m e accuracy =
      (ExtendedMantissa.ofMantissaAndAccuracy m accuracy >>>
          (max ((m.log2 : ℤ) + 1 + e - 53) (-1074) - e).toNat,
        max e (max ((m.log2 : ℤ) + 1 + e - 53) (-1074))) := by
  show (_, e + ((max ((m.log2 : ℤ) + 1 + e - 53) (-1074) - e).toNat : ℤ)) = _
  congr 1
  omega

/-- A number with few digits in base two below a bound has a low leading digit. -/
theorem log2_add_lt {bound : ℤ} (hm : 0 < m) (h : (m : ℚ) * 2 ^ e < 2 ^ bound) :
    (m.log2 : ℤ) + e < bound := by
  have hlog : (2 : ℚ) ^ m.log2 ≤ m := by exact_mod_cast Nat.log2_self_le (Nat.ne_of_gt hm)
  have hpow : (2 : ℚ) ^ ((m.log2 : ℤ) + e) < 2 ^ bound := by
    rw [zpow_add₀ (by norm_num), zpow_natCast]
    exact lt_of_le_of_lt (mul_le_mul_of_nonneg_right hlog (by positivity)) h
  exact (zpow_lt_zpow_iff_right₀ (by norm_num)).mp hpow

/-- Where the limit lies among the powers of two. -/
theorem limit_powers :
    limit + 2 ^ 970 = 2 ^ 1024 ∧ 2 * limit + 2 ^ 971 = 2 * (2 ^ 53 * 2 ^ 971) ∧
      2 ^ 54 < limit ∧ limit < 2 ^ 1024 := by
  decide +kernel

theorem limit_add_half : (limit : ℚ) + 2 ^ (970 : ℤ) = 2 ^ (1024 : ℤ) := by
  have hcast := congrArg (Nat.cast : ℕ → ℚ) limit_powers.1
  rw [Nat.cast_add, Nat.cast_pow, Nat.cast_pow, Nat.cast_ofNat] at hcast
  exact hcast

theorem limit_lt : (limit : ℚ) < 2 ^ (1024 : ℤ) := by
  rw [← limit_add_half]
  exact lt_add_of_pos_right _ (by positivity)

/--
**What lies below the limit is rounded to a double.** The number must have its full
digits, or not be scaled beyond the largest double; every product of two doubles is
of this kind.
-/
theorem round_of_lt_limit (sign : Sign) (hm : 0 < m) (h : (m : ℚ) * 2 ^ e < limit)
    (he : e ≤ 971 ∨ 2 ^ 53 ≤ m) :
    roundWithAccuracy Format.binary64 sign m e .exact = .zero sign ∨
      ∃ m' e' hm', roundWithAccuracy Format.binary64 sign m e .exact = .finite sign m' e' hm' ∧
        e' ≤ 971 := by
  have hlog := log2_add_lt hm (h.trans limit_lt)
  unfold roundWithAccuracy
  rw [shiftToTargetExponent_eq]
  dsimp only
  rw [shiftToTargetExponent_eq]
  dsimp only
  have hle := rounded_le m (max ((m.log2 : ℤ) + 1 + e - 53) (-1074) - e).toNat
  generalize hn : (max ((m.log2 : ℤ) + 1 + e - 53) (-1074) - e).toNat = n at hle ⊢
  generalize (ExtendedMantissa.ofMantissaAndAccuracy m .exact >>> n).roundedMantissa = rounded
    at hle ⊢
  have hfirst : max e (max ((m.log2 : ℤ) + 1 + e - 53) (-1074)) = e + n := by omega
  rw [hfirst]
  -- the last place that stays is not above the last place of the largest double
  have hplace : e + n ≤ 971 := by
    rw [← hfirst]
    rcases he with he | he
    · omega
    · have : 53 ≤ m.log2 := (Nat.le_log2 (Nat.ne_of_gt hm)).mpr he
      omega
  -- rounding may carry into one more digit, which then takes the last place with it
  have hlast : max (e + n) (max ((rounded.log2 : ℤ) + 1 + (e + n) - 53) (-1074)) ≤ 971 := by
    rcases Nat.eq_zero_or_pos rounded with rfl | hrounded
    · simp only [Nat.log2_zero, Nat.cast_zero]
      omega
    have hvalue : (rounded : ℚ) * 2 ^ (e + n) < 2 ^ (1024 : ℤ) := by
      have hle : 2 * ((rounded : ℚ) * 2 ^ n) ≤ 2 * m + 2 ^ n := by exact_mod_cast hle
      have hle := mul_le_mul_of_nonneg_right hle (by positivity : (0 : ℚ) ≤ 2 ^ e)
      have hunit : (2 : ℚ) ^ (e + n) ≤ 2 * 2 ^ (970 : ℤ) := by
        rw [← zpow_one_add₀ (by norm_num)]
        exact zpow_le_zpow_right₀ (by norm_num) (by omega)
      rw [zpow_add₀ (by norm_num), zpow_natCast] at hunit ⊢
      rw [← limit_add_half]
      generalize (2 : ℚ) ^ (970 : ℤ) = half at hunit ⊢
      linarith
    have := log2_add_lt hrounded hvalue
    omega
  by_cases hzero : (ExtendedMantissa.ofMantissaAndAccuracy rounded .exact >>>
      (max ((rounded.log2 : ℤ) + 1 + (e + n) - 53) (-1074) - (e + n)).toNat).mantissa = 0
  · rw [dif_pos hzero]
    exact .inl rfl
  · rw [dif_neg hzero]
    exact .inr ⟨_, _, _, rfl, hlast⟩

end Rounding

/-! ## Products of doubles -/

theorem isFinite_pack_zero (sign : Sign) : (Float.ofModel (.pack (.zero sign))).isFinite := by
  cases sign <;> decide +kernel

/-- What was rounded to an exponent in range is packed as a number. -/
theorem isFinite_pack {sign : Sign} {m : ℕ} {e : ℤ} (hm : 0 < m) (he : e ≤ 971) :
    (Float.ofModel (.pack (.finite sign m e hm))).isFinite := by
  rw [isFinite_iff]
  show (UInt64.ofBitVec (pack Format.binary64 (.finite sign m e hm))).toBitVec.toNat / _ % _ ≠ 2047
  rw [← toNat_unpackExponent]
  show (unpackExponent (pack Format.binary64 (.finite sign m e hm))).toNat ≠ 2047
  unfold pack
  dsimp only
  have hfits : ¬ 2 ^ Format.binary64.exponentBits ≤
      (e + Format.binary64.exponentBias +
        Format.binary64.mantissaBitsWithoutImplicit).toNat + 1 := by
    show ¬ 2048 ≤ (e + 1023 + 52).toNat + 1
    omega
  rw [if_neg hfits]
  split
  · rw [unpackExponent_packComponents, BitVec.toNat_ofNat]
    show (e + 1023 + 52).toNat % 2048 ≠ 2047
    omega
  · rw [unpackExponent_packComponents]
    decide

/-- The exact size of a double. What is not finite has none. -/
def magnitude (x : Float) : ℚ :=
  match view x with
  | .finite _ significand exponent => significand * 2 ^ exponent
  | _ => 0

theorem magnitude_of_view {x : Float} {negative : Bool} {m : ℕ} {e : ℤ}
    (h : view x = .finite negative m e) : magnitude x = m * 2 ^ e := by
  rw [magnitude, h]

theorem magnitude_nonneg (x : Float) : 0 ≤ magnitude x := by
  rw [magnitude]
  split
  · positivity
  · exact le_refl 0

/-- **A product that is small enough is a number.** -/
theorem isFinite_mul {x y : Float} (hx : x.isFinite) (hy : y.isFinite)
    (h : magnitude x * magnitude y < limit) : (x * y).isFinite := by
  obtain ⟨n₁, m₁, e₁, hview₁, -, -, he₁⟩ := view_finite hx
  obtain ⟨n₂, m₂, e₂, hview₂, -, -, he₂⟩ := view_finite hy
  rw [magnitude_of_view hview₁, magnitude_of_view hview₂] at h
  show (Float.ofModel (.pack (mul Format.binary64 x.toModel.unpack y.toModel.unpack))).isFinite
  rcases unpack_of_view hview₁ with ⟨-, h₁⟩ | ⟨hfull₁, hm₁, h₁⟩
  · rw [h₁]
    rcases unpack_of_view hview₂ with ⟨-, h₂⟩ | ⟨-, hm₂, h₂⟩
    · rw [h₂]
      exact isFinite_pack_zero _
    · rw [h₂]
      exact isFinite_pack_zero _
  · rw [h₁]
    rcases unpack_of_view hview₂ with ⟨-, h₂⟩ | ⟨hfull₂, hm₂, h₂⟩
    · rw [h₂]
      exact isFinite_pack_zero _
    · rw [h₂]
      -- two numbers with all their digits have a product with more than enough
      have hrange : e₁ + e₂ ≤ 971 ∨ 2 ^ 53 ≤ m₁ * m₂ := by
        rcases hfull₁ with hfull₁ | rfl
        · rcases hfull₂ with hfull₂ | rfl
          · exact .inr (Nat.le_trans (by decide) (Nat.mul_le_mul hfull₁ hfull₂))
          · exact .inl (by omega)
        · exact .inl (by omega)
      have hvalue : ((m₁ * m₂ : ℕ) : ℚ) * 2 ^ (e₁ + e₂) < limit := by
        rw [Nat.cast_mul, zpow_add₀ (by norm_num)]
        exact lt_of_eq_of_lt (by ring) h
      show (Float.ofModel (.pack (roundWithAccuracy Format.binary64 (sign n₁ * sign n₂) (m₁ * m₂)
        (e₁ + e₂) .exact))).isFinite
      rcases round_of_lt_limit (sign n₁ * sign n₂) (Nat.mul_pos hm₁ hm₂) hvalue hrange with
        hround | ⟨m, e, hm, hround, he⟩
      · rw [hround]
        exact isFinite_pack_zero _
      · rw [hround]
        exact isFinite_pack hm he

theorem isFinite_neg {x : Float} (h : x.isFinite) : (-x).isFinite := by
  obtain ⟨_, m, e, hview, -, -, he⟩ := view_finite h
  show (Float.ofModel (.pack x.toModel.unpack.neg)).isFinite
  rcases unpack_of_view hview with ⟨-, hunpack⟩ | ⟨-, hm, hunpack⟩
  · rw [hunpack]
    exact isFinite_pack_zero _
  · rw [hunpack]
    exact isFinite_pack hm he

theorem isInf_of_isFinite {x : Float} (h : x.isFinite) : x.isInf = false := by
  have hmodel : x.toModel.unpack.isFinite = true := h
  show x.toModel.unpack.isInf = false
  cases hu : x.toModel.unpack with
  | infinity sign =>
      rw [hu] at hmodel
      cases hmodel
  | notANumber => rfl
  | zero sign => rfl
  | finite sign m e hm => rfl

/-! ## Doubles of whole numbers -/

theorem toBits_ofMagnitude {bits : ℕ} (h : bits < infinityBits) :
    (ofMagnitude false bits).toBits.toNat = bits := by
  rw [infinityBits, Nat.pow_eq] at h
  have hbits : (UInt64.ofNat bits).toNat = bits :=
    UInt64.toNat_ofNat_of_lt' (show bits < 2 ^ 64 by omega)
  rw [ofMagnitude, if_neg Bool.false_ne_true, toBits_ofBits, hbits]
  rw [hbits]
  simp only [Nat.pow_eq]
  omega

/-- The field of the exponent and the digits behind the leading one, as one number. -/
theorem ofMagnitude_spec {field s : ℕ} (hlow : 2 ^ 52 ≤ s) (hhigh : s ≤ 2 ^ 53)
    (h : field * Nat.pow 2 52 + s < infinityBits) :
    (ofMagnitude false (field * Nat.pow 2 52 + s)).isFinite ∧
      magnitude (ofMagnitude false (field * Nat.pow 2 52 + s)) = s * 2 ^ ((field : ℤ) - 1074) := by
  have hbits := toBits_ofMagnitude h
  rw [infinityBits] at h
  rw [isFinite_iff, hbits, magnitude, view, hbits]
  simp only [Nat.pow_eq] at *
  have hmax : (field * 2 ^ 52 + s) / 2 ^ 52 % 2 ^ 11 ≠ 2047 := by omega
  have hmin : (field * 2 ^ 52 + s) / 2 ^ 52 % 2 ^ 11 ≠ 0 := by omega
  refine ⟨hmax, ?_⟩
  rw [if_neg hmax, if_neg hmin]
  dsimp only
  rcases Nat.lt_or_eq_of_le hhigh with hlt | rfl
  · have hfield : (field * 2 ^ 52 + s) / 2 ^ 52 % 2 ^ 11 = field + 1 := by omega
    have hs : 2 ^ 52 + (field * 2 ^ 52 + s) % 2 ^ 52 = s := by omega
    rw [hfield, hs]
    congr 2
    omega
  · -- the carry is one more in the field, and nothing behind the leading digit
    have hfield : (field * 2 ^ 52 + 2 ^ 53) / 2 ^ 52 % 2 ^ 11 = field + 2 := by omega
    have hs : 2 ^ 52 + (field * 2 ^ 52 + 2 ^ 53) % 2 ^ 52 = 2 ^ 52 := by omega
    have hexponent : ((field + 2 : ℕ) : ℤ) - 1075 = 1 + ((field : ℤ) - 1074) := by omega
    rw [hfield, hs, hexponent, zpow_one_add₀ (by norm_num)]
    push_cast
    ring

theorem lastPlace_one {n : ℕ} (hn : 0 < n) : lastPlace n 1 = (n.log2 : ℤ) - 52 := by
  have hreached : Nat.pow 2 n.log2 ≤ n := Nat.log2_self_le (Nat.ne_of_gt hn)
  have hone : Nat.log2 1 = 0 := by decide
  unfold lastPlace
  simp only [hone, Nat.one_mul, Nat.cast_zero, Int.sub_zero]
  rw [if_pos (Int.natCast_nonneg _), Int.toNat_natCast, decide_eq_true hreached, if_pos rfl]
  omega

/-- Rounding adds at most a half. -/
theorem roundNearest_mul_le (tie : Tie) (num den : ℕ) :
    2 * (roundNearest tie num den * den) ≤ 2 * num + den := by
  have hdivision := Nat.div_add_mod' num den
  have hdown : 2 * (num / den * den) ≤ 2 * num + den := by omega
  have hup : den ≤ 2 * (num % den) → 2 * ((num / den + 1) * den) ≤ 2 * num + den := by
    rw [Nat.add_mul, Nat.one_mul]
    omega
  unfold roundNearest
  dsimp only
  split
  · exact hdown
  · rename_i hlow
    split
    · exact hup (by omega)
    · cases tie with
      | up => exact hup (by omega)
      | even =>
          dsimp only
          rcases Nat.mod_two_eq_zero_or_one (num / den) with heven | hodd
          · rw [heven]
            exact hdown
          · rw [hodd]
            exact hup (by omega)

/-- A whole number is its own rounding. -/
theorem roundNearest_one (tie : Tie) (num : ℕ) : roundNearest tie num 1 = num := by
  unfold roundNearest
  dsimp only
  rw [Nat.mod_one, Nat.mul_zero, if_pos Nat.one_pos, Nat.div_one]

/-- The significand of a whole number's double, and what rounding does to it. -/
theorem nearestBits_one {n : ℕ} (hn : 0 < n) : ∃ s, 2 ^ 52 ≤ s ∧ s ≤ 2 ^ 53 ∧
    nearestBits n 1 = min ((n.log2 + 1022) * Nat.pow 2 52 + s) infinityBits ∧
    (n.log2 ≤ 52 → s = n * 2 ^ (52 - n.log2)) ∧
    (52 ≤ n.log2 → 2 * (s * 2 ^ (n.log2 - 52)) ≤ 2 * n + 2 ^ (n.log2 - 52)) := by
  have hlow := Nat.log2_self_le (Nat.ne_of_gt hn)
  have hhigh := Nat.lt_log2_self (n := n)
  have hfield : ((n.log2 : ℤ) - 52 + 1074).toNat = n.log2 + 1022 := by omega
  unfold nearestBits
  rw [if_neg (Nat.ne_of_gt hn), lastPlace_one hn]
  dsimp only
  rw [hfield]
  generalize n.log2 = l at hlow hhigh ⊢
  by_cases hplace : 52 ≤ l
  · -- the places below the last one are rounded
    obtain ⟨p, rfl⟩ := Nat.exists_eq_add_of_le hplace
    have hp : ((52 + p : ℕ) - 52 : ℤ).toNat = p := by omega
    have hsub : 52 + p - 52 = p := by omega
    rw [if_pos (by omega), hp, hsub, Nat.one_mul, Nat.pow_eq]
    have hpos : 0 < 2 ^ p := Nat.pow_pos (by decide)
    have hleast : 2 ^ 52 ≤ n / 2 ^ p :=
      (Nat.le_div_iff_mul_le hpos).mpr (by rwa [← Nat.pow_add])
    have hmost : n / 2 ^ p < 2 ^ 53 :=
      (Nat.div_lt_iff_lt_mul hpos).mpr (by
        rwa [← Nat.pow_add, show 53 + p = 52 + p + 1 from Nat.add_right_comm 52 1 p])
    have hround := roundNearest_eq .even n (2 ^ p)
    refine ⟨roundHalfEven n (2 ^ p), ?_, ?_, rfl, fun hle => ?_,
      fun _ => roundNearest_mul_le .even n (2 ^ p)⟩
    · rw [roundHalfEven]
      omega
    · rw [roundHalfEven]
      omega
    · obtain rfl : p = 0 := by omega
      rw [roundHalfEven, Nat.pow_zero, roundNearest_one]
      exact (Nat.mul_one n).symm
  · -- there are no places below the last one
    have hp : (-((l : ℤ) - 52)).toNat = 52 - l := by omega
    rw [if_neg (by omega), hp, roundHalfEven, roundNearest_one]
    simp only [Nat.pow_eq]
    refine ⟨n * 2 ^ (52 - l), ?_, ?_, rfl, fun _ => rfl, fun h => absurd h hplace⟩
    · calc 2 ^ 52 = 2 ^ l * 2 ^ (52 - l) := by rw [← Nat.pow_add]; congr 1; omega
        _ ≤ n * 2 ^ (52 - l) := by gcongr
    · calc n * 2 ^ (52 - l) ≤ 2 ^ (l + 1) * 2 ^ (52 - l) := by gcongr
        _ = 2 ^ 53 := by rw [← Nat.pow_add]; congr 1; omega

/--
A whole number is rounded to a multiple of its last place, by at most half of it.
One with at most fifty-three digits in base two is not rounded at all.
-/
theorem ofNat_spec {n : ℕ} (hn : 0 < n) (hlimit : n < limit) :
    (ofNat n).isFinite ∧ (n.log2 ≤ 52 → magnitude (ofNat n) = n) ∧
      (52 ≤ n.log2 → ∃ s : ℕ, magnitude (ofNat n) = s * 2 ^ (n.log2 - 52) ∧
        2 * (s * 2 ^ (n.log2 - 52)) ≤ 2 * n + 2 ^ (n.log2 - 52)) := by
  obtain ⟨s, hs52, hs53, hbits, hexact, hrounded⟩ := nearestBits_one hn
  have hinside : (n.log2 + 1022) * Nat.pow 2 52 + s < infinityBits := by
    have htop : n.log2 < 1024 := by
      rw [Nat.log2_lt (Nat.ne_of_gt hn)]
      obtain ⟨-, -, -, hbelow⟩ := limit_powers
      omega
    rw [infinityBits, Nat.pow_eq]
    rcases Nat.lt_or_eq_of_le (Nat.le_of_lt_succ htop) with hlt | heq
    · omega
    · -- below the limit, the digits of the largest last place do not round up to one more
      have hle := hrounded (by omega)
      rw [heq] at hle ⊢
      have hs : s < 2 ^ 53 := by
        by_contra hge
        have hge : 2 ^ 53 * 2 ^ 971 ≤ s * 2 ^ 971 := by gcongr; omega
        have hsmall : 2 * n + 2 ^ 971 < 2 * (2 ^ 53 * 2 ^ 971) := by
          obtain ⟨-, hplace, -⟩ := limit_powers
          omega
        omega
      omega
  have hvalue := ofMagnitude_spec hs52 hs53 hinside
  have hofNat : ofNat n = ofMagnitude false ((n.log2 + 1022) * Nat.pow 2 52 + s) := by
    rw [ofNat, nearest, hbits, Nat.min_eq_left hinside.le]
  have hplace : ((n.log2 + 1022 : ℕ) : ℤ) - 1074 = n.log2 - 52 := by omega
  rw [hofNat, hvalue.2, hplace]
  refine ⟨hvalue.1, fun hle => ?_, fun hge => ⟨s, ?_, hrounded hge⟩⟩
  · rw [hexact hle, show (n.log2 : ℤ) - 52 = -((52 - n.log2 : ℕ) : ℤ) by omega, zpow_neg,
      zpow_natCast]
    push_cast
    field_simp
  · rw [show (n.log2 : ℤ) - 52 = ((n.log2 - 52 : ℕ) : ℤ) by omega, zpow_natCast]

section Bounds

variable {n : ℕ}

/-- A whole number of at most fifty-three digits in base two is a double. -/
theorem magnitude_ofNat (hn : 0 < n) (hsmall : n < 2 ^ 53) : magnitude (ofNat n) = n := by
  have hlog : n.log2 < 53 := (Nat.log2_lt (Nat.ne_of_gt hn)).mpr hsmall
  have hlimit : n < limit := lt_trans (by omega) limit_powers.2.2.1
  exact (ofNat_spec hn hlimit).2.1 (by omega)

/-- With one digit more, what is not above an even number does not become more than it. -/
theorem magnitude_ofNat_le_even {h : ℕ} (hn : 0 < n) (hle : n ≤ 2 * h) (hh : h < 2 ^ 53) :
    magnitude (ofNat n) ≤ 2 * h := by
  by_cases hsmall : n < 2 ^ 53
  · rw [magnitude_ofNat hn hsmall]
    exact_mod_cast hle
  · have hlog : n.log2 = 53 := by
      rw [Nat.log2_eq_iff (Nat.ne_of_gt hn)]
      omega
    have hlimit : n < limit := lt_trans (by omega : n < 2 ^ 54) limit_powers.2.2.1
    obtain ⟨s, hvalue, hrounded⟩ := (ofNat_spec hn hlimit).2.2 (by omega)
    rw [hlog] at hvalue hrounded
    have hs : s * 2 ≤ 2 * h := by omega
    rw [hvalue]
    exact_mod_cast hs

/-- Turning a whole number into a double adds at most one part in `2 ^ 53`. -/
theorem magnitude_ofNat_le (hn : 0 < n) (hlimit : n < limit) :
    2 ^ 53 * magnitude (ofNat n) ≤ (2 ^ 53 + 1) * n := by
  obtain ⟨-, hexact, hrounded⟩ := ofNat_spec hn hlimit
  rcases Nat.le_total n.log2 52 with hlog | hlog
  · rw [hexact hlog]
    have hpos : (0 : ℚ) ≤ n := Nat.cast_nonneg n
    linarith
  · obtain ⟨s, hvalue, hrounded⟩ := hrounded hlog
    -- the last place is fifty-two places below the first
    have hplace : 2 ^ 52 * 2 ^ (n.log2 - 52) ≤ n := by
      rw [← Nat.pow_add, Nat.add_sub_cancel' hlog]
      exact Nat.log2_self_le (Nat.ne_of_gt hn)
    have hle : 2 ^ 53 * (s * 2 ^ (n.log2 - 52)) ≤ (2 ^ 53 + 1) * n := by omega
    rw [hvalue]
    exact_mod_cast hle

end Bounds

end Milling.Double
