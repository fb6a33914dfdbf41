import Mathlib.Data.Int.Log
import Mathlib.Data.Rat.Floor
import Milling.Proofs.Arithmetic
import Milling.Proofs.Shortest

/-!
# Reading a number to the nearest double

A reader that rounds once, from the exact number that the digits stand for, finds a
double again from every number that rounds to it. What has to be shown is that the
two ideas of rounding are the same: the printer looks at the interval around a
double, half a place to each side, and the reader at the place that the number in
front of it has.

They differ at one point only. Just below a power of two the doubles lie closer, so
a number there has a finer last place than the power itself. It is rounded up on
that place to its very end, and the carry leads to the same bits.
-/

namespace Milling.Double

variable {num den r m : ℕ} {e : ℤ} {q : ℚ}

/-! ## Rounding to a whole number -/

/-- A whole number is nearest to an exact one, and even if another is as near. -/
def Rounds (q : ℚ) (r : ℕ) : Prop :=
  2 * (r : ℚ) - 1 ≤ 2 * q ∧ 2 * q ≤ 2 * r + 1 ∧
    (r % 2 = 0 ∨ 2 * (r : ℚ) - 1 < 2 * q ∧ 2 * q < 2 * r + 1)

theorem le_quotient_iff (hden : 0 < den) :
    2 * (r : ℚ) - 1 ≤ 2 * ((num : ℚ) / den) ↔ 2 * (r * den) ≤ 2 * num + den := by
  have hden : (0 : ℚ) < den := by exact_mod_cast hden
  rw [← mul_div_assoc, le_div_iff₀ hden, sub_mul, sub_le_iff_le_add, one_mul, mul_assoc]
  exact_mod_cast Iff.rfl

theorem quotient_le_iff (hden : 0 < den) :
    2 * ((num : ℚ) / den) ≤ 2 * r + 1 ↔ 2 * num ≤ 2 * (r * den) + den := by
  have hden : (0 : ℚ) < den := by exact_mod_cast hden
  rw [← mul_div_assoc, div_le_iff₀ hden, add_mul, one_mul, mul_assoc]
  exact_mod_cast Iff.rfl

theorem quotient_lt_iff (hden : 0 < den) :
    2 * ((num : ℚ) / den) < 2 * r + 1 ↔ 2 * num < 2 * (r * den) + den := by
  have hden : (0 : ℚ) < den := by exact_mod_cast hden
  rw [← mul_div_assoc, div_lt_iff₀ hden, add_mul, one_mul, mul_assoc]
  exact_mod_cast Iff.rfl

theorem lt_quotient_iff (hden : 0 < den) :
    2 * (r : ℚ) - 1 < 2 * ((num : ℚ) / den) ↔ 2 * (r * den) < 2 * num + den := by
  have hden : (0 : ℚ) < den := by exact_mod_cast hden
  rw [← mul_div_assoc, lt_div_iff₀ hden, sub_mul, sub_lt_iff_lt_add, one_mul, mul_assoc]
  exact_mod_cast Iff.rfl

/-- There is only one whole number that is nearest and, in a tie, even. -/
theorem roundHalfEven_eq (hden : 0 < den) (h : Rounds (num / den) r) :
    roundHalfEven num den = r := by
  obtain ⟨hlow, hhigh, htie⟩ := h
  rw [le_quotient_iff hden] at hlow
  rw [quotient_le_iff hden] at hhigh
  rw [lt_quotient_iff hden, quotient_lt_iff hden] at htie
  have hparts := Nat.div_add_mod' num den
  have hmod := Nat.mod_lt num hden
  -- the quotient is the number itself or the one below it
  have hquotient : r = num / den ∨ r = num / den + 1 := by
    have hle : num / den ≤ r := by
      by_contra hlt
      have := Nat.mul_le_mul_right den (Nat.lt_of_not_le hlt)
      rw [Nat.succ_mul] at this
      omega
    have hge : r ≤ num / den + 1 := by
      by_contra hlt
      have := Nat.mul_le_mul_right den (Nat.lt_of_not_le hlt)
      rw [Nat.succ_mul, Nat.add_mul, Nat.one_mul] at this
      omega
    omega
  unfold roundHalfEven roundNearest
  dsimp only
  rcases hquotient with rfl | rfl
  · generalize num / den * den = product at *
    by_cases hless : 2 * (num % den) < den
    · rw [if_pos hless]
    · have heven : num / den % 2 = 0 := by omega
      rw [if_neg hless, if_neg (by omega), heven, Nat.add_zero]
  · rw [Nat.add_mul, Nat.one_mul] at hlow hhigh htie
    generalize num / den * den = product at *
    rw [if_neg (by omega)]
    by_cases hmore : den < 2 * (num % den)
    · rw [if_pos hmore]
    · have hodd : num / den % 2 = 1 := by omega
      rw [if_neg hmore, hodd]

/-! ## The last place of a quotient -/

/-- A power of two is compared with a quotient on whole numbers. -/
theorem reached_iff (num : ℕ) (hden : 0 < den) (k : ℤ) :
    (if 0 ≤ k then decide (den * Nat.pow 2 k.toNat ≤ num)
      else decide (den ≤ num * Nat.pow 2 (-k).toNat)) = true ↔ (2 : ℚ) ^ k ≤ num / den := by
  have hden : (0 : ℚ) < den := by exact_mod_cast hden
  rw [le_div_iff₀ hden]
  by_cases hk : 0 ≤ k
  · obtain ⟨n, rfl⟩ := Int.eq_ofNat_of_zero_le hk
    rw [if_pos hk, decide_eq_true_iff, Int.toNat_natCast, Nat.pow_eq, zpow_natCast, mul_comm]
    exact_mod_cast Iff.rfl
  · obtain ⟨n, rfl⟩ : ∃ n : ℕ, k = -(n : ℤ) := ⟨(-k).toNat, by omega⟩
    rw [if_neg hk, decide_eq_true_iff, neg_neg, Int.toNat_natCast, Nat.pow_eq, zpow_neg,
      zpow_natCast, ← div_eq_inv_mul, div_le_iff₀ (by positivity)]
    exact_mod_cast Iff.rfl

theorem log_eq {k : ℤ} (hq : 0 < q) (hlow : (2 : ℚ) ^ k ≤ q) (hhigh : q < (2 : ℚ) ^ (k + 1)) :
    Int.log 2 q = k := by
  have hle := (Int.zpow_le_iff_le_log (b := 2) (by decide) hq).mp hlow
  have hlt := (Int.lt_zpow_iff_log_lt (b := 2) (by decide) hq).mp hhigh
  omega

/-- The lengths of the two parts tell where the quotient begins, up to one place. -/
theorem log_quotient (hnum : 0 < num) (hden : 0 < den) :
    (2 : ℚ) ^ ((num.log2 : ℤ) - den.log2 - 1) < num / den ∧
      (num : ℚ) / den < (2 : ℚ) ^ ((num.log2 : ℤ) - den.log2 + 1) := by
  have hnumlow : (2 : ℚ) ^ num.log2 ≤ num := by
    exact_mod_cast Nat.log2_self_le (Nat.ne_of_gt hnum)
  have hnumhigh : (num : ℚ) < 2 ^ (num.log2 + 1) := by exact_mod_cast Nat.lt_log2_self
  have hdenlow : (2 : ℚ) ^ den.log2 ≤ den := by
    exact_mod_cast Nat.log2_self_le (Nat.ne_of_gt hden)
  have hdenhigh : (den : ℚ) < 2 ^ (den.log2 + 1) := by exact_mod_cast Nat.lt_log2_self
  have hden : (0 : ℚ) < den := by exact_mod_cast hden
  constructor
  · have hpower : (2 : ℚ) ^ ((num.log2 : ℤ) - den.log2 - 1) =
        2 ^ num.log2 / 2 ^ (den.log2 + 1) := by
      rw [show (num.log2 : ℤ) - den.log2 - 1 = num.log2 - (den.log2 + 1 : ℕ) by push_cast; ring,
        zpow_sub₀ (by norm_num), zpow_natCast, zpow_natCast]
    rw [hpower, div_lt_div_iff₀ (by positivity) hden]
    calc (2 : ℚ) ^ num.log2 * den ≤ num * den := by gcongr
      _ < num * 2 ^ (den.log2 + 1) := by gcongr
  · have hpower : (2 : ℚ) ^ ((num.log2 : ℤ) - den.log2 + 1) =
        2 ^ (num.log2 + 1) / 2 ^ den.log2 := by
      rw [show (num.log2 : ℤ) - den.log2 + 1 = (num.log2 + 1 : ℕ) - den.log2 by push_cast; ring,
        zpow_sub₀ (by norm_num), zpow_natCast, zpow_natCast]
    rw [hpower, div_lt_div_iff₀ hden (by positivity)]
    calc (num : ℚ) * 2 ^ den.log2 ≤ num * den := by gcongr
      _ < 2 ^ (num.log2 + 1) * den := by gcongr

/-- The last place is fifty-two places below the first one, but never below the smallest. -/
theorem lastPlace_eq (hnum : 0 < num) (hden : 0 < den) :
    lastPlace num den = max (Int.log 2 ((num : ℚ) / den) - 52) (-1074) := by
  have hq : (0 : ℚ) < num / den := by positivity
  obtain ⟨hlow, hhigh⟩ := log_quotient hnum hden
  have hreached := reached_iff num hden ((num.log2 : ℤ) - den.log2)
  unfold lastPlace
  dsimp only
  by_cases h : (2 : ℚ) ^ ((num.log2 : ℤ) - den.log2) ≤ num / den
  · rw [if_pos (hreached.mpr h), log_eq hq h hhigh]
  · rw [if_neg (mt hreached.mp h), log_eq hq hlow.le (by rw [sub_add_cancel]; exact not_le.mp h)]

/-- The bits of a quotient, from its last place and its significand on that place. -/
theorem nearestBits_eq {place : ℤ} (hnum : 0 < num) (hden : 0 < den)
    (hplace : lastPlace num den = place) (hr : Rounds (num / den / 2 ^ place) r) :
    nearestBits num den = min ((place + 1074).toNat * Nat.pow 2 52 + r) infinityBits := by
  unfold nearestBits
  rw [if_neg (Nat.ne_of_gt hnum), hplace]
  dsimp only
  by_cases hsign : 0 ≤ place
  · obtain ⟨n, rfl⟩ := Int.eq_ofNat_of_zero_le hsign
    have hgrown : 0 < den * Nat.pow 2 n := Nat.mul_pos hden (Nat.pow_pos (by decide))
    have hr' : Rounds (num / (den * Nat.pow 2 n : ℕ)) r := by
      rw [Nat.pow_eq, Nat.cast_mul, Nat.cast_pow, ← div_div]
      exact_mod_cast hr
    rw [if_pos hsign, Int.toNat_natCast, roundHalfEven_eq hgrown hr']
  · obtain ⟨n, rfl⟩ : ∃ n : ℕ, place = -(n : ℤ) := ⟨(-place).toNat, by omega⟩
    have hr' : Rounds ((num * Nat.pow 2 n : ℕ) / den) r := by
      rw [zpow_neg, zpow_natCast, div_inv_eq_mul, div_mul_eq_mul_div] at hr
      rw [Nat.pow_eq, Nat.cast_mul, Nat.cast_pow]
      exact_mod_cast hr
    rw [if_neg hsign, neg_neg, Int.toNat_natCast, roundHalfEven_eq hden hr']

/-! ## Numbers in the interval of a double -/

open Decimal (Neighbourhood)
open Decimal.Neighbourhood (below low_of high_of scale_pos)

/-- Half a place to each side of a double, and at a power of two only a quarter below. -/
theorem bounds_of_holds (hm : 0 < m) (h : (Neighbourhood.of m e).Holds q) :
    if m % 2 = 0 then
      4 * (m : ℚ) - below m e ≤ 4 * (q / 2 ^ e) ∧ 4 * (q / 2 ^ e) ≤ 4 * m + 2
    else 4 * (m : ℚ) - below m e < 4 * (q / 2 ^ e) ∧ 4 * (q / 2 ^ e) < 4 * m + 2 := by
  have hscale : (0 : ℚ) < 2 ^ (e - 2) * (Neighbourhood.of m e).scale := by
    have : (0 : ℚ) < (Neighbourhood.of m e).scale := by exact_mod_cast scale_pos m e
    positivity
  have hq : q * (Neighbourhood.of m e).scale =
      4 * (q / 2 ^ e) * (2 ^ (e - 2) * (Neighbourhood.of m e).scale) := by
    have hplace : (2 : ℚ) ^ e = 4 * 2 ^ (e - 2) := by
      rw [zpow_sub₀ (by norm_num)]
      norm_num
      ring
    rw [hplace]
    field_simp
  have hlow := (low_of (e := e) hm).trans (mul_assoc _ _ _)
  have hhigh := (high_of m e).trans (mul_assoc _ _ _)
  rw [Neighbourhood.Holds, hq, hlow, hhigh, mul_le_mul_iff_left₀ hscale,
    mul_le_mul_iff_left₀ hscale, mul_lt_mul_iff_left₀ hscale, mul_lt_mul_iff_left₀ hscale] at h
  simpa [Neighbourhood.of] using h

theorem half_of_holds (hm : 0 < m) (h : (Neighbourhood.of m e).Holds q) :
    4 * (m : ℚ) - below m e ≤ 4 * (q / 2 ^ e) ∧ 4 * (q / 2 ^ e) ≤ 4 * m + 2 := by
  have hbounds := bounds_of_holds hm h
  split at hbounds
  · exact hbounds
  · exact ⟨hbounds.1.le, hbounds.2.le⟩

/-- What rounds to a double is half its last place at least, and less than 53 digits hold. -/
theorem size_of_holds (hm : 0 < m) (hm53 : m < 2 ^ 53) (h : (Neighbourhood.of m e).Holds q) :
    (2 : ℚ) ^ (e - 1) ≤ q ∧ q < 2 ^ (e + 53) := by
  have hunit : (0 : ℚ) < 2 ^ e := by positivity
  have hbelow : (below m e : ℚ) ≤ 2 := by exact_mod_cast (Neighbourhood.below_bounds m e).2
  have hbounds := half_of_holds hm h
  have hm1 : (1 : ℚ) ≤ m := by exact_mod_cast hm
  have hm53' : (m : ℚ) + 1 ≤ 2 ^ 53 := by exact_mod_cast hm53
  constructor
  · rw [zpow_sub_one₀ (by norm_num), mul_comm, ← le_div_iff₀ hunit]
    norm_num
    linarith
  · rw [zpow_add₀ (by norm_num), mul_comm, ← div_lt_iff₀ hunit]
    norm_num
    linarith

/-- On the last place of a double, a number is rounded to its significand. -/
theorem rounds_of_holds (hm : 0 < m) (h : (Neighbourhood.of m e).Holds q) :
    Rounds (q / 2 ^ e) m := by
  have hbelow : (below m e : ℚ) ≤ 2 := by exact_mod_cast (Neighbourhood.below_bounds m e).2
  have hhalf := half_of_holds hm h
  refine ⟨by linarith, by linarith, ?_⟩
  have hbounds := bounds_of_holds hm h
  split at hbounds
  · rename_i heven
    exact .inl heven
  · exact .inr ⟨by linarith, by linarith⟩

/-- Below a power of two the last place is finer, and a number is rounded up to the power. -/
theorem rounds_below_of_holds (hbelow : below (2 ^ 52) e = 1)
    (h : (Neighbourhood.of (2 ^ 52) e).Holds q) (hfirst : q / 2 ^ e < 2 ^ 52) :
    Rounds (q / 2 ^ (e - 1)) (2 ^ 53) := by
  have hbounds := half_of_holds (by norm_num) h
  rw [hbelow] at hbounds
  push_cast at hbounds
  have hhalf : q / 2 ^ (e - 1) = 2 * (q / 2 ^ e) := by
    rw [zpow_sub_one₀ (by norm_num)]
    field_simp
  rw [hhalf]
  push_cast
  exact ⟨by linarith, by linarith, .inl (by norm_num)⟩

/-- **A number that rounds to a double has its bits.** -/
theorem nearestBits_of_holds (hnum : 0 < num) (hden : 0 < den) (hm : 0 < m) (hm53 : m < 2 ^ 53)
    (hnormal : e = -1074 ∨ 2 ^ 52 ≤ m) (hlow : -1074 ≤ e) (hhigh : e ≤ 971)
    (h : (Neighbourhood.of m e).Holds (num / den)) :
    nearestBits num den = (e + 1074).toNat * Nat.pow 2 52 + m := by
  have hq : (0 : ℚ) < num / den := by positivity
  have hunit : (0 : ℚ) < 2 ^ e := by positivity
  have hlog : Int.log 2 ((num : ℚ) / den) < e + 53 :=
    (Int.lt_zpow_iff_log_lt (b := 2) (by decide) hq).mp (size_of_holds hm hm53 h).2
  have hfit : (e + 1074).toNat * Nat.pow 2 52 + m ≤ infinityBits := by
    rw [infinityBits, Nat.pow_eq]
    omega
  by_cases hfirst : e = -1074 ∨ (2 : ℚ) ^ (e + 52) ≤ num / den
  · -- the last place is that of the double
    have hlast : lastPlace num den = e := by
      rw [lastPlace_eq hnum hden]
      rcases hfirst with rfl | hfirst
      · omega
      · have := (Int.zpow_le_iff_le_log (b := 2) (by decide) hq).mp hfirst
        omega
    rw [nearestBits_eq hnum hden hlast (rounds_of_holds hm h), Nat.min_eq_left hfit]
  · -- the double is a power of two, and just below it all digits are rounded up on a finer place
    obtain ⟨hsmall, hfirst⟩ := not_or.mp hfirst
    rw [not_le] at hfirst
    have hfirst' : (num : ℚ) / den / 2 ^ e < 2 ^ 52 := by
      rwa [div_lt_iff₀ hunit, mul_comm, ← zpow_natCast, ← zpow_add₀ (by norm_num)]
    have hbounds := half_of_holds hm h
    have hm52 : m = 2 ^ 52 := by
      have hbelow : (below m e : ℚ) ≤ 2 := by exact_mod_cast (Neighbourhood.below_bounds m e).2
      have hlt : (m : ℚ) < 2 ^ 52 + 1 := by linarith
      have hlt : m < 2 ^ 52 + 1 := by exact_mod_cast hlt
      exact le_antisymm (Nat.le_of_lt_succ hlt) (hnormal.resolve_left hsmall)
    subst hm52
    have hbelow : below (2 ^ 52) e = 1 := if_pos ⟨rfl, by omega⟩
    have hlast : lastPlace num den = e - 1 := by
      have hfine : (2 : ℚ) ^ (e + 51) ≤ num / den := by
        rw [hbelow] at hbounds
        push_cast at hbounds
        rw [zpow_add₀ (by norm_num), mul_comm, ← le_div_iff₀ hunit]
        norm_num
        linarith
      rw [lastPlace_eq hnum hden, log_eq hq hfine (by rwa [add_assoc])]
      omega
    have hcarry : (e - 1 + 1074).toNat * Nat.pow 2 52 + 2 ^ 53 =
        (e + 1074).toNat * Nat.pow 2 52 + 2 ^ 52 := by
      rw [Nat.pow_eq]
      omega
    rw [nearestBits_eq hnum hden hlast (rounds_below_of_holds hbelow h hfirst'), hcarry,
      Nat.min_eq_left hfit]

/-! ## Doubles and their bits -/

theorem eq_of_toBits_eq {x y : Float} (h : x.toBits = y.toBits) : x = y := by
  obtain ⟨⟨bits, _⟩⟩ := x
  obtain ⟨⟨bits', _⟩⟩ := y
  obtain rfl : bits = bits' := h
  rfl

variable {x : Float} {negative : Bool}

/-- A significand has its leading digit, unless the exponent is the smallest. -/
theorem normal_of_view (h : view x = .finite negative m e) : e = -1074 ∨ 2 ^ 52 ≤ m := by
  unfold view at h
  dsimp only at h
  split at h
  · split at h <;> cases h
  · split at h
    · obtain ⟨-, -, rfl⟩ := View.finite.inj h
      exact .inl rfl
    · obtain ⟨-, rfl, -⟩ := View.finite.inj h
      exact .inr (Nat.le_add_right _ _)

/-- A finite double is put together again from its sign, its significand and its exponent. -/
theorem ofMagnitude_of_view (h : view x = .finite negative m e) :
    ofMagnitude negative ((e + 1074).toNat * Nat.pow 2 52 + m) = x := by
  have hfield := (isFinite_iff x).mp (isFinite_of_view h)
  have hmax : x.toBits.toNat < 2 ^ 64 := x.toBits.toNat_lt
  have hbits : (if negative then Nat.pow 2 63 + ((e + 1074).toNat * Nat.pow 2 52 + m)
      else (e + 1074).toNat * Nat.pow 2 52 + m) = x.toBits.toNat := by
    unfold view at h
    dsimp only at h
    rw [if_neg hfield] at h
    generalize x.toBits.toNat = bits at *
    simp only [Nat.pow_eq] at *
    split at h
    · obtain ⟨rfl, rfl, rfl⟩ := View.finite.inj h
      rw [show ((-1074 : ℤ) + 1074).toNat = 0 from rfl, Nat.zero_mul, Nat.zero_add]
      simp only [decide_eq_true_eq]
      split
      · omega
      · omega
    · obtain ⟨rfl, rfl, rfl⟩ := View.finite.inj h
      simp only [decide_eq_true_eq]
      split
      · omega
      · omega
  rw [ofMagnitude, hbits, UInt64.ofNat_toNat]
  exact eq_of_toBits_eq (toBits_ofBits hfield)

/-! ## Decimals -/

theorem ofDecimal_zero (negative : Bool) (k : ℤ) :
    ofDecimal negative 0 k = ofMagnitude negative 0 := by
  unfold ofDecimal
  dsimp only
  rw [if_pos (.inl rfl)]

/-- How many digits a decimal has tells its size. -/
theorem size_bounds {c : ℕ} {k : ℤ} (hc : 0 < c) :
    (10 : ℚ) ^ (((Nat.toDigits 10 c).length : ℤ) + k - 1) ≤ c * 10 ^ k ∧
      c * 10 ^ k < (10 : ℚ) ^ (((Nat.toDigits 10 c).length : ℤ) + k) := by
  have hten (n : ℕ) : (10 : ℚ) ^ ((n : ℤ) + k) = 10 ^ n * 10 ^ k := by
    rw [zpow_add₀ (by norm_num), zpow_natCast]
  have hpos : 0 < (Nat.toDigits 10 c).length := Nat.length_toDigits_pos
  have hhigh : c < 10 ^ (Nat.toDigits 10 c).length :=
    (Nat.length_toDigits_le_iff (by decide) hpos).mp (Nat.le_refl _)
  have hlow : 10 ^ ((Nat.toDigits 10 c).length - 1) ≤ c := by
    by_cases hone : (Nat.toDigits 10 c).length = 1
    · rw [hone]
      exact hc
    · by_contra hlt
      have := (Nat.length_toDigits_le_iff (by decide) (by omega)).mpr (Nat.lt_of_not_le hlt)
      omega
  constructor
  · rw [show ((Nat.toDigits 10 c).length : ℤ) + k - 1 = ((Nat.toDigits 10 c).length - 1 : ℕ) + k by
      omega, hten]
    gcongr
    exact_mod_cast hlow
  · rw [hten]
    gcongr
    exact_mod_cast hhigh

/-- A decimal of ordinary size is rounded as the quotient that it is. -/
theorem ofDecimal_eq_nearest (negative : Bool) {c : ℕ} {k : ℤ} (hc : 0 < c)
    (hlow : -400 ≤ ((Nat.toDigits 10 c).length : ℤ) + k)
    (hhigh : ((Nat.toDigits 10 c).length : ℤ) + k ≤ 400) :
    ∃ num den : ℕ, 0 < num ∧ 0 < den ∧ (num : ℚ) / den = c * 10 ^ k ∧
      ofDecimal negative c k = nearest negative num den := by
  unfold ofDecimal
  dsimp only
  rw [if_neg (by omega), if_neg (by omega)]
  by_cases hk : 0 ≤ k
  · obtain ⟨n, rfl⟩ := Int.eq_ofNat_of_zero_le hk
    rw [if_pos hk, Int.toNat_natCast]
    refine ⟨_, _, Nat.mul_pos hc (Nat.pow_pos (by decide)), Nat.one_pos, ?_, rfl⟩
    rw [Nat.cast_one, div_one, Nat.cast_mul, Nat.cast_pow, zpow_natCast]
    rfl
  · obtain ⟨n, rfl⟩ : ∃ n : ℕ, k = -(n : ℤ) := ⟨(-k).toNat, by omega⟩
    rw [if_neg hk, neg_neg, Int.toNat_natCast]
    refine ⟨_, _, hc, Nat.pow_pos (by decide), ?_, rfl⟩
    rw [Nat.cast_pow, zpow_neg, zpow_natCast, div_eq_mul_inv]
    rfl

/-- What has the size of a double has not too many digits, and not too few. -/
theorem digits_of_size {c : ℕ} {k : ℤ} (hc : 0 < c) (hleast : (2 : ℚ) ^ (-1075 : ℤ) ≤ c * 10 ^ k)
    (hmost : (c : ℚ) * 10 ^ k < 2 ^ (1024 : ℤ)) :
    -400 ≤ ((Nat.toDigits 10 c).length : ℤ) + k ∧
      ((Nat.toDigits 10 c).length : ℤ) + k ≤ 400 := by
  obtain ⟨hsizelow, hsizehigh⟩ := size_bounds (k := k) hc
  -- ten is more than three times two, so the bounds need not be sharp
  constructor
  · by_contra hless
    have hpower : (10 : ℚ) ^ (((Nat.toDigits 10 c).length : ℤ) + k) ≤ 2 ^ (-1075 : ℤ) := by
      calc (10 : ℚ) ^ (((Nat.toDigits 10 c).length : ℤ) + k)
          ≤ 10 ^ (-400 : ℤ) := zpow_le_zpow_right₀ (by norm_num) (by omega)
        _ ≤ 8 ^ (-400 : ℤ) := by
            rw [zpow_neg, zpow_neg]
            exact inv_anti₀ (by positivity)
              (zpow_le_zpow_left₀ (by norm_num) (by norm_num) (by norm_num))
        _ = 2 ^ (3 * -400 : ℤ) := by rw [zpow_mul]; norm_num
        _ ≤ 2 ^ (-1075 : ℤ) := zpow_le_zpow_right₀ (by norm_num) (by norm_num)
    exact absurd (hsizehigh.trans_le hpower) (not_lt.mpr hleast)
  · by_contra hmore
    have hpower : (2 : ℚ) ^ (1024 : ℤ) ≤ 10 ^ (((Nat.toDigits 10 c).length : ℤ) + k - 1) := by
      calc (2 : ℚ) ^ (1024 : ℤ)
          ≤ 2 ^ (3 * 400 : ℤ) := zpow_le_zpow_right₀ (by norm_num) (by norm_num)
        _ = 8 ^ (400 : ℤ) := by rw [zpow_mul]; norm_num
        _ ≤ 10 ^ (400 : ℤ) := zpow_le_zpow_left₀ (by norm_num) (by norm_num) (by norm_num)
        _ ≤ _ := zpow_le_zpow_right₀ (by norm_num) (by omega)
    exact absurd (hmost.trans_le (hpower.trans hsizelow)) (lt_irrefl _)

/-- **Every decimal in the interval of a double is read as that double.** -/
theorem ofDecimal_of_holds {c : ℕ} {k : ℤ} (hview : view x = .finite negative m e) (hm : 0 < m)
    (h : (Neighbourhood.of m e).Holds (c * 10 ^ k)) : ofDecimal negative c k = x := by
  obtain ⟨_, _, _, hview', hm53, hlow, hhigh⟩ := view_finite (isFinite_of_view hview)
  obtain ⟨rfl, rfl, rfl⟩ := View.finite.inj (hview.symm.trans hview')
  obtain ⟨hleast, hmost⟩ := size_of_holds hm hm53 h
  have hc : 0 < c := by
    by_contra hzero
    rw [Nat.eq_zero_of_not_pos hzero, Nat.cast_zero, zero_mul] at hleast
    exact absurd hleast (not_le.mpr (by positivity))
  obtain ⟨hsmall, hlarge⟩ := digits_of_size hc
    ((zpow_le_zpow_right₀ (by norm_num) (by omega)).trans hleast)
    (hmost.trans_le (zpow_le_zpow_right₀ (by norm_num) (by omega)))
  obtain ⟨num, den, hnum, hden, hquotient, hread⟩ :=
    ofDecimal_eq_nearest negative hc hsmall hlarge
  rw [hread, nearest, nearestBits_of_holds hnum hden hm hm53 (normal_of_view hview) hlow hhigh
    (hquotient ▸ h), ofMagnitude_of_view hview]

end Milling.Double
