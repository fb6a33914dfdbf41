import Milling.Number.Decimal
import Mathlib.Algebra.Order.Field.Power
import Mathlib.Data.Rat.Cast.Order
import Mathlib.Tactic.FieldSimp
import Mathlib.Tactic.Linarith
import Mathlib.Tactic.NormNum
import Mathlib.Tactic.Positivity
import Mathlib.Tactic.Ring

/-!
# The shortest decimal of a double

The search for the fewest digits works on whole numbers with a common
denominator, one power of ten after the other. Here its result is described in
exact numbers instead: it lies among the numbers that round to the double, and
its coefficient fits into 64 bits.

The bound on the coefficient comes from the grid above the one that was hit. No
multiple of ten units was in the interval, so ten units are at least as long as
the interval, and the double is only so many times longer than its own interval.
That the search ends at all is a matter of where it starts: the guess at the
leading digit is never far off over the range of doubles.
-/

namespace Milling

/-- An integer power, without the part of it that is below one. -/
theorem zpow_mul_pow_toNat {b : ℚ} (hb : b ≠ 0) (k : ℤ) : b ^ k * b ^ (-k).toNat = b ^ k.toNat := by
  rw [← zpow_natCast, ← zpow_natCast, ← zpow_add₀ hb]
  congr 1
  omega

theorem roundNearest_eq (tie : Tie) (num den : ℕ) :
    roundNearest tie num den = num / den ∨ roundNearest tie num den = num / den + 1 := by
  unfold roundNearest
  dsimp only
  split
  · exact .inl rfl
  · split
    · exact .inr rfl
    · cases tie with
      | up => exact .inr rfl
      | even =>
          rcases Nat.mod_two_eq_zero_or_one (num / den) with hm | hm
          · exact .inl (by simp only [hm, Nat.add_zero])
          · exact .inr (by simp only [hm])

namespace Decimal

namespace Neighbourhood

variable {n : Neighbourhood} {tie : Tie} {k : ℤ}

/-- Whether an exact number lies in the interval. -/
def Holds (n : Neighbourhood) (q : ℚ) : Prop :=
  if n.closed then (n.low : ℚ) ≤ q * n.scale ∧ q * n.scale ≤ n.high
  else (n.low : ℚ) < q * n.scale ∧ q * n.scale < n.high

/-- Whatever is not in the interval but reaches its value only from below, lies below all of it. -/
theorem le_low_of_not_holds {q : ℚ} (h : ¬ n.Holds q) (hq : q * n.scale < n.high) :
    q * n.scale ≤ n.low := by
  rw [Holds] at h
  by_contra hlow
  push Not at hlow
  split at h
  · exact h ⟨hlow.le, hq.le⟩
  · exact h ⟨hlow, hq⟩

theorem high_le_of_not_holds {q : ℚ} (h : ¬ n.Holds q) (hq : n.low < q * n.scale) :
    n.high ≤ q * n.scale := by
  rw [Holds] at h
  by_contra hhigh
  push Not at hhigh
  split at h
  · exact h ⟨hq.le, hhigh.le⟩
  · exact h ⟨hq, hhigh⟩

theorem holds_of_lt {q : ℚ} (hlow : n.low < q * n.scale) (hhigh : q * n.scale < n.high) :
    n.Holds q := by
  rw [Holds]
  split
  · exact ⟨hlow.le, hhigh.le⟩
  · exact ⟨hlow, hhigh⟩

theorem low_le_of_holds {q : ℚ} (h : n.Holds q) : (n.low : ℚ) ≤ q * n.scale := by
  rw [Holds] at h
  split at h
  · exact h.1
  · exact h.1.le

theorem le_high_of_holds {q : ℚ} (h : n.Holds q) : q * n.scale ≤ (n.high : ℚ) := by
  rw [Holds] at h
  split at h
  · exact h.2
  · exact h.2.le

theorem ten_zpow_mul (k : ℤ) : (10 : ℚ) ^ k * 10 ^ (-k).toNat = 10 ^ k.toNat :=
  zpow_mul_pow_toNat (by norm_num) k

/-- A count of units against a number of the interval, in whole numbers and in exact ones. -/
theorem units_eq (n : Neighbourhood) (k : ℤ) (c : ℕ) :
    ((c * (n.inUnitsOf k).scale : ℕ) : ℚ) = c * 10 ^ k * n.scale * 10 ^ (-k).toNat := by
  rw [inUnitsOf, Nat.cast_mul, Nat.cast_mul, Nat.pow_eq, Nat.cast_pow]
  push_cast
  rw [← ten_zpow_mul k]
  ring

theorem grown_le_iff (n : Neighbourhood) (k : ℤ) (a c : ℕ) :
    a * Nat.pow 10 (-k).toNat ≤ c * (n.inUnitsOf k).scale ↔ (a : ℚ) ≤ c * 10 ^ k * n.scale := by
  rw [← Nat.cast_le (α := ℚ), units_eq, Nat.pow_eq]
  push_cast
  exact mul_le_mul_iff_left₀ (by positivity)

theorem le_grown_iff (n : Neighbourhood) (k : ℤ) (a c : ℕ) :
    c * (n.inUnitsOf k).scale ≤ a * Nat.pow 10 (-k).toNat ↔ c * 10 ^ k * n.scale ≤ (a : ℚ) := by
  rw [← Nat.cast_le (α := ℚ), units_eq, Nat.pow_eq]
  push_cast
  exact mul_le_mul_iff_left₀ (by positivity)

/-- The test on whole numbers is the test on exact ones. -/
theorem contains_inUnitsOf (n : Neighbourhood) (k : ℤ) (c : ℕ) :
    (n.inUnitsOf k).contains c ↔ n.Holds (c * 10 ^ k) := by
  rw [contains, Holds]
  have hlow := n.grown_le_iff k n.low c
  have hhigh := n.le_grown_iff k n.high c
  have hlow' := n.le_grown_iff k n.low c
  have hhigh' := n.grown_le_iff k n.high c
  cases hclosed : n.closed with
  | true =>
      simp only [inUnitsOf, hclosed, if_true, Bool.and_eq_true, decide_eq_true_eq] at *
      rw [hlow, hhigh]
  | false =>
      simp only [inUnitsOf, hclosed, Bool.false_eq_true, if_false, Bool.and_eq_true,
        decide_eq_true_eq] at *
      rw [← not_le, hlow', ← not_le, hhigh', not_le, not_le]

/-- The whole number below the value, in units of a power of ten. -/
def floor (n : Neighbourhood) (k : ℤ) : ℕ := (n.inUnitsOf k).value / (n.inUnitsOf k).scale

theorem floor_le (n : Neighbourhood) (k : ℤ) : n.floor k * 10 ^ k * n.scale ≤ (n.value : ℚ) := by
  rw [← le_grown_iff]
  exact Nat.div_mul_le_self _ _

theorem lt_floor (n : Neighbourhood) (hn : 0 < n.scale) (k : ℤ) :
    (n.value : ℚ) < (n.floor k + 1 : ℕ) * 10 ^ k * n.scale := by
  have hscale : 0 < (n.inUnitsOf k).scale :=
    Nat.mul_pos hn (Nat.pow_pos (by decide))
  rw [← not_le, ← le_grown_iff, not_le]
  exact Nat.lt_of_lt_of_eq (Nat.lt_div_mul_add hscale) (by rw [Nat.add_mul, Nat.one_mul]; rfl)

/-- The nearest whole number in the interval is one of the two neighbours of the value. -/
theorem nearestWhole?_eq_some {c : ℕ} (h : (n.inUnitsOf k).nearestWhole? tie = some c) :
    n.Holds (c * 10 ^ k) ∧ c ≤ n.floor k + 1 := by
  rw [← contains_inUnitsOf]
  unfold nearestWhole? at h
  dsimp only at h
  split at h
  · rename_i hboth
    have hboth := Bool.and_eq_true_iff.mp hboth
    have hc : c = n.floor k ∨ c = n.floor k + 1 := by
      rw [← Option.some.inj h]
      exact roundNearest_eq _ _ _
    rcases hc with rfl | rfl
    · exact ⟨hboth.1, Nat.le_succ _⟩
    · exact ⟨hboth.2, Nat.le_refl _⟩
  · split at h
    · rename_i hlow
      rw [← Option.some.inj h]
      exact ⟨hlow, Nat.le_succ _⟩
    · split at h
      · rename_i hhigh
        rw [← Option.some.inj h]
        exact ⟨hhigh, Nat.le_refl _⟩
      · exact absurd h (by simp)

/-- Where the interval holds no whole number, it holds neither neighbour of the value. -/
theorem nearestWhole?_eq_none (h : (n.inUnitsOf k).nearestWhole? tie = none) :
    ¬ n.Holds (n.floor k * 10 ^ k) ∧ ¬ n.Holds ((n.floor k + 1 : ℕ) * 10 ^ k) := by
  rw [← contains_inUnitsOf, ← contains_inUnitsOf]
  unfold nearestWhole? at h
  dsimp only at h
  split at h
  · exact absurd h (by simp)
  · split at h
    · exact absurd h (by simp)
    · split at h
      · exact absurd h (by simp)
      · rename_i hlow hhigh
        exact ⟨hlow, hhigh⟩

/-- What the walk ends with, it found on its grid; and it found nothing one grid before. -/
theorem coarsest?_eq_some {d : Decimal} : ∀ {tries : ℕ} {top : ℤ},
    n.coarsest? tie tries top = some d →
    (n.inUnitsOf d.exponent).nearestWhole? tie = some d.coefficient ∧
      (d.exponent = top ∨ (n.inUnitsOf (d.exponent + 1)).nearestWhole? tie = none)
  | 0, _, h => absurd h (by simp [coarsest?])
  | tries + 1, top, h => by
      rw [coarsest?] at h
      split at h
      · rename_i c hc
        obtain rfl := Option.some.inj h
        exact ⟨hc, .inl rfl⟩
      · rename_i hnone
        obtain ⟨hhit, hmiss⟩ := coarsest?_eq_some h
        refine ⟨hhit, .inr ?_⟩
        rcases hmiss with htop | hmiss
        · rw [htop, Int.sub_add_cancel]
          exact hnone
        · exact hmiss

/-- The walk does not go past a grid on which there is something to find. -/
theorem coarsest?_ne_none : ∀ {tries : ℕ} {top : ℤ} (j : ℕ), j < tries →
    (n.inUnitsOf (top - j)).nearestWhole? tie ≠ none → n.coarsest? tie tries top ≠ none
  | 0, _, _, hj, _ => absurd hj (Nat.not_lt_zero _)
  | tries + 1, top, j, hj, h => by
      rw [coarsest?]
      split
      · simp
      · rename_i hnone
        cases j with
        | zero => exact absurd (by simpa using hnone) h
        | succ j =>
            refine coarsest?_ne_none j (by omega) ?_
            have hgrid : top - 1 - (j : ℤ) = top - (j + 1 : ℕ) := by push_cast; ring
            rw [hgrid]
            exact h

/-! ## The numbers that round to one double -/

variable {m : ℕ} {e : ℤ}

theorem scale_pos (m : ℕ) (e : ℤ) : 0 < (of m e).scale := Nat.pow_pos (by decide)

/-- The unit and the common denominator make a quarter of the last place. -/
theorem unit_eq (e : ℤ) : ((2 : ℚ) ^ (e - 2).toNat) = 2 ^ (e - 2) * 2 ^ (-(e - 2)).toNat :=
  (zpow_mul_pow_toNat (by norm_num) (e - 2)).symm

theorem value_of (m : ℕ) (e : ℤ) :
    ((of m e).value : ℚ) = 4 * m * 2 ^ (e - 2) * (of m e).scale := by
  simp only [of, Nat.pow_eq]
  push_cast
  rw [unit_eq]
  ring

theorem high_of (m : ℕ) (e : ℤ) :
    ((of m e).high : ℚ) = (4 * m + 2) * 2 ^ (e - 2) * (of m e).scale := by
  simp only [of, Nat.pow_eq]
  push_cast
  rw [unit_eq]
  ring

/-- How far the interval reaches below the value, in quarters of the last place. -/
def below (m : ℕ) (e : ℤ) : ℕ := if m = Nat.pow 2 52 ∧ -1074 < e then 1 else 2

theorem below_bounds (m : ℕ) (e : ℤ) : 1 ≤ below m e ∧ below m e ≤ 2 := by
  unfold below
  split
  · exact ⟨Nat.le_refl 1, Nat.le_succ 1⟩
  · exact ⟨Nat.le_succ 1, Nat.le_refl 2⟩

theorem low_of (hm : 0 < m) :
    ((of m e).low : ℚ) = (4 * m - below m e) * 2 ^ (e - 2) * (of m e).scale := by
  have hbelow := below_bounds m e
  have hle : below m e ≤ 4 * m := by omega
  have hlow : (of m e).low = (4 * m - below m e) * 2 ^ (e - 2).toNat := by
    simp only [of, below, Nat.pow_eq]
  have hscale : ((of m e).scale : ℚ) = 2 ^ (-(e - 2)).toNat := by
    simp only [of, Nat.pow_eq]
    push_cast
    rfl
  rw [hlow, hscale]
  push_cast [hle]
  rw [unit_eq, ← mul_assoc]

/-- The interval does not reach down to zero. -/
theorem low_pos (e : ℤ) (hm : 0 < m) : 0 < (of m e).low := by
  have hbelow := below_bounds m e
  have hle : (below m e : ℚ) + 1 ≤ 4 * m := by
    have : below m e + 1 ≤ 4 * m := by omega
    exact_mod_cast this
  have hscale : (0 : ℚ) < (of m e).scale := by exact_mod_cast scale_pos m e
  have hlow : (0 : ℚ) < (of m e).low := by
    rw [low_of hm]
    have hpos : (0 : ℚ) < 4 * m - below m e := by linarith
    positivity
  exact_mod_cast hlow

/-- The interval reaches at least a quarter of a place below the value. -/
theorem low_le (e : ℤ) (hm : 0 < m) :
    ((of m e).low : ℚ) ≤ (4 * m - 1) * 2 ^ (e - 2) * (of m e).scale := by
  have hbelow : (1 : ℚ) ≤ below m e := by exact_mod_cast (below_bounds m e).1
  rw [low_of hm]
  gcongr

/-- A grid finer than half a place has a point in the interval. -/
theorem nearestWhole?_ne_none (hm : 0 < m) (hk : (10 : ℚ) ^ k < 2 * 2 ^ (e - 2)) :
    ((of m e).inUnitsOf k).nearestWhole? tie ≠ none := by
  intro h
  refine (nearestWhole?_eq_none h).2 (holds_of_lt ?_ ?_)
  · have hvalue := (of m e).lt_floor (scale_pos m e) k
    have hlow := low_le e hm
    rw [value_of] at hvalue
    have hs : (0 : ℚ) < 2 ^ (e - 2) * (of m e).scale := by
      have := scale_pos m e
      positivity
    linarith
  · have hfloor := (of m e).floor_le k
    have hs : (0 : ℚ) < (of m e).scale := by exact_mod_cast scale_pos m e
    have hstep := mul_lt_mul_of_pos_right hk hs
    rw [value_of] at hfloor
    rw [high_of]
    push_cast
    linarith

/-- A grid without a point in the interval is coarser than the interval is long. -/
theorem le_of_nearestWhole?_eq_none (hm : 0 < m)
    (h : ((of m e).inUnitsOf k).nearestWhole? tie = none) : 3 * (2 : ℚ) ^ (e - 2) ≤ 10 ^ k := by
  obtain ⟨hbelow, habove⟩ := nearestWhole?_eq_none h
  have hs : (0 : ℚ) < (of m e).scale := by exact_mod_cast scale_pos m e
  have hplace : (0 : ℚ) < 2 ^ (e - 2) * (of m e).scale := by positivity
  have hlow := low_le e hm
  have hfloor := (of m e).floor_le k
  have hceil := (of m e).lt_floor (scale_pos m e) k
  rw [value_of] at hfloor hceil
  have h1 := le_low_of_not_holds hbelow (by rw [high_of]; linarith)
  have h2 := high_le_of_not_holds habove (by linarith)
  rw [high_of] at h2
  push_cast at h2
  refine le_of_mul_le_mul_right ?_ hs
  linarith

end Neighbourhood

/-! ## The search as a whole -/

/--
The slope `0.30103` that the guess at the leading digit uses is close enough to
the logarithm of two for every power of two that a double can be near.
-/
theorem slope_bounds : ∀ n < 1100,
    (2 ^ n ≤ 10 ^ (n * 30103 / 100000 + 2) ∧
      10 ^ (n * 30103 / 100000) * 2 ^ 54 < 10 ^ 22 * 2 ^ n) ∧
    (10 ^ ((n * 30103 + 99999) / 100000) ≤ 10 ^ 2 * 2 ^ n ∧
      2 ^ (n + 54) < 10 ^ ((n * 30103 + 99999) / 100000 + 22)) := by
  decide +kernel

/-- The walk starts at most one power of ten too low, and twenty-three steps take it low enough. -/
theorem top_bounds {l : ℤ} (hlow : -1100 < l) (hhigh : l < 1100) :
    (2 : ℚ) ^ l ≤ 10 ^ (l * 30103 / 100000 + 1 + 1) ∧
      (10 : ℚ) ^ (l * 30103 / 100000 + 1 - 23) < 2 ^ (l - 54) := by
  obtain ⟨n, rfl | rfl⟩ := l.eq_nat_or_neg
  · -- the guess is rounded towards zero
    obtain ⟨⟨h1, h2⟩, -⟩ := slope_bounds n (by omega)
    have htop : (n : ℤ) * 30103 / 100000 = (n * 30103 / 100000 : ℕ) := by push_cast; rfl
    rw [htop]
    generalize n * 30103 / 100000 = t at h1 h2
    refine ⟨by exact_mod_cast h1, ?_⟩
    have h2 : (10 : ℚ) ^ t * 2 ^ 54 < 10 ^ 22 * 2 ^ n := by exact_mod_cast h2
    have hten : (10 : ℚ) ^ ((t : ℤ) + 1 - 23) = 10 ^ t / 10 ^ 22 := by
      rw [show (t : ℤ) + 1 - 23 = t - (22 : ℕ) by push_cast; ring, zpow_sub₀ (by norm_num),
        zpow_natCast, zpow_natCast]
    have htwo : (2 : ℚ) ^ ((n : ℤ) - 54) = 2 ^ n / 2 ^ 54 := by
      rw [show (54 : ℤ) = (54 : ℕ) from rfl, zpow_sub₀ (by norm_num), zpow_natCast, zpow_natCast]
    rw [hten, htwo, div_lt_div_iff₀ (by positivity) (by positivity)]
    linarith
  · -- the guess is rounded away from zero
    obtain ⟨-, h1, h2⟩ := slope_bounds n (by omega)
    have htop : -(n : ℤ) * 30103 / 100000 = -((n * 30103 + 99999) / 100000 : ℕ) := by
      push_cast
      omega
    rw [htop]
    generalize (n * 30103 + 99999) / 100000 = t at h1 h2
    have h1 : (10 : ℚ) ^ t ≤ 10 ^ 2 * 2 ^ n := by exact_mod_cast h1
    have h2 : (2 : ℚ) ^ (n + 54) < 10 ^ (t + 22) := by exact_mod_cast h2
    have htwo : (2 : ℚ) ^ (-(n : ℤ)) = (2 ^ n)⁻¹ := by rw [zpow_neg, zpow_natCast]
    have hten : (10 : ℚ) ^ (-(t : ℤ) + 1 + 1) = 10 ^ 2 / 10 ^ t := by
      rw [show -(t : ℤ) + 1 + 1 = (2 : ℕ) - t by push_cast; ring, zpow_sub₀ (by norm_num),
        zpow_natCast, zpow_natCast]
    have hten' : (10 : ℚ) ^ (-(t : ℤ) + 1 - 23) = (10 ^ (t + 22))⁻¹ := by
      rw [show -(t : ℤ) + 1 - 23 = -(t + 22 : ℕ) by push_cast; ring, zpow_neg, zpow_natCast]
    have htwo' : (2 : ℚ) ^ (-(n : ℤ) - 54) = (2 ^ (n + 54))⁻¹ := by
      rw [show -(n : ℤ) - 54 = -(n + 54 : ℕ) by push_cast; ring, zpow_neg, zpow_natCast]
    rw [htwo, hten, hten', htwo']
    constructor
    · rw [inv_eq_one_div, div_le_div_iff₀ (by positivity) (by positivity)]
      linarith
    · exact inv_strictAnti₀ (by positivity) h2

variable {m : ℕ} {e : ℤ}

/-- The search does not run out, so the exact decimal never has to stand in. -/
theorem coarsest?_top_ne_none (tie : Tie) (hm : 0 < m) (hm53 : m < 2 ^ 53) (hlow : -1074 ≤ e)
    (hhigh : e ≤ 971) :
    (Neighbourhood.of m e).coarsest? tie 24
      (((m.log2 : ℤ) + 1 + e) * 30103 / 100000 + 1) ≠ none := by
  have hlog : m.log2 < 53 := (Nat.log2_lt (Nat.ne_of_gt hm)).mpr hm53
  refine Neighbourhood.coarsest?_ne_none 23 (by decide) (Neighbourhood.nearestWhole?_ne_none hm ?_)
  have htop := (top_bounds (l := (m.log2 : ℤ) + 1 + e) (by omega) (by omega)).2
  calc (10 : ℚ) ^ (((m.log2 : ℤ) + 1 + e) * 30103 / 100000 + 1 - (23 : ℕ))
      < 2 ^ ((m.log2 : ℤ) + 1 + e - 54) := htop
    _ ≤ 2 ^ (1 + (e - 2)) := zpow_le_zpow_right₀ (by norm_num) (by omega)
    _ = 2 * 2 ^ (e - 2) := zpow_one_add₀ (by norm_num) _

/-- On the grid that the walk starts from, the value has not yet two digits. -/
theorem value_le_top (hm : 0 < m) (hm53 : m < 2 ^ 53) (hlow : -1074 ≤ e)
    (hhigh : e ≤ 971) :
    4 * (m : ℚ) * 2 ^ (e - 2) ≤ 10 * 10 ^ (((m.log2 : ℤ) + 1 + e) * 30103 / 100000 + 1) := by
  have hlog : m.log2 < 53 := (Nat.log2_lt (Nat.ne_of_gt hm)).mpr hm53
  have htop := (top_bounds (l := (m.log2 : ℤ) + 1 + e) (by omega) (by omega)).1
  have hlt : (m : ℚ) ≤ 2 ^ (m.log2 + 1) := by exact_mod_cast Nat.lt_log2_self.le
  rw [zpow_add_one₀ (by norm_num), mul_comm _ (10 : ℚ)] at htop
  calc 4 * (m : ℚ) * 2 ^ (e - 2) = m * 2 ^ e := by
        rw [zpow_sub₀ (by norm_num)]
        norm_num
        ring
    _ ≤ 2 ^ (m.log2 + 1) * 2 ^ e := by gcongr
    _ = 2 ^ ((m.log2 : ℤ) + 1 + e) := by
        rw [zpow_add₀ (by norm_num), ← zpow_natCast]
        push_cast
        rfl
    _ ≤ _ := htop

/-- The grid on which the search ends was hit, and the one before it, if there was one, was not. -/
theorem shortest_walk (tie : Tie) (hm : 0 < m) (hm53 : m < 2 ^ 53) (hlow : -1074 ≤ e)
    (hhigh : e ≤ 971) :
    ((Neighbourhood.of m e).inUnitsOf (shortest tie m e).exponent).nearestWhole? tie =
        some (shortest tie m e).coefficient ∧
      ((shortest tie m e).exponent = ((m.log2 : ℤ) + 1 + e) * 30103 / 100000 + 1 ∨
        3 * (2 : ℚ) ^ (e - 2) ≤ 10 ^ ((shortest tie m e).exponent + 1)) := by
  obtain ⟨d, hd⟩ := Option.ne_none_iff_exists'.mp
    (coarsest?_top_ne_none tie hm hm53 hlow hhigh)
  have hshortest : shortest tie m e = d := by
    rw [shortest, if_neg (Nat.ne_of_gt hm)]
    dsimp only
    rw [hd, Option.getD_some]
  obtain ⟨hhit, hgrid⟩ := Neighbourhood.coarsest?_eq_some hd
  rw [hshortest]
  exact ⟨hhit, hgrid.imp_right (Neighbourhood.le_of_nearestWhole?_eq_none hm)⟩

/--
**The shortest decimal of a double rounds to it, and has a coefficient of 64 bits.**
Readers that collect the digits in a machine word therefore take all of them.
-/
theorem shortest_spec (tie : Tie) (hm : 0 < m) (hm53 : m < 2 ^ 53) (hlow : -1074 ≤ e)
    (hhigh : e ≤ 971) :
    (Neighbourhood.of m e).Holds
        ((shortest tie m e).coefficient * 10 ^ (shortest tie m e).exponent) ∧
      (shortest tie m e).coefficient < 2 ^ 64 := by
  obtain ⟨hhit, hgrid⟩ := shortest_walk tie hm hm53 hlow hhigh
  generalize shortest tie m e = d at hhit hgrid ⊢
  obtain ⟨hholds, hnext⟩ := Neighbourhood.nearestWhole?_eq_some hhit
  refine ⟨hholds, ?_⟩
  have hscale : (0 : ℚ) < (Neighbourhood.of m e).scale := by
    exact_mod_cast Neighbourhood.scale_pos m e
  have hfloor := (Neighbourhood.of m e).floor_le d.exponent
  rw [Neighbourhood.value_of] at hfloor
  have hfloor := le_of_mul_le_mul_right hfloor hscale
  have hunit : (0 : ℚ) < 10 ^ d.exponent := by positivity
  have hm53 : (m : ℚ) < 2 ^ 53 := by exact_mod_cast hm53
  have hbound : ((Neighbourhood.of m e).floor d.exponent : ℚ) ≤ 10 ^ 18 := by
    refine le_of_mul_le_mul_right ?_ hunit
    rcases hgrid with htop | hplace
    · -- the first grid was hit, and the value has not yet two digits on it
      rw [htop] at hfloor hunit ⊢
      have hvalue := value_le_top hm (by exact_mod_cast hm53) hlow hhigh
      linarith
    · -- ten units are longer than the interval, and the value is below 2 ^ 53 places
      rw [zpow_add_one₀ (by norm_num)] at hplace
      have hpos : (0 : ℚ) < 2 ^ (e - 2) := by positivity
      have hm' : (m : ℚ) * 2 ^ (e - 2) ≤ 2 ^ 53 * 2 ^ (e - 2) :=
        mul_le_mul_of_nonneg_right hm53.le hpos.le
      linarith
  have hbound : (Neighbourhood.of m e).floor d.exponent ≤ 10 ^ 18 := by exact_mod_cast hbound
  omega

/-- The shortest decimal is at most half a place above the double. -/
theorem shortest_le (tie : Tie) (hm : 0 < m) (hm53 : m < 2 ^ 53) (hlow : -1074 ≤ e)
    (hhigh : e ≤ 971) :
    ((shortest tie m e).coefficient : ℚ) * 10 ^ (shortest tie m e).exponent ≤
      (4 * m + 2) * 2 ^ (e - 2) := by
  have hle := Neighbourhood.le_high_of_holds (shortest_spec tie hm hm53 hlow hhigh).1
  rw [Neighbourhood.high_of] at hle
  have hscale : (0 : ℚ) < (Neighbourhood.of m e).scale := by
    exact_mod_cast Neighbourhood.scale_pos m e
  exact le_of_mul_le_mul_right hle hscale

/-- No double but zero has zero among the numbers that round to it. -/
theorem shortest_pos (tie : Tie) (hm : 0 < m) (hm53 : m < 2 ^ 53) (hlow : -1074 ≤ e)
    (hhigh : e ≤ 971) : 0 < (shortest tie m e).coefficient := by
  have hholds := Neighbourhood.low_le_of_holds (shortest_spec tie hm hm53 hlow hhigh).1
  by_contra hzero
  have hpos : (0 : ℚ) < (Neighbourhood.of m e).low := by
    exact_mod_cast Neighbourhood.low_pos e hm
  rw [Nat.eq_zero_of_not_pos hzero, Nat.cast_zero, zero_mul, zero_mul] at hholds
  exact absurd hholds (not_le.mpr hpos)

end Decimal

end Milling
