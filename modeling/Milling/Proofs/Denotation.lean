import Milling.Proofs.Figures

/-!
# What written numbers denote

A program shows its numbers with a fixed number of decimal places. Here such a text is read
again, as an exact number, and compared with the exact value of the double that it was
written for. The two agree up to the last place that is shown, so the sign survives
exactly where there is something left to carry it: what is at most half a unit of the
last place is shown as zero.
-/

namespace Milling

/-! ## Reading a numeral -/

namespace Text

/-- The number that digits denote, if they may hold a point. -/
def unsigned (text : List Char) : ℚ :=
  let fraction := (text.dropWhile Char.isDigit).tail
  Nat.ofDigitChars 10 (text.takeWhile Char.isDigit ++ fraction) 0 / 10 ^ fraction.length

/-- The same behind a minus sign or none. -/
def signed : List Char → ℚ
  | '-' :: text => -unsigned text
  | text => unsigned text

/-- The number that a decimal numeral denotes. -/
def value? (text : List Char) : Option ℚ :=
  if isDecimal text then some (signed text) else none

theorem value?_of_isUnsigned {text : List Char} (h : isUnsigned text) :
    value? text = some (unsigned text) := by
  rw [value?, if_pos (isDecimal_of_isUnsigned h)]
  unfold signed
  split
  · exact absurd h (by simp [isUnsigned])
  · rfl

theorem value?_minus {text : List Char} (h : isUnsigned text) :
    value? ('-' :: text) = some (-unsigned text) := by
  have hdecimal : isDecimal ('-' :: text) := h
  rw [value?, if_pos hdecimal, signed]

theorem unsigned_digits {whole : List Char} (h : ∀ c ∈ whole, c.isDigit) :
    unsigned whole = Nat.ofDigitChars 10 whole 0 := by
  rw [unsigned, List.takeWhile_eq_self_iff.mpr h, List.dropWhile_eq_nil_iff.mpr h]
  simp

theorem unsigned_pointed {whole fraction : List Char} (h : ∀ c ∈ whole, c.isDigit) :
    unsigned (whole ++ '.' :: fraction) =
      Nat.ofDigitChars 10 (whole ++ fraction) 0 / 10 ^ fraction.length := by
  rw [unsigned, List.takeWhile_append_of_pos h, List.dropWhile_append_of_pos h,
    List.takeWhile_cons_of_neg (by decide), List.dropWhile_cons_of_neg (by decide),
    List.append_nil, List.tail_cons]

end Text

namespace Double

open Text (value? unsigned)

/-! ## Numbers with a fixed number of places -/

/-- A whole number of units of the last place is read as that number of units. -/
theorem unsigned_placed (places scaled : ℕ) :
    unsigned (placed places scaled) = scaled / 10 ^ places := by
  have hdigits : ∀ n, ∀ c ∈ Nat.toDigits 10 n, c.isDigit :=
    fun n c hc => Nat.isDigit_of_mem_toDigits (by decide) (by decide) hc
  rw [placed]
  by_cases hplaces : places = 0
  · subst hplaces
    rw [if_pos rfl, List.append_nil, Text.unsigned_digits (hdigits _),
      Nat.ofDigitChars_ten_toDigits]
    simp
  · rw [if_neg hplaces, Text.unsigned_pointed (hdigits _)]
    have hrest : scaled % 10 ^ places < 10 ^ places := Nat.mod_lt _ (Nat.pow_pos (by decide))
    have hshort : (Nat.toDigits 10 (scaled % 10 ^ places)).length ≤ places :=
      (Nat.length_toDigits_le_iff (by decide) (Nat.pos_of_ne_zero hplaces)).mpr hrest
    have hlength : (List.replicate (places - (Nat.toDigits 10 (scaled % 10 ^ places)).length) '0' ++
        Nat.toDigits 10 (scaled % 10 ^ places)).length = places := by
      rw [List.length_append, List.length_replicate]
      omega
    have hjoined : Nat.ofDigitChars 10 (Nat.toDigits 10 (scaled / 10 ^ places) ++
        (List.replicate (places - (Nat.toDigits 10 (scaled % 10 ^ places)).length) '0' ++
          Nat.toDigits 10 (scaled % 10 ^ places))) 0 = scaled := by
      rw [Nat.ofDigitChars_append, Nat.ofDigitChars_append, Nat.ofDigitChars_ten_toDigits,
        Nat.ofDigitChars_replicate_zero, Nat.ofDigitChars_eq_ofDigitChars_zero,
        Nat.ofDigitChars_ten_toDigits, ← Nat.mul_assoc, ← Nat.pow_add]
      rw [show (Nat.toDigits 10 (scaled % 10 ^ places)).length +
        (places - (Nat.toDigits 10 (scaled % 10 ^ places)).length) = places by omega]
      exact Nat.div_add_mod scaled (10 ^ places)
    simp only [Nat.pow_eq]
    rw [hjoined, hlength]

/-- The exact value of a double. What is not finite has none. -/
def value (x : Float) : ℚ :=
  match view x with
  | .finite negative significand exponent =>
    (if negative then -1 else 1) * (significand * 2 ^ exponent)
  | _ => 0

/-- The number that is shown for a double with a number of places. -/
def shown (places : ℕ) (x : Float) : ℚ :=
  match view x with
  | .finite negative significand exponent =>
    (if negative then -1 else 1) * (scaleBy places significand exponent / 10 ^ places)
  | _ => 0

variable {x : Float} {negative : Bool} {m places : ℕ} {e : ℤ}

theorem value_of_view (h : view x = .finite negative m e) :
    value x = (if negative then -1 else 1) * (m * 2 ^ e) := by
  rw [value, h]

theorem shown_of_view (h : view x = .finite negative m e) :
    shown places x = (if negative then -1 else 1) * (scaleBy places m e / 10 ^ places) := by
  rw [shown, h]

/-- **A double is read back as the number that is shown for it.** -/
theorem value?_fixed (places : ℕ) (h : x.isFinite) :
    value? (fixed places x).toList = some (shown places x) := by
  obtain ⟨negative, m, e, hview, -⟩ := view_finite h
  have hplaced := isUnsigned_placed places (scaleBy places m e)
  rw [fixed, write, String.toList_ofList, hview, shown_of_view hview]
  cases negative with
  | false =>
      show value? (placed places (scaleBy places m e)) = _
      rw [Text.value?_of_isUnsigned hplaced, unsigned_placed]
      simp
  | true =>
      show value? ('-' :: placed places (scaleBy places m e)) = _
      rw [Text.value?_minus hplaced, unsigned_placed]
      simp

/-! ## Up to half a unit of the last place -/

theorem roundHalfEven_pos_iff {num den : ℕ} : 0 < roundHalfEven num den ↔ den < 2 * num := by
  unfold roundHalfEven roundNearest
  dsimp only
  by_cases hless : num < den
  · rw [Nat.div_eq_of_lt hless, Nat.mod_eq_of_lt hless]
    split
    · omega
    · split
      · omega
      · omega
  · by_cases hden : den = 0
    · subst hden
      rw [Nat.mod_zero, Nat.div_zero]
      split
      · omega
      · split
        · omega
        · omega
    · have hquotient : 0 < num / den := Nat.div_pos (by omega) (by omega)
      split
      · omega
      · split
        · omega
        · omega

/-- What is more than half a unit of the last place is not shown as zero, and nothing else. -/
theorem scaleBy_pos_iff (places m : ℕ) (e : ℤ) :
    0 < scaleBy places m e ↔ 1 / (2 * 10 ^ places) < (m : ℚ) * 2 ^ e := by
  have hpower := zpow_mul_pow_toNat (b := (2 : ℚ)) (by norm_num) e
  have hden : (0 : ℚ) < 2 ^ (-e).toNat := by positivity
  rw [scaleBy, roundHalfEven_pos_iff, ← Nat.cast_lt (α := ℚ), div_lt_iff₀ (by positivity)]
  simp only [Nat.pow_eq]
  push_cast
  rw [← hpower]
  calc (2 : ℚ) ^ (-e).toNat < 2 * (m * 10 ^ places * ((2 : ℚ) ^ e * 2 ^ (-e).toNat))
      ↔ 1 * 2 ^ (-e).toNat < (m : ℚ) * 2 ^ e * (2 * 10 ^ places) * 2 ^ (-e).toNat := by
        rw [one_mul]
        constructor
        · intro h
          linarith
        · intro h
          linarith
    _ ↔ 1 < (m : ℚ) * 2 ^ e * (2 * 10 ^ places) := mul_lt_mul_iff_left₀ hden

theorem value_neg (h : x.isFinite) : value (-x) = -value x := by
  obtain ⟨negative, m, e, hview, -⟩ := view_finite h
  rw [value_of_view hview, value_of_view (view_neg hview)]
  cases negative with
  | false => simp
  | true => simp

theorem shown_neg (places : ℕ) (h : x.isFinite) : shown places (-x) = -shown places x := by
  obtain ⟨negative, m, e, hview, -⟩ := view_finite h
  rw [shown_of_view hview, shown_of_view (view_neg hview)]
  cases negative with
  | false => simp
  | true => simp

/-- **A double is shown as more than zero exactly if it is more than half a unit.** -/
theorem shown_pos_iff (places : ℕ) (h : x.isFinite) :
    0 < shown places x ↔ 1 / (2 * 10 ^ places) < value x := by
  obtain ⟨negative, m, e, hview, -⟩ := view_finite h
  rw [shown_of_view hview, value_of_view hview]
  cases negative with
  | false =>
      rw [if_neg (by decide), one_mul, one_mul, ← scaleBy_pos_iff]
      rw [div_pos_iff_of_pos_right (by positivity), Nat.cast_pos]
  | true =>
      have hshown : (0 : ℚ) ≤ scaleBy places m e / 10 ^ places := by positivity
      have hvalue : (0 : ℚ) ≤ m * 2 ^ e := by positivity
      have hunit : (0 : ℚ) < 1 / (2 * 10 ^ places) := by positivity
      rw [if_pos rfl]
      constructor
      · intro hpos
        linarith
      · intro hlarge
        linarith

theorem shown_nonneg (places : ℕ) (h : x.isFinite) (hvalue : 0 ≤ value x) :
    0 ≤ shown places x := by
  by_contra hnegative
  have hopposite : 0 < shown places (-x) := by
    rw [shown_neg places h]
    linarith
  rw [shown_pos_iff places (isFinite_neg h), value_neg h] at hopposite
  have hunit : (0 : ℚ) < 1 / (2 * 10 ^ places) := by positivity
  linarith

/-- A double without a fraction has a whole number as its value. -/
theorem exists_int_of_isWhole (h : isWhole x) : ∃ n : ℤ, value x = n := by
  unfold isWhole at h
  split at h
  · rename_i negative m e hview
    obtain ⟨k, hk⟩ := Nat.dvd_of_mod_eq_zero (of_decide_eq_true h)
    have hvalue : (m : ℚ) * 2 ^ e = ((k * 2 ^ e.toNat : ℕ) : ℤ) := by
      have hpower := zpow_mul_pow_toNat (b := (2 : ℚ)) (by norm_num) e
      rw [hk, Nat.pow_eq]
      push_cast
      rw [← hpower]
      ring
    rw [value_of_view hview, hvalue]
    cases negative with
    | false => exact ⟨_, one_mul _⟩
    | true => exact ⟨-(k * 2 ^ e.toNat : ℕ), by simp⟩
  · cases h

/-! ## The order of doubles -/

section Order

variable {y : Float} {m₁ m₂ : ℕ} {e₁ e₂ : ℤ}

/-- A magnitude that has its leading digit is above all those with smaller exponents. -/
theorem magnitude_lt_of_exponent_lt (hm₁ : m₁ < 2 ^ 53) (he₁ : -1074 ≤ e₁)
    (hm₂ : 2 ^ 52 ≤ m₂ ∨ e₂ = -1074) (h : e₁ < e₂) : (m₁ : ℚ) * 2 ^ e₁ < m₂ * 2 ^ e₂ := by
  have hleading : 2 ^ 52 ≤ m₂ := hm₂.resolve_right (by omega)
  calc (m₁ : ℚ) * 2 ^ e₁ < 2 ^ 53 * 2 ^ e₁ := by
        gcongr
        exact_mod_cast hm₁
    _ = 2 ^ 52 * 2 ^ (e₁ + 1) := by
        rw [zpow_add₀ (by norm_num)]
        ring
    _ ≤ 2 ^ 52 * 2 ^ e₂ := by
        gcongr
        · norm_num
        · exact h
    _ ≤ m₂ * 2 ^ e₂ := by
        gcongr
        exact_mod_cast hleading

/-- Magnitudes are compared by their exponents and then by their significands. -/
theorem compare_magnitude (hm₁ : m₁ < 2 ^ 53) (he₁ : -1074 ≤ e₁) (hn₁ : 2 ^ 52 ≤ m₁ ∨ e₁ = -1074)
    (hm₂ : m₂ < 2 ^ 53) (he₂ : -1074 ≤ e₂) (hn₂ : 2 ^ 52 ≤ m₂ ∨ e₂ = -1074) :
    (compare e₁ e₂).then (compare m₁ m₂) = compare ((m₁ : ℚ) * 2 ^ e₁) (m₂ * 2 ^ e₂) := by
  rcases lt_trichotomy e₁ e₂ with h | rfl | h
  · rw [compare_lt_iff_lt.mpr h, Ordering.lt_then]
    exact (compare_lt_iff_lt.mpr (magnitude_lt_of_exponent_lt hm₁ he₁ hn₂ h)).symm
  · have hplace : (0 : ℚ) < 2 ^ e₁ := by positivity
    rw [compare_eq_iff_eq.mpr rfl, Ordering.eq_then]
    rcases lt_trichotomy m₁ m₂ with h | rfl | h
    · rw [compare_lt_iff_lt.mpr h, eq_comm, compare_lt_iff_lt]
      gcongr
    · rw [compare_eq_iff_eq.mpr rfl, compare_eq_iff_eq.mpr rfl]
    · rw [compare_gt_iff_gt.mpr h, eq_comm, compare_gt_iff_gt]
      gcongr
  · rw [compare_gt_iff_gt.mpr h, Ordering.gt_then]
    exact (compare_gt_iff_gt.mpr (magnitude_lt_of_exponent_lt hm₂ he₂ hn₁ h)).symm

/-- **Doubles are compared by their values**, and the two zeros are equal. -/
theorem compare_unpack (hx : x.isFinite) (hy : y.isFinite) :
    x.toModel.unpack.compare y.toModel.unpack = some (compare (value x) (value y)) := by
  obtain ⟨s₁, m₁, e₁, hview₁, hm₁, he₁, -⟩ := view_finite hx
  obtain ⟨s₂, m₂, e₂, hview₂, hm₂, he₂, -⟩ := view_finite hy
  have hpos : ∀ {m : ℕ} {e : ℤ}, 0 < m → (0 : ℚ) < m * 2 ^ e := by
    intro m e hm
    positivity
  rw [value_of_view hview₁, value_of_view hview₂]
  rcases unpack_of_view hview₁ with ⟨rfl, h₁⟩ | ⟨hn₁, hm₁pos, h₁⟩
  · rcases unpack_of_view hview₂ with ⟨rfl, h₂⟩ | ⟨-, hm₂pos, h₂⟩
    · rw [h₁, h₂]
      exact congrArg some (compare_eq_iff_eq.mpr (by simp)).symm
    · have h := hpos (e := e₂) hm₂pos
      rw [h₁, h₂]
      cases s₂ with
      | false => exact congrArg some (compare_lt_iff_lt.mpr (by simpa using h)).symm
      | true => exact congrArg some (compare_gt_iff_gt.mpr (by simpa using h)).symm
  · rcases unpack_of_view hview₂ with ⟨rfl, h₂⟩ | ⟨hn₂, hm₂pos, h₂⟩
    · have h := hpos (e := e₁) hm₁pos
      rw [h₁, h₂]
      cases s₁ with
      | false => exact congrArg some (compare_gt_iff_gt.mpr (by simpa using h)).symm
      | true => exact congrArg some (compare_lt_iff_lt.mpr (by simpa using h)).symm
    · have hleft := hpos (e := e₁) hm₁pos
      have hright := hpos (e := e₂) hm₂pos
      have hmagnitudes := compare_magnitude hm₁ he₁ hn₁ hm₂ he₂ hn₂
      rw [h₁, h₂]
      cases s₁ with
      | false =>
          cases s₂ with
          | false =>
              rw [if_neg (by decide), one_mul, one_mul]
              exact congrArg some hmagnitudes
          | true =>
              refine congrArg some (compare_gt_iff_gt.mpr ?_).symm
              rw [if_pos rfl, if_neg (by decide)]
              linarith
      | true =>
          cases s₂ with
          | false =>
              refine congrArg some (compare_lt_iff_lt.mpr ?_).symm
              rw [if_pos rfl, if_neg (by decide)]
              linarith
          | true =>
              -- below zero the order of the magnitudes is turned round
              have hturn : StrictAnti fun q : ℚ => -q := strictMono_id.neg
              rw [if_pos rfl, neg_one_mul, neg_one_mul, ← cmp_eq_compare, hturn.cmp_map_eq,
                ← cmp_swap, cmp_eq_compare, ← hmagnitudes]
              rfl

/-- **A double is below another exactly if its value is.** -/
theorem lt_iff_value_lt (hx : x.isFinite) (hy : y.isFinite) : x < y ↔ value x < value y := by
  have hlt : x < y ↔ (x.toModel.unpack.compare y.toModel.unpack == some .lt) = true :=
    ⟨of_decide_eq_true, decide_eq_true⟩
  rw [hlt, compare_unpack hx hy, beq_iff_eq, Option.some.injEq, compare_lt_iff_lt]

theorem le_iff_value_le (hx : x.isFinite) (hy : y.isFinite) : x ≤ y ↔ value x ≤ value y := by
  have hle : x ≤ y ↔ (x.toModel.unpack.compare y.toModel.unpack).any Ordering.isLE = true :=
    ⟨of_decide_eq_true, decide_eq_true⟩
  rw [hle, compare_unpack hx hy, Option.any_some]
  exact Ordering.ne_gt_iff_isLE.symm.trans compare_le_iff_le

end Order

theorem isFinite_zero : (ofNat 0).isFinite := by
  decide +kernel

theorem value_zero : value (ofNat 0) = 0 := by
  rw [value, show view (ofNat 0) = .finite false 0 (-1074) by decide +kernel]
  simp

theorem value_pos_of_lt (h : x.isFinite) (hlt : ofNat 0 < x) : 0 < value x :=
  value_zero ▸ (lt_iff_value_lt isFinite_zero h).mp hlt

theorem value_nonneg_of_le (h : x.isFinite) (hle : ofNat 0 ≤ x) : 0 ≤ value x :=
  value_zero ▸ (le_iff_value_le isFinite_zero h).mp hle

end Double

theorem value?_coordinateText {x : Float} (h : x.isFinite) :
    Text.value? (coordinateText x).toList = some (Double.shown 3 x) := by
  have hfixed := Double.value?_fixed 3 h
  rw [coordinateText]
  split
  · -- without its sign, zero is the same number
    rename_i hzero
    have hsigned : "-0.000".toList = '-' :: Double.placed 3 0 := by decide
    have hplain : "0.000".toList = Double.placed 3 0 := by decide
    have hplaced := Double.isUnsigned_placed 3 0
    rw [hzero, hsigned, Text.value?_minus hplaced] at hfixed
    rw [hplain, Text.value?_of_isUnsigned hplaced, ← hfixed, Double.unsigned_placed]
    simp
  · exact hfixed

theorem value?_feedText {x : Float} (h : x.isFinite) :
    Text.value? (feedText x).toList = some (Double.shown (if Double.isWhole x then 0 else 3) x) :=
  Double.value?_fixed _ h

/-- A feed is shown as more than zero exactly if it is more than half a thousandth. -/
theorem shown_feed_pos_iff {x : Float} (h : x.isFinite) :
    0 < Double.shown (if Double.isWhole x then 0 else 3) x ↔ 1 / 2000 < Double.value x := by
  rw [Double.shown_pos_iff _ h]
  by_cases hwhole : Double.isWhole x
  · -- a whole number is above either bound as soon as it is above zero
    obtain ⟨n, hn⟩ := Double.exists_int_of_isWhole hwhole
    have habove : ∀ bound : ℚ, 0 < bound → bound < 1 → (bound < Double.value x ↔ 0 < n) := by
      intro bound hpos hone
      rw [hn]
      constructor
      · intro hlarge
        exact_mod_cast hpos.trans hlarge
      · intro hlarge
        have hleast : (1 : ℚ) ≤ n := by exact_mod_cast hlarge
        linarith
    rw [if_pos hwhole, habove _ (by norm_num) (by norm_num), habove _ (by norm_num) (by norm_num)]
  · rw [if_neg hwhole]
    norm_num

end Milling
