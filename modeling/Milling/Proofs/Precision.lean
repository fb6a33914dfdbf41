import Milling.Proofs.Measures
import Milling.Proofs.Nearest
import Milling.Proofs.Rereading

/-!
# How far a shown number is from its double

A program shows every coordinate with three decimal places, and every feed either so or as a
whole number. All of this goes through one rounding of one quotient. It gives the whole number
that is nearest to the exact quotient, so what is shown is never further from the double than
half a unit of the last place, and a greater double is never shown as less. A tie changes
nothing of that: two numbers can meet in one tie only by being equal.

Signs are set apart from all this and put back at the end. So a double and its opposite are
shown alike, and what is rounded away from below is shown without its sign.
-/

namespace Milling

/-! ## Rounding a quotient -/

namespace Double

variable {num den r s : ℕ} {p q : ℚ}

/-- A quotient is rounded to the whole number that is nearest, and to the even one in a tie. -/
theorem rounds_roundHalfEven (num : ℕ) (hden : 0 < den) :
    Rounds (num / den) (roundHalfEven num den) := by
  have hparts := Nat.div_add_mod' num den
  have hmod := Nat.mod_lt num hden
  have hnext : (num / den + 1) * den = num / den * den + den := Nat.succ_mul _ _
  rw [Rounds, le_quotient_iff hden, quotient_le_iff hden, lt_quotient_iff hden,
    quotient_lt_iff hden]
  unfold roundHalfEven roundNearest
  dsimp only
  by_cases hless : 2 * (num % den) < den
  · rw [if_pos hless]
    omega
  · rw [if_neg hless]
    by_cases hmore : den < 2 * (num % den)
    · rw [if_pos hmore, hnext]
      omega
    · -- a tie: the quotient itself if it is even, and the next one if not
      rw [if_neg hmore]
      rcases Nat.mod_two_eq_zero_or_one (num / den) with heven | hodd
      · rw [heven, Nat.add_zero]
        omega
      · rw [hodd, hnext]
        omega

theorem Rounds.abs_sub_le (h : Rounds q r) : |(r : ℚ) - q| ≤ 1 / 2 := by
  obtain ⟨hlow, hhigh, -⟩ := h
  rw [abs_le]
  constructor
  · linarith
  · linarith

/-- **Rounding keeps the order.** -/
theorem Rounds.mono (hp : Rounds p r) (hq : Rounds q s) (hle : p ≤ q) : r ≤ s := by
  obtain ⟨hlow, -, hr⟩ := hp
  obtain ⟨-, hhigh, hs⟩ := hq
  by_contra hlt
  -- neighbours that changed places would both have been even, in the same tie
  have hnext : (s : ℚ) + 1 ≤ r := by exact_mod_cast Nat.lt_of_not_le hlt
  have hr : r % 2 = 0 := by
    rcases hr with hr | ⟨hr, -⟩
    · exact hr
    · linarith
  have hs : s % 2 = 0 := by
    rcases hs with hs | ⟨-, hs⟩
    · exact hs
    · linarith
  have hsame : (r : ℚ) ≤ (s + 1 : ℕ) := by
    push_cast
    linarith
  have hsame : r ≤ s + 1 := by exact_mod_cast hsame
  omega

theorem rounds_natCast (n : ℕ) : Rounds n n := by
  refine ⟨by linarith, by linarith, .inr ⟨by linarith, by linarith⟩⟩

/-- A whole number is its own rounding. -/
theorem Rounds.eq_natCast {n : ℕ} (h : Rounds n r) : r = n :=
  Nat.le_antisymm (h.mono (rounds_natCast n) le_rfl) ((rounds_natCast n).mono h le_rfl)

/-- A magnitude in units of the last place is rounded once. -/
theorem rounds_scaleBy (places m : ℕ) (e : ℤ) :
    Rounds (m * 2 ^ e * 10 ^ places) (scaleBy places m e) := by
  have hpower := zpow_mul_pow_toNat (b := (2 : ℚ)) (by norm_num) e
  have hquotient : ((m * 10 ^ places * 2 ^ e.toNat : ℕ) : ℚ) / (2 ^ (-e).toNat : ℕ) =
      m * 2 ^ e * 10 ^ places := by
    push_cast
    rw [← hpower]
    field_simp
  rw [← hquotient]
  exact rounds_roundHalfEven _ (Nat.pow_pos (by decide))

/-! ## What is shown of a double -/

variable {x y : Float}

/-- Without its sign, a double is shown as a whole number of units of the last place. -/
theorem exists_rounds (places : ℕ) (h : x.isFinite) (hvalue : 0 ≤ value x) :
    ∃ n : ℕ, Rounds (value x * 10 ^ places) n ∧ shown places x = n / 10 ^ places := by
  obtain ⟨negative, m, e, hview, -⟩ := view_finite h
  have hrounds := rounds_scaleBy places m e
  rw [value_of_view hview] at hvalue ⊢
  rw [shown_of_view hview]
  cases negative with
  | false =>
      refine ⟨scaleBy places m e, ?_, ?_⟩
      · simpa using hrounds
      · simp
  | true =>
      -- a minus sign can only stand before a zero
      have hmagnitude : (0 : ℚ) ≤ m * 2 ^ e := by positivity
      have hzero : (m : ℚ) * 2 ^ e = 0 := by
        rw [if_pos rfl] at hvalue
        linarith
      rw [hzero, zero_mul] at hrounds
      have hnone : scaleBy places m e = 0 :=
        Rounds.eq_natCast (n := 0) (by exact_mod_cast hrounds)
      refine ⟨0, ?_, ?_⟩
      · rw [hzero, mul_zero, zero_mul]
        exact_mod_cast rounds_natCast 0
      · rw [hnone]
        simp

/-- A fact about doubles that a sign does not change has to be shown of numbers from zero on. -/
theorem of_nonneg {P : Float → Prop} (hneg : ∀ x : Float, x.isFinite → P (-x) → P x)
    (hpos : ∀ x : Float, x.isFinite → 0 ≤ value x → P x) (h : x.isFinite) : P x := by
  rcases le_total 0 (value x) with hvalue | hvalue
  · exact hpos x h hvalue
  · refine hneg x h (hpos (-x) (isFinite_neg h) ?_)
    rw [value_neg h]
    linarith

/-- **What is shown differs by at most half a unit of the last place.** -/
theorem abs_shown_sub_value_le (places : ℕ) (h : x.isFinite) :
    |shown places x - value x| ≤ 1 / (2 * 10 ^ places) := by
  refine of_nonneg (P := fun x => |shown places x - value x| ≤ 1 / (2 * 10 ^ places)) ?_ ?_ h
  · intro x hx hopposite
    rw [shown_neg places hx, value_neg hx, ← neg_sub', abs_neg] at hopposite
    exact hopposite
  · intro x hx hvalue
    obtain ⟨n, hrounds, hshown⟩ := exists_rounds places hx hvalue
    have hunit : (0 : ℚ) < 10 ^ places := by positivity
    have herror := hrounds.abs_sub_le
    have hscaled : (n : ℚ) / 10 ^ places - value x = (n - value x * 10 ^ places) / 10 ^ places := by
      field_simp
    rw [hshown, hscaled, abs_div, abs_of_pos hunit, ← div_div]
    exact div_le_div_of_nonneg_right herror hunit.le

theorem shown_mono_of_nonneg (places : ℕ) (hx : x.isFinite) (hy : y.isFinite)
    (hvalue : 0 ≤ value x) (hle : value x ≤ value y) : shown places x ≤ shown places y := by
  obtain ⟨n, hn, hxshown⟩ := exists_rounds places hx hvalue
  obtain ⟨k, hk, hyshown⟩ := exists_rounds places hy (hvalue.trans hle)
  have hcount : n ≤ k := hn.mono hk (mul_le_mul_of_nonneg_right hle (by positivity))
  rw [hxshown, hyshown]
  gcongr

/-- **A greater double is not shown as less.** -/
theorem shown_mono (places : ℕ) (hx : x.isFinite) (hy : y.isFinite) (hle : value x ≤ value y) :
    shown places x ≤ shown places y := by
  rcases le_total 0 (value x) with hvalue | hvalue
  · exact shown_mono_of_nonneg places hx hy hvalue hle
  · rcases le_total 0 (value y) with hvalue' | hvalue'
    · -- one on each side of zero
      have hbelow := shown_nonneg places (isFinite_neg hx) (by rw [value_neg hx]; linarith)
      have habove := shown_nonneg places hy hvalue'
      rw [shown_neg places hx] at hbelow
      linarith
    · have hopposite := shown_mono_of_nonneg places (isFinite_neg hy) (isFinite_neg hx)
        (by rw [value_neg hy]; linarith) (by rw [value_neg hx, value_neg hy]; linarith)
      rw [shown_neg places hx, shown_neg places hy] at hopposite
      linarith

/-- A whole number is shown as itself, whatever the number of places. -/
theorem shown_of_int (places : ℕ) (h : x.isFinite) (hwhole : ∃ n : ℤ, value x = n) :
    shown places x = value x := by
  refine of_nonneg (P := fun x => (∃ n : ℤ, value x = n) → shown places x = value x) ?_ ?_ h hwhole
  · intro x hx hopposite hwhole
    obtain ⟨n, hn⟩ := hwhole
    have hsame := hopposite ⟨-n, by rw [value_neg hx, hn, Int.cast_neg]⟩
    rw [shown_neg places hx, value_neg hx] at hsame
    exact neg_injective hsame
  · intro x hx hvalue hwhole
    obtain ⟨n, hn⟩ := hwhole
    obtain ⟨k, hrounds, hshown⟩ := exists_rounds places hx hvalue
    rw [hn] at hvalue
    lift n to ℕ using by exact_mod_cast hvalue
    rw [Int.cast_natCast] at hn
    rw [hn] at hrounds ⊢
    have hk : k = n * 10 ^ places := Rounds.eq_natCast (by exact_mod_cast hrounds)
    rw [hshown, hk]
    push_cast
    field_simp

end Double

/-! ## The form of a coordinate -/

namespace Text

open Json.Numeral (Leading isDigit_of_mem_toDigits isDigit_of_mem_zeros leading_toDigits)

/-- A numeral with so many decimal places: a minus sign or none, a whole number that begins with
a zero only if it is zero, a point, and the digits behind it. -/
def HasPlaces (places : ℕ) (text : List Char) : Prop :=
  ∃ sign whole fraction, text = sign ++ whole ++ '.' :: fraction ∧ (sign = [] ∨ sign = ['-']) ∧
    Leading whole ∧ (∀ c ∈ fraction, c.isDigit) ∧ fraction.length = places

variable {places : ℕ}

/-- Behind the point stand as many digits as there are places. -/
theorem exists_fraction (hplaces : 0 < places) (scaled : ℕ) : ∃ fraction,
    Double.placed places scaled = Nat.toDigits 10 (scaled / Nat.pow 10 places) ++ '.' :: fraction ∧
      (∀ c ∈ fraction, c.isDigit) ∧ fraction.length = places := by
  have hshort : (Nat.toDigits 10 (scaled % Nat.pow 10 places)).length ≤ places :=
    (Nat.length_toDigits_le_iff (by decide) hplaces).mpr (Nat.mod_lt _ (Nat.pow_pos (by decide)))
  rw [Double.placed, if_neg (Nat.ne_of_gt hplaces)]
  refine ⟨_, rfl, ?_, ?_⟩
  · intro c hc
    rcases List.mem_append.mp hc with hc | hc
    · exact isDigit_of_mem_zeros hc
    · exact isDigit_of_mem_toDigits hc
  · rw [List.length_append, List.length_replicate]
    omega

theorem hasPlaces_signed (hplaces : 0 < places) (negative : Bool) (scaled : ℕ) :
    HasPlaces places (Double.signed negative (Double.placed places scaled)) := by
  obtain ⟨fraction, hplaced, hfraction, hlength⟩ := exists_fraction hplaces scaled
  rw [hplaced]
  cases negative with
  | false =>
      exact ⟨[], _, fraction, rfl, .inl rfl, leading_toDigits _, hfraction, hlength⟩
  | true =>
      exact ⟨['-'], _, fraction, rfl, .inr rfl, leading_toDigits _, hfraction, hlength⟩

theorem hasPlaces_fixed (hplaces : 0 < places) {x : Float} (h : x.isFinite) :
    HasPlaces places (Double.fixed places x).toList := by
  obtain ⟨negative, m, e, hview, -⟩ := Double.view_finite h
  rw [Double.fixed, Double.write, String.toList_ofList, hview]
  exact hasPlaces_signed hplaces negative _

end Text

open Double (value)
open Text (Denotes HasPlaces value?)

theorem hasPlaces_coordinateText {x : Float} (h : x.isFinite) :
    HasPlaces 3 (coordinateText x).toList := by
  rw [coordinateText]
  split
  · have hzero : "0.000".toList = Double.signed false (Double.placed 3 0) := by decide
    rw [hzero]
    exact Text.hasPlaces_signed (by decide) false 0
  · exact Text.hasPlaces_fixed (by decide) h

theorem coordinateText_ne (x : Float) : coordinateText x ≠ "-0.000" := by
  rw [coordinateText]
  split
  · decide
  · assumption

/-- What a feed denotes: itself if it is a whole number, and else not far from it. -/
theorem denotes_feedText {x : Float} (h : x.isFinite) :
    Denotes (fun q => ((∃ n : ℤ, value x = n) → q = value x) ∧ |q - value x| ≤ 1 / 2000)
      (feedText x).toList := by
  refine ⟨_, value?_feedText h, Double.shown_of_int _ h, ?_⟩
  by_cases hwhole : Double.isWhole x
  · rw [Double.shown_of_int _ h (Double.exists_int_of_isWhole hwhole), sub_self, abs_zero]
    norm_num
  · rw [if_neg hwhole]
    exact (Double.abs_shown_sub_value_le 3 h).trans_eq (by norm_num)

/--
**Numbers are printed faithfully and in order.** The text of a finite coordinate is a numeral
with three places, and never a zero with a sign. The number that it denotes is at most half a
thousandth away from the exact value, turns into its opposite with it, and does not become less
where the coordinate becomes greater. The text of a finite feed denotes the feed itself if that
is a whole number, and else a number at most half a thousandth away from it.
-/
theorem texts_faithful {x : Float} (hx : x.isFinite) :
    HasPlaces 3 (coordinateText x).toList ∧
    coordinateText x ≠ "-0.000" ∧
    Denotes (fun q => |q - value x| ≤ 1 / 2000) (coordinateText x).toList ∧
    Denotes (fun q => value? (coordinateText (-x)).toList = some (-q)) (coordinateText x).toList ∧
    (∀ y : Float, y.isFinite → x ≤ y →
      Denotes (fun q => Denotes (fun q' => q ≤ q') (coordinateText y).toList)
        (coordinateText x).toList) ∧
    Denotes (fun q => ((∃ n : ℤ, value x = n) → q = value x) ∧ |q - value x| ≤ 1 / 2000)
      (feedText x).toList := by
  have hdenotes := value?_coordinateText hx
  refine ⟨hasPlaces_coordinateText hx, coordinateText_ne x, ⟨_, hdenotes, ?_⟩, ⟨_, hdenotes, ?_⟩,
    ?_, denotes_feedText hx⟩
  · exact (Double.abs_shown_sub_value_le 3 hx).trans_eq (by norm_num)
  · rw [value?_coordinateText (Double.isFinite_neg hx), Double.shown_neg 3 hx]
  · intro y hy hle
    exact ⟨_, hdenotes, _, value?_coordinateText hy,
      Double.shown_mono 3 hx hy ((Double.le_iff_value_le hx hy).mp hle)⟩

/-- A coordinate in the middle between two thousandths, one that is rounded to zero from below,
and a whole feed with many digits. -/
theorem texts_faithful_tie :
    HasPlaces 3 "-0.062".toList ∧
      Denotes (fun q => value? (coordinateText 0.0625).toList = some (-q)) "-0.062".toList ∧
      Denotes (fun q => Denotes (fun q' => q ≤ q') "0.000".toList) "-0.062".toList ∧
      Denotes (fun q => ((∃ n : ℤ, value 1e300 = n) → q = value 1e300) ∧
        |q - value 1e300| ≤ 1 / 2000) (feedText 1e300).toList := by
  have htie : (-0.0625 : Float).isFinite := by decide +kernel
  have hnegative : (-0.0004 : Float).isFinite := by decide +kernel
  have hlarge : (1e300 : Float).isFinite := by decide +kernel
  have hle : (-0.0625 : Float) ≤ -0.0004 := by decide +kernel
  have htext : coordinateText (-0.0625) = "-0.062" := by decide +kernel
  have hopposite : coordinateText (-(-0.0625)) = coordinateText 0.0625 := by decide +kernel
  have hzero : coordinateText (-0.0004) = "0.000" := by decide +kernel
  obtain ⟨hplaces, -, -, hneg, hmono, -⟩ := texts_faithful htie
  obtain ⟨-, -, -, -, -, hfeed⟩ := texts_faithful hlarge
  have hmono := hmono _ hnegative hle
  rw [htext] at hplaces hneg hmono
  rw [hopposite] at hneg
  rw [hzero] at hmono
  exact ⟨hplaces, hneg, hmono, hfeed⟩

end Milling
