import Milling.Proofs.Addition
import Milling.Proofs.Reload

/-!
# The box around a shape

Sizes may be below zero, and each kind of shape deals with that in its own way: a rectangle
takes the smaller and the greater of two corners, a circle takes the magnitude of its
radius, and a text has no width then. So from left to right a box is always in order and
goes around the place of its shape.

From top to bottom it is not. The height of a text is taken off as it is, and where that is
below zero the top of the box lies under its bottom, unless so little is taken off that it
is lost in rounding.
-/

namespace Milling

namespace Double

open Float.Model (Format UnpackedFloat)
open Float.Model.UnpackedFloat

/-! ## Numbers without a sign -/

/-- Parts without a minus sign. -/
def Plain : UnpackedFloat → Prop
  | .notANumber => True
  | .infinity s => s = .positive
  | .zero s => s = .positive
  | .finite s _ _ _ => s = .positive

/-- A double without a minus sign. -/
def Unsigned (x : Float) : Prop := Plain x.toModel.unpack

theorem value_nonneg_of_unsigned {x : Float} (h : Unsigned x) : 0 ≤ value x := by
  by_cases hx : x.isFinite
  · obtain ⟨-, hvalue⟩ := exact_unpack hx
    rw [← hvalue]
    rw [Unsigned] at h
    cases hunpack : x.toModel.unpack with
    | infinity s => exact le_refl 0
    | notANumber => exact le_refl 0
    | zero s => exact le_refl 0
    | finite s m e hm =>
        rw [hunpack] at h
        obtain rfl : s = .positive := h
        rw [exact_finite, Sign.apply]
        positivity
  · rw [value]
    rcases view_not_finite hx with hview | ⟨_, hview⟩
    · rw [hview]
    · rw [hview]

theorem plain_ite {c : Prop} [Decidable c] {u v : UnpackedFloat} (hu : Plain u) (hv : Plain v) :
    Plain (if c then u else v) := by
  by_cases h : c
  · rwa [if_pos h]
  · rwa [if_neg h]

theorem plain_dite {c : Prop} [Decidable c] {u : c → UnpackedFloat} {v : ¬c → UnpackedFloat}
    (hu : ∀ h, Plain (u h)) (hv : ∀ h, Plain (v h)) : Plain (if h : c then u h else v h) := by
  by_cases h : c
  · rw [dif_pos h]
    exact hu h
  · rw [dif_neg h]
    exact hv h

theorem plain_unpack {b : BitVec Format.binary64.numBits} (h : b.toNat < 2 ^ 63) :
    Plain (unpack Format.binary64 b) := by
  have hsign : Sign.ofBitVec (unpackSign b) = .positive := by
    rw [ofBitVec_unpackSign, decide_eq_false (by rw [Nat.pow_eq]; omega)]
    rfl
  exact plain_ite (plain_ite hsign trivial)
    (plain_ite (plain_dite (fun _ => hsign) fun _ => hsign) hsign)

theorem toNat_pack_lt {u : UnpackedFloat} (h : Plain u) :
    (pack Format.binary64 u).toNat < 2 ^ 63 := by
  have hcomponents : ∀ exponent fraction,
      (packComponents Format.binary64 .positive exponent fraction).toNat < 2 ^ 63 := by
    intro exponent fraction
    have hexponent : exponent.toNat < 2 ^ 11 := exponent.isLt
    have hfraction : fraction.toNat < 2 ^ 52 := fraction.isLt
    have hsign : Sign.positive.toBitVec.toNat = 0 := rfl
    rw [toNat_packComponents, hsign]
    omega
  unfold pack
  cases u with
  | notANumber => exact hcomponents _ _
  | infinity s =>
      obtain rfl : s = .positive := h
      exact hcomponents _ _
  | zero s =>
      obtain rfl : s = .positive := h
      exact hcomponents _ _
  | finite s m e hm =>
      obtain rfl : s = .positive := h
      dsimp only
      split
      · exact hcomponents _ _
      · split
        · exact hcomponents _ _
        · exact hcomponents _ _

/-- Packing gives no number a sign. -/
theorem unsigned_pack {u : UnpackedFloat} (h : Plain u) :
    Unsigned (Float.ofModel (.pack u)) :=
  plain_unpack (b := pack Format.binary64 u) (toNat_pack_lt h)

theorem plain_roundWithAccuracy (m : ℕ) (e : ℤ) (accuracy : Accuracy) :
    Plain (roundWithAccuracy Format.binary64 .positive m e accuracy) :=
  plain_dite (fun _ => rfl) fun _ => rfl

theorem plain_normalize {n : ℤ} (h : 0 ≤ n) (e : ℤ) :
    Plain (UnpackedFloat.normalize Format.binary64 n e .positive) := by
  rcases h.eq_or_lt with rfl | hpos
  · rfl
  · rw [UnpackedFloat.normalize, compare_gt_iff_gt.mpr hpos]
    exact plain_roundWithAccuracy _ _ _

theorem plain_add : ∀ {u v : UnpackedFloat}, Plain u → Plain v → Plain (add Format.binary64 u v)
  | .notANumber, _, _, _ => trivial
  | .infinity _, .notANumber, _, _ => trivial
  | .infinity _, .infinity _, rfl, rfl => rfl
  | .infinity _, .zero _, h, _ => h
  | .infinity _, .finite .., h, _ => h
  | .zero _, .notANumber, _, _ => trivial
  | .zero _, .infinity _, _, h => h
  | .zero _, .zero _, rfl, rfl => rfl
  | .zero _, .finite .., _, h => h
  | .finite .., .notANumber, _, _ => trivial
  | .finite .., .infinity _, _, h => h
  | .finite .., .zero _, h, _ => h
  | .finite .., .finite .., rfl, rfl =>
      plain_normalize (Int.add_nonneg (Int.natCast_nonneg _) (Int.natCast_nonneg _)) _

theorem plain_mul : ∀ {u v : UnpackedFloat}, Plain u → Plain v → Plain (mul Format.binary64 u v)
  | .notANumber, _, _, _ => trivial
  | .infinity _, .notANumber, _, _ => trivial
  | .infinity _, .infinity _, rfl, rfl => rfl
  | .infinity _, .zero _, _, _ => trivial
  | .infinity _, .finite .., rfl, rfl => rfl
  | .zero _, .notANumber, _, _ => trivial
  | .zero _, .infinity _, _, _ => trivial
  | .zero _, .zero _, rfl, rfl => rfl
  | .zero _, .finite .., rfl, rfl => rfl
  | .finite .., .notANumber, _, _ => trivial
  | .finite .., .infinity _, rfl, rfl => rfl
  | .finite .., .zero _, rfl, rfl => rfl
  | .finite .., .finite .., rfl, rfl => plain_roundWithAccuracy _ _ _

theorem plain_div : ∀ {u v : UnpackedFloat}, Plain u → Plain v → Plain (div Format.binary64 u v)
  | .notANumber, _, _, _ => trivial
  | .infinity _, .notANumber, _, _ => trivial
  | .infinity _, .infinity _, _, _ => trivial
  | .infinity _, .zero _, rfl, rfl => rfl
  | .infinity _, .finite .., rfl, rfl => rfl
  | .zero _, .notANumber, _, _ => trivial
  | .zero _, .infinity _, rfl, rfl => rfl
  | .zero _, .zero _, _, _ => trivial
  | .zero _, .finite .., rfl, rfl => rfl
  | .finite .., .notANumber, _, _ => trivial
  | .finite .., .infinity _, rfl, rfl => rfl
  | .finite .., .zero _, rfl, rfl => rfl
  | .finite .., .finite .., rfl, rfl => plain_roundWithAccuracy _ _ _

section Unsigned

variable {x y : Float}

theorem Unsigned.add (hx : Unsigned x) (hy : Unsigned y) : Unsigned (x + y) :=
  unsigned_pack (plain_add hx hy)

theorem Unsigned.mul (hx : Unsigned x) (hy : Unsigned y) : Unsigned (x * y) :=
  unsigned_pack (plain_mul hx hy)

theorem Unsigned.div (hx : Unsigned x) (hy : Unsigned y) : Unsigned (x / y) :=
  unsigned_pack (plain_div hx hy)

theorem unsigned_abs (x : Float) : Unsigned x.abs := by
  refine unsigned_pack (u := x.toModel.unpack.abs) ?_
  cases x.toModel.unpack with
  | notANumber => trivial
  | infinity s => rfl
  | zero s => rfl
  | finite s m e hm => rfl

theorem unsigned_of_toBits (h : x.toBits.toNat < 2 ^ 63) : Unsigned x :=
  plain_unpack (b := x.toBits.toBitVec) h

theorem unsigned_ofNat (n : ℕ) : Unsigned (ofNat n) := by
  have hbits : nearestBits n 1 ≤ infinityBits := by
    unfold nearestBits
    split
    · exact Nat.zero_le _
    · exact Nat.min_le_right _ _
  refine unsigned_of_toBits ?_
  rw [ofNat, nearest]
  rcases Nat.lt_or_eq_of_le hbits with hlt | heq
  · have htop : infinityBits < 2 ^ 63 := by decide
    rw [toBits_ofMagnitude hlt]
    omega
  · rw [heq]
    decide +kernel

/-- What is above zero has no sign. -/
theorem unsigned_of_lt (hx : x.isFinite) (hpos : ofNat 0 < x) : Unsigned x := by
  have hvalue := value_pos_of_lt hx hpos
  obtain ⟨hsound, hexact⟩ := exact_unpack hx
  rw [← hexact] at hvalue
  rw [Unsigned]
  cases hu : x.toModel.unpack with
  | notANumber => trivial
  | infinity s =>
      rw [hu] at hvalue
      exact absurd hvalue (lt_irrefl 0)
  | zero s =>
      rw [hu] at hvalue
      exact absurd hvalue (lt_irrefl 0)
  | finite s m e hm =>
      rw [hu] at hvalue
      cases s with
      | positive => rfl
      | negative =>
          have hle : (0 : ℚ) ≤ m * 2 ^ e := by positivity
          rw [exact_finite, Sign.apply] at hvalue
          push_cast at hvalue
          linarith

end Unsigned

theorem isNaN_of_isFinite {x : Float} (h : x.isFinite) : x.isNaN = false := by
  have hmodel : x.toModel.unpack.isFinite = true := h
  show x.toModel.unpack.isNaN = false
  cases hu : x.toModel.unpack with
  | notANumber =>
      rw [hu] at hmodel
      cases hmodel
  | infinity s => rfl
  | zero s => rfl
  | finite s m e hm => rfl

theorem isFinite_abs {x : Float} (h : x.isFinite) : x.abs.isFinite := by
  obtain ⟨_, m, e, hview, -, -, he⟩ := view_finite h
  show (Float.ofModel (.pack x.toModel.unpack.abs)).isFinite
  rcases unpack_of_view hview with ⟨-, hunpack⟩ | ⟨-, hm, hunpack⟩
  · rw [hunpack]
    exact isFinite_pack_zero _
  · rw [hunpack]
    exact isFinite_pack hm he

theorem add_notANumber (u : UnpackedFloat) : add Format.binary64 u .notANumber = .notANumber := by
  cases u <;> rfl

theorem add_infinity {u : UnpackedFloat} (h : u.isFinite = true) (s : Sign) :
    add Format.binary64 u (.infinity s) = .infinity s := by
  cases u with
  | notANumber => cases h
  | infinity t => cases h
  | zero t => rfl
  | finite t m e hm => rfl

/-- A sum is finite only if all of it is. -/
theorem isFinite_of_add {x y : Float} (hx : x.isFinite) (h : (x + y).isFinite) : y.isFinite := by
  have hsum : (Float.ofModel (.pack
      (UnpackedFloat.add Format.binary64 x.toModel.unpack y.toModel.unpack))).isFinite := h
  show y.toModel.unpack.isFinite = true
  cases hv : y.toModel.unpack with
  | notANumber =>
      rw [hv, add_notANumber] at hsum
      exact absurd hsum not_isFinite_pack_notANumber
  | infinity s =>
      have hx : x.toModel.unpack.isFinite = true := hx
      rw [hv, add_infinity hx] at hsum
      exact absurd hsum (not_isFinite_pack_infinity s)
  | zero s => rfl
  | finite s m e hm => rfl

/-- The smaller and the greater of two doubles lie on both sides of the first. -/
theorem lesser_le_and_le_greater {a b : Float} (ha : a.isFinite)
    (hlesser : (lesser a b).isFinite) (hgreater : (greater a b).isFinite) :
    lesser a b ≤ a ∧ a ≤ greater a b := by
  have hself : a ≤ a := (le_iff_value_le ha ha).mpr (le_refl _)
  rw [lesser, isNaN_of_isFinite ha] at hlesser ⊢
  rw [greater, isNaN_of_isFinite ha] at hgreater ⊢
  simp only [Bool.false_eq_true, if_false] at hlesser hgreater ⊢
  constructor
  · split at hlesser
    · rename_i hlt
      rw [if_pos hlt]
      exact (le_iff_value_le hlesser ha).mpr ((lt_iff_value_lt hlesser ha).mp hlt).le
    · rename_i hlt
      rw [if_neg hlt]
      exact hself
  · split at hgreater
    · rename_i hlt
      rw [if_pos hlt]
      exact (le_iff_value_le ha hgreater).mpr ((lt_iff_value_lt ha hgreater).mp hlt).le
    · rename_i hlt
      rw [if_neg hlt]
      exact hself

theorem unsigned_greater_zero {x : Float} (hx : x.isFinite) : Unsigned (greater (ofNat 0) x) := by
  rw [greater, isNaN_of_isFinite isFinite_zero]
  simp only [Bool.false_eq_true, if_false]
  split
  · rename_i hpos
    exact unsigned_of_lt hx hpos
  · exact unsigned_ofNat 0

end Double

open Double (Unsigned value)

/-! ## Boxes -/

namespace Lettering

/-- A text has no width below zero, whatever its size. -/
theorem unsigned_width (content : String) {size : Float} (h : size.isFinite) :
    Unsigned (width content size) := by
  have hunit : Unsigned (Double.greater (Double.ofNat 0) size / Double.ofNat capHeight) :=
    (Double.unsigned_greater_zero h).div (Double.unsigned_ofNat _)
  rw [width]
  split
  · exact Double.unsigned_ofNat 0
  · exact (((Double.unsigned_ofNat _).mul (Double.unsigned_ofNat _)).add
      (Double.unsigned_ofNat _)).mul hunit

end Lettering

namespace Shape

namespace Bounds

variable {α : Type} [LE α]

/-- A box whose sides are in order. -/
structure Upright (b : Bounds α) : Prop where
  minX_le_maxX : b.minX ≤ b.maxX
  minY_le_maxY : b.minY ≤ b.maxY

/-- A point within a box or on one of its sides. -/
structure Contains (b : Bounds α) (p : Point α) : Prop where
  minX_le : b.minX ≤ p.x
  le_maxX : p.x ≤ b.maxX
  minY_le : b.minY ≤ p.y
  le_maxY : p.y ≤ b.maxY

/-- A box whose four sides are finite. -/
structure Finite (b : Bounds Float) : Prop where
  minX : b.minX.isFinite
  minY : b.minY.isFinite
  maxX : b.maxX.isFinite
  maxY : b.maxY.isFinite

/-- A box that contains something is in order. -/
theorem Contains.upright {b : Bounds Float} {p : Point Float} (h : b.Contains p) (hb : b.Finite)
    (hx : p.x.isFinite) (hy : p.y.isFinite) : b.Upright := by
  have hminX := (Double.le_iff_value_le hb.minX hx).mp h.minX_le
  have hmaxX := (Double.le_iff_value_le hx hb.maxX).mp h.le_maxX
  have hminY := (Double.le_iff_value_le hb.minY hy).mp h.minY_le
  have hmaxY := (Double.le_iff_value_le hy hb.maxY).mp h.le_maxY
  exact ⟨(Double.le_iff_value_le hb.minX hb.maxX).mpr (hminX.trans hmaxX),
    (Double.le_iff_value_le hb.minY hb.maxY).mpr (hminY.trans hmaxY)⟩

end Bounds

/-- A shape whose height, if it is a text, is not below zero, or is lost beside its place. -/
def Rises : Shape Float → Prop
  | .text origin _ size => 0 ≤ value size ∨ value (origin.y - size) = value origin.y
  | _ => True

section Kinds

variable {corner center origin : Point Float} {width height radius size : Float} {content : String}

theorem contains_rectangle (hx : corner.x.isFinite) (hy : corner.y.isFinite)
    (hb : (bounds (.rectangle corner width height)).Finite) :
    (bounds (.rectangle corner width height)).Contains corner := by
  obtain ⟨hminX, hmaxX⟩ := Double.lesser_le_and_le_greater hx hb.minX hb.maxX
  obtain ⟨hminY, hmaxY⟩ := Double.lesser_le_and_le_greater hy hb.minY hb.maxY
  exact ⟨hminX, hmaxX, hminY, hmaxY⟩

/-- A number lies between itself less and itself more a magnitude. -/
theorem between_of_unsigned {x reach : Float} (hx : x.isFinite) (hreach : reach.isFinite)
    (hunsigned : Unsigned reach) (hless : (x - reach).isFinite) (hmore : (x + reach).isFinite) :
    x - reach ≤ x ∧ x ≤ x + reach := by
  have hpos := Double.value_nonneg_of_unsigned hunsigned
  rw [Double.sub_eq_add_neg hreach] at hless ⊢
  refine ⟨Double.add_le_of_nonpos hx (Double.isFinite_neg hreach) hless ?_,
    Double.le_add_of_nonneg hx hreach hmore hpos⟩
  rw [Double.value_neg hreach]
  linarith

theorem contains_circle (hx : center.x.isFinite) (hy : center.y.isFinite) (hr : radius.isFinite)
    (hb : (bounds (.circle center radius)).Finite) :
    (bounds (.circle center radius)).Contains center := by
  have hreach := Double.isFinite_abs hr
  have hunsigned := Double.unsigned_abs radius
  obtain ⟨hminX, hmaxX⟩ := between_of_unsigned hx hreach hunsigned hb.minX hb.maxX
  obtain ⟨hminY, hmaxY⟩ := between_of_unsigned hy hreach hunsigned hb.minY hb.maxY
  exact ⟨hminX, hmaxX, hminY, hmaxY⟩

theorem le_right_of_text (hx : origin.x.isFinite) (hs : size.isFinite)
    (hb : (bounds (.text origin content size)).Finite) :
    origin.x ≤ origin.x + Lettering.width content size :=
  Double.le_add_of_nonneg hx (Double.isFinite_of_add hx hb.maxX) hb.maxX
    (Double.value_nonneg_of_unsigned (Lettering.unsigned_width content hs))

/-- The top of a text is above its baseline exactly if the text rises. -/
theorem top_le_iff (content : String) (hy : origin.y.isFinite) (hs : size.isFinite)
    (htop : (origin.y - size).isFinite) :
    origin.y - size ≤ origin.y ↔ Rises (.text origin content size) := by
  have hneg := Double.isFinite_neg hs
  have hvalue := Double.value_neg hs
  have hdifference : origin.y - size = origin.y + -size := Double.sub_eq_add_neg hs
  constructor
  · intro hle
    by_cases hpos : 0 ≤ value size
    · exact .inl hpos
    · -- taking off less than nothing does not go up
      have hge : origin.y ≤ origin.y - size := by
        rw [hdifference] at htop ⊢
        exact Double.le_add_of_nonneg hy hneg htop (by linarith)
      exact .inr (le_antisymm ((Double.le_iff_value_le htop hy).mp hle)
        ((Double.le_iff_value_le hy htop).mp hge))
  · intro hrises
    rcases hrises with hpos | hlost
    · rw [hdifference] at htop ⊢
      exact Double.add_le_of_nonpos hy hneg htop (by linarith)
    · exact (Double.le_iff_value_le htop hy).mpr hlost.le

end Kinds

/-- A shape that rises and lies in its box has a box in order. -/
theorem ordered_of_contains {s : Shape Float} (hb : s.bounds.Finite) (hx : s.origin.x.isFinite)
    (hy : s.origin.y.isFinite) (hcontains : s.bounds.Contains s.origin) (hrises : s.Rises) :
    (s.bounds.minX ≤ s.origin.x ∧ s.origin.x ≤ s.bounds.maxX ∧ s.bounds.minX ≤ s.bounds.maxX) ∧
      (s.bounds.Upright ↔ s.Rises) ∧ (s.bounds.Contains s.origin ↔ s.Rises) := by
  have hupright := hcontains.upright hb hx hy
  exact ⟨⟨hcontains.minX_le, hcontains.le_maxX, hupright.minX_le_maxX⟩,
    iff_of_true hupright hrises, iff_of_true hcontains hrises⟩

/--
**A box is in order and goes around its shape exactly if the shape rises.** For every shape
with finite numbers and a finite box, the place of the shape lies between the left side and
the right one. The top is not below the bottom, and the place lies in the box, for every
rectangle and every circle, whatever the signs of their sizes; for a text both hold exactly
if its size is not below zero, or is lost beside its place.
-/
theorem bounds_upright_iff {s : Shape Float} (hs : ∀ x ∈ s.numbers, x.isFinite)
    (hb : s.bounds.Finite) :
    (s.bounds.minX ≤ s.origin.x ∧ s.origin.x ≤ s.bounds.maxX ∧ s.bounds.minX ≤ s.bounds.maxX) ∧
      (s.bounds.Upright ↔ s.Rises) ∧ (s.bounds.Contains s.origin ↔ s.Rises) := by
  cases s with
  | rectangle corner width height =>
      have hx := hs corner.x (by simp [numbers])
      have hy := hs corner.y (by simp [numbers])
      exact ordered_of_contains hb hx hy (contains_rectangle hx hy hb) trivial
  | circle center radius =>
      have hx := hs center.x (by simp [numbers])
      have hy := hs center.y (by simp [numbers])
      have hr := hs radius (by simp [numbers])
      exact ordered_of_contains hb hx hy (contains_circle hx hy hr hb) trivial
  | text origin content size =>
      have hx := hs origin.x (by simp [numbers])
      have hy := hs origin.y (by simp [numbers])
      have hsize := hs size (by simp [numbers])
      have hright := le_right_of_text hx hsize hb
      have htop := top_le_iff content hy hsize hb.minY
      have hself : ∀ {x : Float}, x.isFinite → x ≤ x := fun h =>
        (Double.le_iff_value_le h h).mpr (le_refl _)
      refine ⟨⟨hself hx, hright, hright⟩, ?_, ?_⟩
      · rw [← htop]
        exact ⟨fun h => h.minY_le_maxY, fun h => ⟨hright, h⟩⟩
      · rw [← htop]
        exact ⟨fun h => h.minY_le, fun h => ⟨hself hx, hright, h, hself hy⟩⟩

/-- A text that hangs down: its size is below zero, and no decoder refuses it. -/
def hanging : Shape Float := .text ⟨0, 0⟩ "A" (-6)

theorem bounds_upright_iff_hanging :
    hanging.bounds = ⟨0, 6, 0, 0⟩ ∧ hanging.bounds.minX ≤ hanging.bounds.maxX ∧
      ¬hanging.bounds.Upright ∧ ¬hanging.bounds.Contains hanging.origin := by
  have hbox : hanging.bounds = ⟨0, 6, 0, 0⟩ := by decide +kernel
  have hs : ∀ x ∈ hanging.numbers, x.isFinite := by decide +kernel
  have hb : hanging.bounds.Finite := by
    rw [hbox]
    exact ⟨by decide +kernel, by decide +kernel, by decide +kernel, by decide +kernel⟩
  have hrises : ¬hanging.Rises := by
    have hsize : ¬0 ≤ value (-6) := by decide +kernel
    have htop : value ((0 : Float) - -6) ≠ value 0 := by decide +kernel
    intro h
    rcases h with h | h
    · exact hsize h
    · exact htop h
  obtain ⟨⟨-, -, hwide⟩, hupright, hcontains⟩ := bounds_upright_iff hs hb
  exact ⟨hbox, hwide, mt hupright.mp hrises, mt hcontains.mp hrises⟩

end Shape

end Milling
