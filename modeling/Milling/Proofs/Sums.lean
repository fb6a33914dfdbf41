import Milling.Proofs.Denotation
import Milling.Proofs.Nearest
import Milling.Toolpath.Plan

/-!
# Sums in which some lengths are zero

A sum of doubles depends on the order of adding, so to leave a length out of it is not
harmless. To leave out a zero is, up to the sign of a zero, and that sign is not shown.
`Agree` is equality up to it; adding keeps it.
-/

namespace Milling

namespace Double

open Float.Model (Format UnpackedFloat)
open Float.Model.UnpackedFloat

/-! ## Doubles and the parts that the processor computes with -/

/-- Any pattern of bits that a double can have is what its parts pack to. -/
theorem pack_unpack_toBits (x : Float) :
    pack Format.binary64 x.toModel.unpack = x.toBits.toBitVec := by
  show pack Format.binary64 (unpack Format.binary64 x.toBits.toBitVec) = x.toBits.toBitVec
  by_cases htop : @unpackExponent Format.binary64 x.toBits.toBitVec = -1#11
  · by_cases hnone : @unpackMantissa Format.binary64 x.toBits.toBitVec = 0#52
    · have hparts := packComponents_unpack x.toBits.toBitVec
      rw [htop, hnone] at hparts
      unfold unpack
      dsimp only
      rw [if_pos htop, if_pos hnone]
      exact hparts
    · -- there is only one pattern for what is not a number
      unfold unpack
      dsimp only
      rw [if_pos htop, if_neg hnone]
      exact (x.toModel.valid.eq_packedNaN htop hnone).symm
  · exact pack_unpack htop

theorem ofModel_pack_unpack (x : Float) : Float.ofModel (.pack x.toModel.unpack) = x :=
  eq_of_toBits_eq (congrArg UInt64.ofBitVec (pack_unpack_toBits x))

/-! ## Equality up to the sign of a zero -/

/-- One of the two zeros. -/
def IsZero (x : Float) : Prop := ∃ sign, x.toModel.unpack = .zero sign

/-- Two doubles that differ at most in the sign of a zero. -/
def Agree (x y : Float) : Prop := x = y ∨ IsZero x ∧ IsZero y

theorem isZero_pack (sign : UnpackedFloat.Sign) : IsZero (Float.ofModel (.pack (.zero sign))) := by
  cases sign with
  | positive => exact ⟨.positive, rfl⟩
  | negative => exact ⟨.negative, rfl⟩

theorem Agree.trans {x y z : Float} (h : Agree x y) (h' : Agree y z) : Agree x z := by
  rcases h with rfl | ⟨hx, hy⟩
  · exact h'
  · rcases h' with rfl | ⟨-, hz⟩
    · exact .inr ⟨hx, hy⟩
    · exact .inr ⟨hx, hz⟩

/-- A zero is no part of a sum. -/
theorem agree_add_zero (x : Float) : Agree (x + Scalar.zero) x := by
  have hsum : x + Scalar.zero =
      Float.ofModel (.pack (add Format.binary64 x.toModel.unpack (.zero .positive))) := rfl
  have hself := ofModel_pack_unpack x
  rw [hsum]
  cases hx : x.toModel.unpack with
  | infinity sign =>
      rw [hx] at hself
      exact .inl hself
  | notANumber =>
      rw [hx] at hself
      exact .inl hself
  | finite sign m e hm =>
      rw [hx] at hself
      exact .inl hself
  | zero sign =>
      refine .inr ⟨?_, sign, hx⟩
      cases sign with
      | positive => exact isZero_pack _
      | negative => exact isZero_pack _

/-- **The sign of a zero does not count in a sum**, but for a sum that is zero itself. -/
theorem Agree.add_right {x y : Float} (h : Agree x y) (z : Float) : Agree (x + z) (y + z) := by
  rcases h with rfl | ⟨⟨s, hx⟩, t, hy⟩
  · exact .inl rfl
  · have hsum : ∀ w : Float,
        w + z = Float.ofModel (.pack (add Format.binary64 w.toModel.unpack z.toModel.unpack)) :=
      fun _ => rfl
    rw [hsum x, hsum y, hx, hy]
    cases z.toModel.unpack with
    | infinity sign => exact .inl rfl
    | notANumber => exact .inl rfl
    | finite sign m e hm => exact .inl rfl
    | zero sign =>
        -- two zeros of different signs add up to the positive one
        have hzero : ∀ u : UnpackedFloat.Sign,
            IsZero (Float.ofModel (.pack (add Format.binary64 (.zero u) (.zero sign)))) := by
          intro u
          cases u <;> cases sign <;> exact isZero_pack _
        exact .inr ⟨hzero s, hzero t⟩

/-- What is taken from itself leaves a zero. -/
theorem isZero_sub_self {x : Float} (h : x.isFinite) : IsZero (x - x) := by
  obtain ⟨negative, m, e, hview, -⟩ := view_finite h
  have hdifference : x - x =
      Float.ofModel (.pack (sub Format.binary64 x.toModel.unpack x.toModel.unpack)) := rfl
  rw [hdifference]
  rcases unpack_of_view hview with ⟨-, hx⟩ | ⟨-, hm, hx⟩
  · rw [hx]
    cases negative with
    | false => exact isZero_pack _
    | true => exact isZero_pack _
  · have hzero : sub Format.binary64 (.finite (sign negative) m e hm)
        (.finite (sign negative) m e hm) = .zero .positive := by
      unfold sub
      dsimp only
      rw [Int.sub_self]
      rfl
    rw [hx, hzero]
    exact isZero_pack _

end Double

theorem coordinateText_of_isZero {x : Float} (h : Double.IsZero x) :
    coordinateText x = "0.000" := by
  obtain ⟨sign, hx⟩ := h
  rw [← Double.ofModel_pack_unpack x, hx]
  cases sign with
  | positive => decide +kernel
  | negative => decide +kernel

/-- The sign of a zero is not shown. -/
theorem coordinateText_of_agree {x y : Float} (h : Double.Agree x y) :
    coordinateText x = coordinateText y := by
  rcases h with rfl | ⟨hx, hy⟩
  · rfl
  · rw [coordinateText_of_isZero hx, coordinateText_of_isZero hy]

namespace Plan

open Double (Agree)

variable {α : Type} {f : α → Float} {keep : α → Bool}

theorem agree_foldl_filter : ∀ {as : List α}, (∀ a ∈ as, keep a = false → f a = Scalar.zero) →
    ∀ {x y : Float}, Agree x y →
      Agree ((as.map f).foldl (· + ·) x) (((as.filter keep).map f).foldl (· + ·) y)
  | [], _, _, _, h => h
  | a :: as, hzero, x, y, h => by
      obtain ⟨ha, has⟩ := List.forall_mem_cons.mp hzero
      rw [List.map_cons, List.foldl_cons]
      cases hkeep : keep a with
      | true =>
          rw [List.filter_cons_of_pos hkeep, List.map_cons, List.foldl_cons]
          exact agree_foldl_filter has (h.add_right (f a))
      | false =>
          rw [List.filter_cons_of_neg (by simp [hkeep]), ha hkeep]
          exact agree_foldl_filter has ((Double.agree_add_zero x).trans h)

/-- **Lengths that are zero can be left out of a sum.** -/
theorem agree_sum_filter {as : List α} (h : ∀ a ∈ as, keep a = false → f a = Scalar.zero) :
    Agree (sum (as.map f)) (sum ((as.filter keep).map f)) :=
  agree_foldl_filter h (.inl rfl)

end Plan

end Milling
