import Milling.Program.Line
import Milling.Text.Control

/-!
# The characters of numbers

However a number is written, it is written with few characters, and none of them
can end a line, begin a comment or part two words. That is all that the layout of
a program needs to know of numbers, so it is said once, of every way of writing
them, finite or not.
-/

namespace Milling

namespace Text

/-- The characters that a written number is made of; the letters are those of `NaN` and `inf`. -/
def isNumeral (c : Char) : Bool :=
  c.isDigit || c ∈ ['-', '+', '.', 'e', 'N', 'a', 'i', 'n', 'f']

theorem isNumeral_of_isDigit {c : Char} (h : c.isDigit) : isNumeral c := by
  simp [isNumeral, h]

/-- Nothing in a number can end a line, begin a comment or part two words. -/
theorem inert_of_isNumeral {c : Char} (h : isNumeral c) :
    isControl c = false ∧ c ≠ ' ' ∧ c ≠ ';' := by
  rcases Bool.or_eq_true_iff.mp h with hd | hm
  · -- control characters lie below the digits or above the letters
    have hval : 48 ≤ c.val ∧ c.val ≤ 57 := by simpa [Char.isDigit] using hd
    have h1 : 48 ≤ c.val.toNat := UInt32.le_iff_toNat_le.mp hval.1
    have h2 : c.val.toNat ≤ 57 := UInt32.le_iff_toNat_le.mp hval.2
    refine ⟨?_, ?_, ?_⟩
    · simp only [isControl, Bool.or_eq_false_iff, Bool.and_eq_false_iff, decide_eq_false_iff_not,
        UInt32.lt_iff_toNat_lt, UInt32.le_iff_toNat_le, UInt32.toNat_ofNat]
      omega
    · rintro rfl; revert hd; decide
    · rintro rfl; revert hd; decide
  · simp only [decide_eq_true_eq, List.mem_cons, List.not_mem_nil, or_false] at hm
    rcases hm with rfl | rfl | rfl | rfl | rfl | rfl | rfl | rfl | rfl <;> decide

end Text

namespace Double

open Text (isNumeral isNumeral_of_isDigit)

theorem isNumeral_of_mem_toDigits {n : Nat} {c : Char} (h : c ∈ Nat.toDigits 10 n) :
    isNumeral c :=
  isNumeral_of_isDigit (Nat.isDigit_of_mem_toDigits (by decide) (by decide) h)

theorem isNumeral_of_mem_zeros {n : Nat} {c : Char} (h : c ∈ List.replicate n '0') :
    isNumeral c := by
  rw [List.eq_of_mem_replicate h]
  rfl

/-- Signs and the words for what is not finite are written alike in every form. -/
theorem isNumeral_of_mem_write {finite : Nat → Int → List Char}
    (h : ∀ m e, ∀ c ∈ finite m e, isNumeral c) (x : Float) :
    ∀ c ∈ (write finite x).toList, isNumeral c := by
  have hsigned : ∀ (negative : Bool) (text : List Char), (∀ c ∈ text, isNumeral c) →
      ∀ c ∈ signed negative text, isNumeral c := by
    intro negative text ht c hc
    cases negative with
    | false => exact ht c hc
    | true =>
        rcases List.mem_cons.mp hc with rfl | hc
        · rfl
        · exact ht c hc
  intro c hc
  rw [write, String.toList_ofList] at hc
  split at hc
  · exact List.all_eq_true.mp (by decide) c hc
  · exact hsigned _ _ (List.all_eq_true.mp (by decide)) c hc
  · exact hsigned _ _ (h _ _) c hc

theorem isNumeral_of_mem_placed (places scaled : Nat) :
    ∀ c ∈ placed places scaled, isNumeral c := by
  intro c hc
  rw [placed] at hc
  rcases List.mem_append.mp hc with hc | hc
  · exact isNumeral_of_mem_toDigits hc
  · split at hc
    · simp at hc
    · rcases List.mem_cons.mp hc with rfl | hc
      · rfl
      · rcases List.mem_append.mp hc with hc | hc
        · exact isNumeral_of_mem_zeros hc
        · exact isNumeral_of_mem_toDigits hc

theorem isNumeral_of_mem_fixed (places : Nat) (x : Float) :
    ∀ c ∈ (fixed places x).toList, isNumeral c :=
  isNumeral_of_mem_write (fun m e => isNumeral_of_mem_placed places (scaleBy places m e)) x

theorem isNumeral_of_mem_positional (d : Decimal) : ∀ c ∈ d.positional, isNumeral c := by
  have hdigits : ∀ c ∈ d.digits, isNumeral c := fun c hc => isNumeral_of_mem_toDigits hc
  intro c hc
  rw [Decimal.positional] at hc
  split at hc
  · rcases List.mem_append.mp hc with hc | hc
    · exact hdigits c hc
    · exact isNumeral_of_mem_zeros hc
  · split at hc
    · rcases List.mem_append.mp hc with hc | hc
      · exact hdigits c (List.mem_of_mem_take hc)
      · rcases List.mem_cons.mp hc with rfl | hc
        · rfl
        · exact hdigits c (List.mem_of_mem_drop hc)
    · rcases List.mem_cons.mp hc with rfl | hc
      · rfl
      · rcases List.mem_cons.mp hc with rfl | hc
        · rfl
        · rcases List.mem_append.mp hc with hc | hc
          · exact isNumeral_of_mem_zeros hc
          · exact hdigits c hc

theorem isNumeral_of_mem_plain (x : Float) : ∀ c ∈ (plain x).toList, isNumeral c :=
  isNumeral_of_mem_write (fun _ _ => isNumeral_of_mem_positional _) x

end Double

theorem isNumeral_of_mem_coordinateText (x : Float) :
    ∀ c ∈ (coordinateText x).toList, Text.isNumeral c := by
  rw [coordinateText]
  split
  · exact List.all_eq_true.mp (by decide)
  · exact Double.isNumeral_of_mem_fixed 3 x

theorem isNumeral_of_mem_feedText (x : Float) : ∀ c ∈ (feedText x).toList, Text.isNumeral c :=
  Double.isNumeral_of_mem_fixed _ x

end Milling
