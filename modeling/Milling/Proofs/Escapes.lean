import Milling.Json.Text
import Mathlib.Data.List.Basic

/-!
# Texts in JSON survive

Whatever characters a text has, the reader gets them back from what was written,
and stops exactly behind the closing quote. A character is written as itself, as
one of seven short escapes, or by its number; each way is one turn of the reader.
-/

namespace Milling.Json

theorem hexNumber?_control : ∀ n < 32,
    hexNumber? '0' '0' (n / 16).digitChar (n % 16).digitChar = some n := by
  decide

/-- What a control character without a short escape is written as, read behind its backslash. -/
theorem readEscape_control {c : Char} (h : c.val < 0x20) (rest : List Char) :
    readEscape
      ('u' :: '0' :: '0' :: (c.toNat / 16).digitChar :: (c.toNat % 16).digitChar :: rest) =
      .ok (c, rest) := by
  have hc : c.toNat < 32 := UInt32.lt_iff_toNat_lt.mp h
  have hunit : readUnit
      ('0' :: '0' :: (c.toNat / 16).digitChar :: (c.toNat % 16).digitChar :: rest) =
      .ok (c.toNat, rest) := by
    rw [readUnit, hexNumber?_control _ hc]
  rw [readEscape, hunit]
  show (if _ then _ else if _ then _ else _ : Except Fault (Char × List Char)) = _
  rw [if_neg (by omega), if_neg (by omega), Char.ofNat_toNat]

/-- One written character is one turn of the reader, whichever way it is written. -/
theorem readChars_escapeChar (fuel : Nat) (read : List Char) (c : Char) (rest : List Char) :
    readChars (fuel + 1) read (escapeChar c ++ rest) = readChars fuel (c :: read) rest := by
  unfold escapeChar
  split
  iterate 7 rfl
  rename_i hquote hbackslash _ _ _ _ _
  -- no short escape: the character goes by its number or stands for itself
  split
  · rename_i hcontrol
    simp only [List.cons_append, List.nil_append]
    rw [readChars, if_neg (by decide), if_pos rfl, readEscape_control hcontrol]
  · rename_i hcontrol
    rw [List.singleton_append, readChars, if_neg hquote, if_neg hbackslash, if_neg hcontrol]

theorem readChars_flatMap (rest : List Char) : ∀ (text : List Char) (fuel : Nat)
    (read : List Char), text.length < fuel →
    readChars fuel read (text.flatMap escapeChar ++ '"' :: rest) =
      .ok (String.ofList (read.reverse ++ text), rest)
  | [], 0, _, h => absurd h (by simp)
  | [], fuel + 1, read, _ => by
      rw [List.flatMap_nil, List.nil_append, readChars, if_pos rfl, List.append_nil]
  | c :: text, 0, _, h => absurd h (by simp)
  | c :: text, fuel + 1, read, h => by
      rw [List.flatMap_cons, List.append_assoc, readChars_escapeChar,
        readChars_flatMap rest text fuel (c :: read) (Nat.lt_of_succ_lt_succ h),
        List.reverse_cons, List.append_assoc, List.singleton_append]

theorem length_le_flatMap (text : List Char) : text.length ≤ (text.flatMap escapeChar).length := by
  induction text with
  | nil => exact Nat.le_refl _
  | cons c text ih =>
      have hc : 1 ≤ (escapeChar c).length := by
        unfold escapeChar
        split
        iterate 7 exact Nat.le_add_left _ _
        split <;> simp
      rw [List.flatMap_cons, List.length_append, List.length_cons]
      omega

/-- **A written text reads back as itself**, whatever follows its closing quote. -/
theorem readText_flatMap (text : String) (rest : List Char) :
    readText (text.toList.flatMap escapeChar ++ '"' :: rest) = .ok (text, rest) := by
  have hlength := length_le_flatMap text.toList
  rw [readText, readChars_flatMap rest text.toList _ [], List.reverse_nil, List.nil_append,
    String.ofList_toList]
  rw [List.length_append]
  omega

end Milling.Json
