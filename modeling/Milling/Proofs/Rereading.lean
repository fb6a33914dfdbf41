import Milling.Number.Text
import Milling.Json.Number
import Milling.Proofs.Shortest
import Milling.Proofs.Doubles

/-!
# What a written number is read as

A number is written with the fewest digits that denote it, and the reader takes
these digits apart into a significand and a power of ten. Here the two sides meet:
for each of the forms that a number is written in, the reader arrives at the
digits of the shortest decimal, and all that can still go wrong is its arithmetic.

`reread` is what that arithmetic makes of a double. It is not always the double
itself: the significand is rounded to a double first, and its product or quotient
with the power of ten a second time.
-/

namespace Milling.Json

/-- Text on which a value that was just read has come to an end: nothing, or what parts values. -/
def Stopped (rest : List Char) : Prop := ∀ c ∈ rest.head?, c ∈ [',', ']', '\x7d', '\n']

theorem Stopped.isDigit_eq_false {rest : List Char} (h : Stopped rest) :
    ∀ c ∈ rest.head?, c.isDigit = false := by
  intro c hc
  have hmem := h c hc
  simp only [List.mem_cons, List.not_mem_nil, or_false] at hmem
  rcases hmem with rfl | rfl | rfl | rfl <;> rfl

namespace Numeral

/-! ## Digits -/

/-- Digits that can begin a number: a zero only stands alone. -/
structure Leading (digits : List Char) : Prop where
  isDigit : ∀ c ∈ digits, c.isDigit
  ne_nil : digits ≠ []
  zero_alone : digits.head? = some '0' → digits = ['0']

theorem head?_toDigits {n : ℕ} (h : 0 < n) : (Nat.toDigits 10 n).head? ≠ some '0' := by
  have hsmall : ∀ n < 10, 0 < n → [n.digitChar].head? ≠ some '0' := by decide
  induction n using Nat.strongRecOn with
  | ind n ih =>
      by_cases hlt : n < 10
      · rw [Nat.toDigits_of_lt_base hlt]
        exact hsmall n hlt h
      · rw [Nat.toDigits_of_base_le (by decide) (Nat.le_of_not_lt hlt),
          List.head?_append_of_ne_nil _ Nat.toDigits_ne_nil]
        exact ih (n / 10) (Nat.div_lt_self h (by decide)) (Nat.div_pos (by omega) (by decide))

theorem isDigit_of_mem_toDigits {n : ℕ} {c : Char} (h : c ∈ Nat.toDigits 10 n) : c.isDigit :=
  Nat.isDigit_of_mem_toDigits (by decide) (by decide) h

theorem isDigit_of_mem_zeros {n : ℕ} {c : Char} (h : c ∈ List.replicate n '0') : c.isDigit := by
  rw [List.eq_of_mem_replicate h]
  rfl

/-- The digits of a number only add to what stands before them. -/
theorem le_ofDigitChars (digits : List Char) (n : ℕ) : n ≤ Nat.ofDigitChars 10 digits n := by
  rw [Nat.ofDigitChars_eq_ofDigitChars_zero]
  exact Nat.le_trans (Nat.le_mul_of_pos_left n (Nat.pow_pos (by decide))) (Nat.le_add_right _ _)

/-- As long as the significand fits, every digit is taken. -/
theorem collect_digits {rest : List Char} (hrest : ∀ c ∈ rest.head?, c.isDigit = false) :
    ∀ (digits : List Char) (significand : ℕ), (∀ c ∈ digits, c.isDigit) →
      Nat.ofDigitChars 10 digits significand < 2 ^ 64 →
      collect significand (digits ++ rest) =
        { significand := Nat.ofDigitChars 10 digits significand, taken := digits.length
          dropped := 0, rest }
  | [], significand, _, _ => by
      cases rest with
      | nil => rfl
      | cons c rest =>
          rw [List.nil_append, collect, hrest c rfl]
          rfl
  | c :: digits, significand, hdigits, hfits => by
      rw [Nat.ofDigitChars_cons, Nat.mul_comm] at hfits
      have hnext : significand * 10 + digit c < Nat.pow 2 64 :=
        Nat.lt_of_le_of_lt (le_ofDigitChars digits _) hfits
      have hmore := collect_digits hrest digits (significand * 10 + digit c)
        (fun d hd => hdigits d (List.mem_cons_of_mem c hd)) hfits
      rw [List.cons_append, collect, if_pos (hdigits c (List.mem_cons_self ..))]
      dsimp only
      rw [if_pos hnext, hmore, Nat.ofDigitChars_cons, Nat.mul_comm 10]
      rfl

/-- The digits before a point or an exponent. -/
theorem read_leading {digits rest : List Char} (negative : Bool) (h : Leading digits)
    (hfits : Nat.ofDigitChars 10 digits 0 < 2 ^ 64)
    (hrest : ∀ c ∈ rest.head?, c.isDigit = false) :
    read negative (digits ++ rest) =
      readTail negative
        { significand := Nat.ofDigitChars 10 digits 0, taken := digits.length
          dropped := 0, rest } := by
  have hcollect := collect_digits hrest digits 0 h.isDigit hfits
  cases digits with
  | nil => exact absurd rfl h.ne_nil
  | cons c digits =>
      by_cases hc : c = '0'
      · -- the reader takes a zero by itself and wants no digit behind it
        obtain ⟨rfl⟩ := List.cons.inj (h.zero_alone (by rw [hc]; rfl)) |>.2
        rw [hc]
        cases rest with
        | nil => rfl
        | cons d rest =>
            show (if d.isDigit = true then _ else _ : Except Fault _) = _
            rw [hrest d rfl]
            rfl
      · rw [List.cons_append] at hcollect ⊢
        rw [read, if_pos (h.isDigit c (List.mem_cons_self ..)), hcollect]
        exact hc

/-- The digits behind a point, where the number ends with them. -/
theorem readFraction_digits {digits rest : List Char} (negative : Bool) (significand : ℕ)
    (hdigits : ∀ c ∈ digits, c.isDigit) (hne : digits ≠ [])
    (hfits : Nat.ofDigitChars 10 digits significand < 2 ^ 64) (hrest : Stopped rest) :
    readFraction negative significand 0 (digits ++ rest) =
      ofParts negative (Nat.ofDigitChars 10 digits significand) (-digits.length) rest := by
  have hlength : digits.length ≠ 0 := fun h => hne (List.eq_nil_of_length_eq_zero h)
  -- what stops a value is not a digit and does not begin an exponent
  unfold readFraction
  rw [collect_digits hrest.isDigit_eq_false digits significand hdigits hfits]
  dsimp only
  rw [if_neg (fun h => hlength h.1), Int.zero_sub]
  split
  · exact absurd (hrest 'e' rfl) (by decide)
  · exact absurd (hrest 'E' rfl) (by decide)
  · rfl

/-- The digits behind a point, where a power of ten follows them. -/
theorem readFraction_exponent {digits rest : List Char} (negative : Bool) (significand : ℕ)
    (hdigits : ∀ c ∈ digits, c.isDigit) (hne : digits ≠ [])
    (hfits : Nat.ofDigitChars 10 digits significand < 2 ^ 64) :
    readFraction negative significand 0 (digits ++ 'e' :: rest) =
      readExponent negative (Nat.ofDigitChars 10 digits significand) (-digits.length) rest := by
  have hlength : digits.length ≠ 0 := fun h => hne (List.eq_nil_of_length_eq_zero h)
  have hrest : ∀ c ∈ ('e' :: rest).head?, c.isDigit = false := by
    rintro c ⟨⟩
    rfl
  unfold readFraction
  rw [collect_digits hrest digits significand hdigits hfits]
  dsimp only
  rw [if_neg (fun h => hlength h.1)]
  show readExponent negative _ (0 - digits.length) rest = _
  rw [Int.zero_sub]

/-- The digits of a written power of ten, however many there are. -/
theorem readPower_toDigits (n : ℕ) {rest : List Char} (hrest : Stopped rest) :
    readPower (Nat.toDigits 10 n ++ rest) = .ok (n, rest) := by
  have hdigits : ∀ c ∈ Nat.toDigits 10 n, c.isDigit := fun c hc => isDigit_of_mem_toDigits hc
  have hvalue : (Nat.toDigits 10 n).foldl (fun n c => n * 10 + digit c) 0 = n := by
    conv_rhs => rw [← Nat.ofDigitChars_ten_toDigits (n := n), Nat.ofDigitChars_eq_foldl]
    simp only [Nat.mul_comm 10]
    rfl
  have htake : rest.takeWhile Char.isDigit = [] := by
    cases rest with
    | nil => rfl
    | cons c rest => exact List.takeWhile_cons_of_neg (by simp [hrest.isDigit_eq_false c rfl])
  have hdrop : rest.dropWhile Char.isDigit = rest := by
    cases rest with
    | nil => rfl
    | cons c rest => exact List.dropWhile_cons_of_neg (by simp [hrest.isDigit_eq_false c rfl])
  unfold readPower
  -- there is a first digit, since no number is written without one
  split
  · rename_i hnil
    exact absurd (List.append_eq_nil_iff.mp hnil).1 Nat.toDigits_ne_nil
  · rename_i c tail hcons
    have hc : c.isDigit := by
      cases hn : Nat.toDigits 10 n with
      | nil => exact absurd hn Nat.toDigits_ne_nil
      | cons d ds =>
          rw [hn, List.cons_append] at hcons
          exact hdigits c (by rw [hn, (List.cons.inj hcons).1]; exact List.mem_cons_self ..)
    rw [if_pos hc, List.takeWhile_append_of_pos hdigits, List.dropWhile_append_of_pos hdigits,
      htake, hdrop, List.append_nil, hvalue]

theorem readExponent_signed {rest : List Char} (negative : Bool) (significand : ℕ)
    (power exponent : ℤ) (hrest : Stopped rest) :
    readExponent negative significand power
        ((if exponent < 0 then '-' else '+') :: (Nat.toDigits 10 exponent.natAbs ++ rest)) =
      ofParts negative significand (power + exponent) rest := by
  unfold readExponent
  by_cases hsign : exponent < 0
  · simp only [if_pos hsign, readPower_toDigits _ hrest]
    show ofParts negative significand (power - exponent.natAbs) rest = _
    congr 1
    omega
  · simp only [if_neg hsign, readPower_toDigits _ hrest]
    show ofParts negative significand (power + exponent.natAbs) rest = _
    congr 1
    omega

/-! ## Digits around a point -/

theorem leading_toDigits (n : ℕ) : Leading (Nat.toDigits 10 n) := by
  refine ⟨fun c hc => isDigit_of_mem_toDigits hc, Nat.toDigits_ne_nil, fun h => ?_⟩
  rcases Nat.eq_zero_or_pos n with rfl | hn
  · rfl
  · exact absurd h (head?_toDigits hn)

/-- Without a zero in front, more digits may follow. -/
theorem leading_append {digits more : List Char} (hdigits : ∀ c ∈ digits, c.isDigit)
    (hne : digits ≠ []) (hzero : digits.head? ≠ some '0') (hmore : ∀ c ∈ more, c.isDigit) :
    Leading (digits ++ more) where
  isDigit c hc := (List.mem_append.mp hc).elim (hdigits c) (hmore c)
  ne_nil h := hne (List.append_eq_nil_iff.mp h).1
  zero_alone h := absurd (List.head?_append_of_ne_nil _ hne ▸ h) hzero

/-- A number with a point reads as all its digits, and a power of ten that takes the point back. -/
theorem read_pointed {whole rest : List Char} (fraction : List Char) (negative : Bool)
    (hwhole : Leading whole) (hfraction : ∀ c ∈ fraction, c.isDigit) (hne : fraction ≠ [])
    (hfits : Nat.ofDigitChars 10 (whole ++ fraction) 0 < 2 ^ 64) (hrest : Stopped rest) :
    read negative (whole ++ '.' :: (fraction ++ rest)) =
      ofParts negative (Nat.ofDigitChars 10 (whole ++ fraction) 0) (-fraction.length) rest := by
  rw [Nat.ofDigitChars_append] at hfits ⊢
  have hdot : ∀ c ∈ ('.' :: (fraction ++ rest)).head?, c.isDigit = false := by
    rintro c ⟨⟩
    rfl
  rw [read_leading negative hwhole (Nat.lt_of_le_of_lt (le_ofDigitChars fraction _) hfits) hdot]
  exact readFraction_digits negative _ hfraction hne hfits hrest

theorem read_pointed_exponent {whole fraction rest : List Char} (negative : Bool) (exponent : ℤ)
    (hwhole : Leading whole) (hfraction : ∀ c ∈ fraction, c.isDigit) (hne : fraction ≠ [])
    (hfits : Nat.ofDigitChars 10 (whole ++ fraction) 0 < 2 ^ 64) (hrest : Stopped rest) :
    read negative (whole ++ '.' :: (fraction ++
        'e' :: (if exponent < 0 then '-' else '+') ::
          (Nat.toDigits 10 exponent.natAbs ++ rest))) =
      ofParts negative (Nat.ofDigitChars 10 (whole ++ fraction) 0)
        (-fraction.length + exponent) rest := by
  rw [Nat.ofDigitChars_append] at hfits ⊢
  have hdot : ∀ tail : List Char, ∀ c ∈ ('.' :: tail).head?, c.isDigit = false := by
    rintro tail c ⟨⟩
    rfl
  rw [read_leading negative hwhole (Nat.lt_of_le_of_lt (le_ofDigitChars fraction _) hfits)
    (hdot _)]
  show readFraction negative _ 0 _ = _
  rw [readFraction_exponent negative _ hfraction hne hfits, readExponent_signed _ _ _ _ hrest]

theorem read_exponent {whole rest : List Char} (negative : Bool) (exponent : ℤ)
    (hwhole : Leading whole) (hfits : Nat.ofDigitChars 10 whole 0 < 2 ^ 64)
    (hrest : Stopped rest) :
    read negative (whole ++ 'e' :: (if exponent < 0 then '-' else '+') ::
        (Nat.toDigits 10 exponent.natAbs ++ rest)) =
      ofParts negative (Nat.ofDigitChars 10 whole 0) exponent rest := by
  have he : ∀ tail : List Char, ∀ c ∈ ('e' :: tail).head?, c.isDigit = false := by
    rintro tail c ⟨⟩
    rfl
  rw [read_leading negative hwhole hfits (he _)]
  show readExponent negative _ 0 _ = _
  rw [readExponent_signed _ _ _ _ hrest, Int.zero_add]

end Numeral

end Milling.Json

namespace Milling

namespace Decimal

open Json (Stopped)
open Json.Numeral (read ofParts Leading)

/-! ## The forms of a decimal -/

/-- Whether a decimal is short enough to be written without a power of ten. -/
def Short (d : Decimal) : Prop := d.coefficient = 0 ∨ (-5 < d.point ∧ d.point ≤ 16)

instance (d : Decimal) : Decidable d.Short := inferInstanceAs (Decidable (_ ∨ _))

/-- A decimal as `compact` writes it. -/
def written (d : Decimal) : List Char :=
  if d.Short then d.positional ++ if d.isWhole then ['.', '0'] else [] else d.scientific

/--
The digits that a written decimal shows, without the point, and the power of ten
that takes the point back. A whole number shows one zero behind its point.
-/
def shown (d : Decimal) : ℕ × ℤ :=
  if d.Short ∧ d.isWhole then (d.coefficient * 10 ^ (d.exponent.toNat + 1), -1)
  else (d.coefficient, d.exponent)

variable {d : Decimal}

theorem ofDigitChars_digits (d : Decimal) : Nat.ofDigitChars 10 d.digits 0 = d.coefficient :=
  Nat.ofDigitChars_ten_toDigits

theorem isDigit_of_mem_digits {c : Char} (h : c ∈ d.digits) : c.isDigit :=
  Json.Numeral.isDigit_of_mem_toDigits h

theorem digits_ne_nil (d : Decimal) : d.digits ≠ [] := Nat.toDigits_ne_nil

theorem coefficient_lt (d : Decimal) : d.coefficient < 10 ^ d.digits.length :=
  (Nat.length_toDigits_le_iff (by decide) Nat.length_toDigits_pos).mp (Nat.le_refl _)

/-- Digits on both sides of a point, and the number that they show together. -/
structure Pointed (whole fraction : List Char) (n : ℕ) (k : ℤ) : Prop where
  leading : Leading whole
  isDigit : ∀ c ∈ fraction, c.isDigit
  ne_nil : fraction ≠ []
  value : Nat.ofDigitChars 10 (whole ++ fraction) 0 = n
  places : -(fraction.length : ℤ) = k

/-- A whole number: its digits, zeros up to the point, and one zero behind it. -/
theorem pointed_whole (hd : d = ⟨0, 0⟩ ∨ 0 < d.coefficient) (hwhole : 0 ≤ d.exponent) :
    Pointed d.positional ['0'] (d.coefficient * 10 ^ (d.exponent.toNat + 1)) (-1) := by
  have hzeros : ∀ c ∈ List.replicate d.exponent.toNat '0', c.isDigit :=
    fun c hc => Json.Numeral.isDigit_of_mem_zeros hc
  rw [positional, if_pos hwhole]
  refine ⟨?_, List.forall_mem_singleton.mpr rfl, List.cons_ne_nil _ _, ?_, rfl⟩
  · rcases hd with rfl | hd
    · exact Json.Numeral.leading_toDigits 0
    · exact Json.Numeral.leading_append (fun c hc => isDigit_of_mem_digits hc) d.digits_ne_nil
        (Json.Numeral.head?_toDigits hd) hzeros
  · rw [Nat.ofDigitChars_append, Nat.ofDigitChars_append, ofDigitChars_digits,
      Nat.ofDigitChars_replicate_zero, show ['0'] = List.replicate 1 '0' from rfl,
      Nat.ofDigitChars_replicate_zero]
    ring

/-- A number with digits on both sides of the point, or with zeros between the two. -/
theorem pointed_fraction (hd : 0 < d.coefficient) (hwhole : ¬ 0 ≤ d.exponent) :
    ∃ whole fraction, d.positional = whole ++ '.' :: fraction ∧
      Pointed whole fraction d.coefficient d.exponent := by
  have hdigits : ∀ c ∈ d.digits, c.isDigit := fun c hc => isDigit_of_mem_digits hc
  rw [positional, if_neg hwhole]
  by_cases hpoint : 0 < d.point
  · -- the point is inside the digits
    have hsplit := List.take_append_drop d.point.toNat d.digits
    have hlength : (d.digits.drop d.point.toNat).length = -d.exponent := by
      rw [List.length_drop]
      rw [point] at hpoint ⊢
      omega
    have htake : (d.digits.take d.point.toNat).head? = d.digits.head? := by
      rw [List.head?_take, if_neg (by omega)]
    have hleading : Leading (d.digits.take d.point.toNat) := by
      refine ⟨fun c hc => hdigits c (List.mem_of_mem_take hc), ?_, fun h => ?_⟩
      · intro h
        rw [h] at htake
        exact d.digits_ne_nil (List.head?_eq_none_iff.mp htake.symm)
      · exact absurd (htake ▸ h) (Json.Numeral.head?_toDigits hd)
    rw [if_pos hpoint]
    refine ⟨_, _, rfl, hleading, fun c hc => hdigits c (List.mem_of_mem_drop hc), ?_, ?_, ?_⟩
    · intro h
      rw [h] at hlength
      simp only [List.length_nil] at hlength
      omega
    · rw [hsplit, ofDigitChars_digits]
    · rw [hlength, Int.neg_neg]
  · -- the point is before the digits, and zeros stand between
    rw [if_neg hpoint]
    refine ⟨['0'], List.replicate (-d.point).toNat '0' ++ d.digits, rfl,
      Json.Numeral.leading_toDigits 0,
      fun c hc => (List.mem_append.mp hc).elim Json.Numeral.isDigit_of_mem_zeros (hdigits c),
      fun h => d.digits_ne_nil (List.append_eq_nil_iff.mp h).2, ?_, ?_⟩
    · rw [Nat.ofDigitChars_append, Nat.ofDigitChars_append, Nat.ofDigitChars_replicate_zero]
      exact ofDigitChars_digits d
    · rw [List.length_append, List.length_replicate]
      rw [point] at hpoint ⊢
      omega

/-- What is shown around a point is read, if its digits fit. -/
theorem Pointed.read {whole fraction rest : List Char} {n : ℕ} {k : ℤ}
    (h : Pointed whole fraction n k) (negative : Bool) (hfits : n < 2 ^ 64) (hrest : Stopped rest) :
    read negative (whole ++ '.' :: (fraction ++ rest)) = ofParts negative n k rest := by
  rw [Json.Numeral.read_pointed fraction negative h.leading h.isDigit h.ne_nil
    (by rw [h.value]; exact hfits) hrest, h.value, h.places]

theorem read_whole {rest : List Char} (negative : Bool) (hd : d = ⟨0, 0⟩ ∨ 0 < d.coefficient)
    (hshort : d.Short) (hwhole : 0 ≤ d.exponent) (hrest : Stopped rest) :
    read negative (d.positional ++ '.' :: '0' :: rest) =
      ofParts negative (d.coefficient * 10 ^ (d.exponent.toNat + 1)) (-1) rest := by
  have hfits : d.coefficient * 10 ^ (d.exponent.toNat + 1) < 2 ^ 64 := by
    rcases hd with rfl | hd
    · decide
    · -- sixteen digits up to the point, and the zero behind it
      have hpoint : d.digits.length + d.exponent.toNat + 1 ≤ 17 := by
        rcases hshort with hzero | ⟨-, hpoint⟩
        · omega
        · rw [point] at hpoint
          omega
      calc d.coefficient * 10 ^ (d.exponent.toNat + 1)
          < 10 ^ d.digits.length * 10 ^ (d.exponent.toNat + 1) :=
            Nat.mul_lt_mul_of_pos_right d.coefficient_lt (Nat.pow_pos (by decide))
        _ = 10 ^ (d.digits.length + d.exponent.toNat + 1) := by rw [← Nat.pow_add, Nat.add_assoc]
        _ ≤ 10 ^ 17 := Nat.pow_le_pow_right (by decide) hpoint
        _ < 2 ^ 64 := by norm_num
  exact (pointed_whole hd hwhole).read negative hfits hrest

theorem read_fraction {rest : List Char} (negative : Bool) (hd : 0 < d.coefficient)
    (hfits : d.coefficient < 2 ^ 64) (hwhole : ¬ 0 ≤ d.exponent) (hrest : Stopped rest) :
    read negative (d.positional ++ rest) = ofParts negative d.coefficient d.exponent rest := by
  obtain ⟨whole, fraction, hsplit, hpointed⟩ := pointed_fraction hd hwhole
  rw [hsplit, List.append_assoc]
  exact hpointed.read negative hfits hrest

/-- One digit, the others behind a point, and a power of ten. -/
theorem read_scientific {rest : List Char} (negative : Bool) (hd : 0 < d.coefficient)
    (hfits : d.coefficient < 2 ^ 64) (hrest : Stopped rest) :
    read negative (d.scientific ++ rest) = ofParts negative d.coefficient d.exponent rest := by
  have hvalue := ofDigitChars_digits d
  have hdigits : ∀ c ∈ d.digits, c.isDigit := fun c hc => isDigit_of_mem_digits hc
  have hzero : d.digits.head? ≠ some '0' := Json.Numeral.head?_toDigits hd
  unfold scientific point
  generalize d.digits = digits at hvalue hdigits hzero
  -- a single digit is written without a point
  cases digits with
  | nil => exact absurd (show 0 = d.coefficient from hvalue) (Nat.ne_of_lt hd)
  | cons first tail =>
      have hleading : Leading [first] := by
        refine ⟨fun c hc => hdigits c ?_, List.cons_ne_nil _ _, fun h => absurd h hzero⟩
        rw [List.mem_singleton.mp hc]
        exact List.mem_cons_self ..
      cases tail with
      | nil =>
          have hread := Json.Numeral.read_exponent negative
            (([first].length : ℤ) + d.exponent - 1) hleading (by rw [hvalue]; exact hfits) hrest
          rw [hvalue] at hread
          rw [show ([first].length : ℤ) + d.exponent - 1 = d.exponent by
            simp only [List.length_singleton]; push_cast; ring] at hread ⊢
          exact hread
      | cons second tail =>
          have hall : Nat.ofDigitChars 10 ([first] ++ second :: tail) 0 = d.coefficient := hvalue
          have hread := Json.Numeral.read_pointed_exponent negative
            (((first :: second :: tail).length : ℤ) + d.exponent - 1) hleading
            (fun c hc => hdigits c (List.mem_cons_of_mem _ hc)) (List.cons_ne_nil second tail)
            (by rw [hall]; exact hfits) hrest
          rw [hall] at hread
          rw [show -((second :: tail).length : ℤ) +
            (((first :: second :: tail).length : ℤ) + d.exponent - 1) = d.exponent by
              simp only [List.length_cons]; push_cast; ring] at hread
          simp only [List.append_assoc, List.cons_append]
          exact hread

/-- **A written decimal reads as the digits it shows**, in whichever form it is written. -/
theorem read_written {rest : List Char} (negative : Bool) (hd : d = ⟨0, 0⟩ ∨ 0 < d.coefficient)
    (hfits : d.coefficient < 2 ^ 64) (hrest : Stopped rest) :
    read negative (d.written ++ rest) = ofParts negative d.shown.1 d.shown.2 rest := by
  rw [written, shown]
  by_cases hshort : d.Short
  · by_cases hwhole : 0 ≤ d.exponent
    · have hw : d.isWhole = true := by simp [isWhole, hwhole]
      rw [if_pos hshort, if_pos hw, if_pos ⟨hshort, hw⟩, List.append_assoc]
      exact read_whole negative hd hshort hwhole hrest
    · have hpos : 0 < d.coefficient := by
        rcases hd with rfl | hd
        · exact absurd (Int.le_refl 0) hwhole
        · exact hd
      rw [if_pos hshort, if_neg (by simp [isWhole, hwhole]), if_neg (by simp [isWhole, hwhole]),
        List.append_nil]
      exact read_fraction negative hpos hfits hwhole hrest
  · have hpos : 0 < d.coefficient := by
      rcases hd with rfl | hd
      · exact absurd (Or.inl rfl) hshort
      · exact hd
    rw [if_neg hshort, if_neg (fun h => hshort h.1)]
    exact read_scientific negative hpos hfits hrest

/-- Whatever its form, a written decimal begins with a digit. -/
theorem written_cons (d : Decimal) : ∃ c text, d.written = c :: text ∧ c.isDigit := by
  have hdigits : ∀ c ∈ d.digits, c.isDigit := fun c hc => isDigit_of_mem_digits hc
  have hne := d.digits_ne_nil
  rw [written, positional]
  unfold scientific
  generalize d.digits = digits at hdigits hne
  cases digits with
  | nil => exact absurd rfl hne
  | cons first tail =>
      have hfirst := hdigits first (List.mem_cons_self ..)
      split
      · split
        · exact ⟨first, _, rfl, hfirst⟩
        · split
          · rename_i hpoint
            obtain ⟨n, hn⟩ := Nat.exists_eq_succ_of_ne_zero (n := d.point.toNat) (by omega)
            rw [hn]
            exact ⟨first, _, rfl, hfirst⟩
          · exact ⟨'0', _, rfl, by decide⟩
      · exact ⟨first, _, rfl, hfirst⟩

end Decimal

namespace Json

/-! ## Doubles -/

/--
What the reader makes of a written double: the digits of its shortest decimal as
one whole number, rounded to a double, and then multiplied or divided by a power
of ten. What is not finite is written as `null`, which is not a number.
-/
def reread (x : Float) : Except Fault Float :=
  match Double.view x with
  | .finite negative significand exponent =>
    let d := Decimal.shortest .even significand exponent
    match Numeral.scale 4 (Double.ofNat d.shown.1) d.shown.2 with
    | some y => .ok (if negative then -y else y)
    | none => .error (.breach .numberTooLarge)
  | _ => .error (.mismatch (.wrongType .null "f64"))

/-- **A finite double is read as its digits make it**, behind a sign of its own. -/
theorem read_compact {x : Float} (h : x.isFinite) :
    ∃ negative c text, (Double.compact x).toList = Double.signed negative (c :: text) ∧
      c.isDigit ∧ ∀ rest, Stopped rest →
        (Numeral.read negative (c :: text ++ rest)).map (fun p => (p.1.toFloat, p.2)) =
          (reread x).map (·, rest) := by
  obtain ⟨negative, m, e, hview, hm53, hlow, hhigh⟩ := Double.view_finite h
  obtain ⟨c, text, hwritten, hc⟩ := (Decimal.shortest .even m e).written_cons
  refine ⟨negative, c, text, ?_, hc, fun rest hrest => ?_⟩
  · rw [← hwritten, Double.compact, Double.write, String.toList_ofList, hview]
    rfl
  · have hd : Decimal.shortest .even m e = ⟨0, 0⟩ ∨
        0 < (Decimal.shortest .even m e).coefficient := by
      rcases Nat.eq_zero_or_pos m with rfl | hm
      · exact .inl (by rw [Decimal.shortest, if_pos rfl])
      · exact .inr (Decimal.shortest_pos .even hm hm53 hlow hhigh)
    have hfits : (Decimal.shortest .even m e).coefficient < 2 ^ 64 := by
      rcases Nat.eq_zero_or_pos m with rfl | hm
      · rw [Decimal.shortest, if_pos rfl]
        decide
      · exact (Decimal.shortest_spec .even hm hm53 hlow hhigh).2
    rw [← hwritten, Decimal.read_written negative hd hfits hrest, Numeral.ofParts, reread, hview]
    dsimp only
    generalize Numeral.scale 4 _ _ = product
    cases product with
    | some y => rfl
    | none => rfl

end Json

end Milling
