import Milling.Proofs.Nearest
import Milling.Proofs.Rereading
import Milling.Toml.Record

/-!
# TOML numbers, written and read back

The writer shows the shortest digits of a double around a point, never with a power
of ten, and a whole number with a zero behind the point. The reader takes the same
digits, rounds once, and so finds the same double: nothing is lost, be it ever so
large or small.

Before that it has to see that these characters are a number at all, and not one of
the other things that begin with a digit: a date, a time of day, a number in another
base. The point comes too early for a date and stands where a time has a colon.
-/

namespace Milling

namespace Double

open Decimal (Pointed shortest shortest_spec shortest_pos pointed_whole pointed_fraction)

variable {x : Float} {negative : Bool} {m : ℕ} {e : ℤ}

theorem ofDecimal_of_view_zero (h : view x = .finite negative 0 e) (k : ℤ) :
    ofDecimal negative 0 k = x := by
  have he : e = -1074 := by
    rcases normal_of_view h with he | hm
    · exact he
    · exact absurd hm (by decide)
  have hx := ofMagnitude_of_view h
  rw [he] at hx
  exact (ofDecimal_zero negative k).trans hx

/-- **What is shown of a double around a point is read as that double.** -/
theorem exists_pointed (h : view x = .finite negative m e) : ∃ whole fraction n k,
    (pointed x).toList = signed negative (whole ++ '.' :: fraction) ∧
      Pointed whole fraction n k ∧ ofDecimal negative n k = x := by
  obtain ⟨_, _, _, hview', hm53, hlow, hhigh⟩ := view_finite (isFinite_of_view h)
  obtain ⟨rfl, rfl, rfl⟩ := View.finite.inj (h.symm.trans hview')
  have htext : (pointed x).toList = signed negative ((shortest .up m e).positional ++
      if (shortest .up m e).isWhole then ['.', '0'] else []) := by
    rw [pointed, write, h, String.toList_ofList]
  rw [htext]
  by_cases hm : m = 0
  · subst hm
    rw [show shortest .up 0 e = ⟨0, 0⟩ from if_pos rfl]
    exact ⟨['0'], ['0'], _, _, rfl, pointed_whole (d := ⟨0, 0⟩) (.inl rfl) (Int.le_refl 0),
      (congrArg (ofDecimal negative · (-1)) (Nat.zero_mul _)).trans (ofDecimal_of_view_zero h _)⟩
  · have hm := Nat.pos_of_ne_zero hm
    have hpos := shortest_pos .up hm hm53 hlow hhigh
    have hholds := (shortest_spec .up hm hm53 hlow hhigh).1
    generalize shortest .up m e = d at hpos hholds
    by_cases hwhole : 0 ≤ d.exponent
    · rw [Decimal.isWhole, decide_eq_true hwhole, if_pos rfl]
      refine ⟨_, _, _, _, rfl, pointed_whole (.inr hpos) hwhole, ofDecimal_of_holds h hm ?_⟩
      obtain ⟨n, hn⟩ := Int.eq_ofNat_of_zero_le hwhole
      have hshift : ((d.coefficient * 10 ^ (d.exponent.toNat + 1) : ℕ) : ℚ) * 10 ^ (-1 : ℤ) =
          d.coefficient * 10 ^ d.exponent := by
        rw [hn, Int.toNat_natCast, zpow_natCast, pow_succ]
        push_cast
        norm_num
        ring
      rw [hshift]
      exact hholds
    · rw [Decimal.isWhole, decide_eq_false hwhole, if_neg Bool.false_ne_true, List.append_nil]
      obtain ⟨whole, fraction, hsplit, hpointed⟩ := pointed_fraction hpos hwhole
      exact ⟨whole, fraction, _, _, congrArg (signed negative) hsplit, hpointed,
        ofDecimal_of_holds h hm hholds⟩

end Double

namespace Toml.Literal

open Json.Numeral (Leading)

/-! ## Digits -/

theorem ne_underscore {c : Char} (h : c.isDigit) : c ≠ '_' := by
  rintro rfl
  exact absurd h (by decide)

/-- Digits up to another character are read as they stand. -/
theorem digits?_append {digits rest : List Char} (hdigits : ∀ c ∈ digits, c.isDigit)
    (hne : digits ≠ []) (hrest : ∀ c ∈ rest.head?, c.isDigit = false ∧ c ≠ '_') :
    digits? Char.isDigit (digits ++ rest) = some (digits, rest) := by
  -- on the digits: the reader looks one character ahead, for an underscore or the end
  induction digits with
  | nil => exact absurd rfl hne
  | cons c digits ih =>
      have hc := hdigits c List.mem_cons_self
      cases digits with
      | nil =>
          cases rest with
          | nil => simp [digits?, hc]
          | cons d rest =>
              obtain ⟨hd, hunderscore⟩ := hrest d rfl
              simp only [List.cons_append, List.nil_append]
              rw [digits?, if_pos hc, hd, if_neg Bool.false_ne_true]
              exact hunderscore
      | cons d more =>
          have hd := hdigits d (List.mem_cons_of_mem _ List.mem_cons_self)
          have hread :=
            ih (fun c hc => hdigits c (List.mem_cons_of_mem _ hc)) (List.cons_ne_nil _ _)
          rw [List.cons_append] at hread
          simp [digits?, hc, hd, ne_underscore hd, hread]

theorem ofDigits_eq {digits : List Char} (hdigits : ∀ c ∈ digits, c.isDigit) :
    ofDigits 10 digits = Nat.ofDigitChars 10 digits 0 := by
  have hfold : ∀ n, digits.foldl (fun n c =>
      n * 10 + if c.isDigit then c.toNat - '0'.toNat else c.toLower.toNat - 'a'.toNat + 10) n =
        Nat.ofDigitChars 10 digits n := by
    -- the two differ only in the order of a product
    induction digits with
    | nil => exact fun n => rfl
    | cons c digits ih =>
        intro n
        rw [List.foldl_cons, if_pos (hdigits c List.mem_cons_self), Nat.mul_comm n]
        exact ih (fun c hc => hdigits c (List.mem_cons_of_mem _ hc)) _
  exact hfold 0

/-- The digits in front of a point are read up to the point. -/
theorem whole?_leading {whole : List Char} (h : Leading whole) (rest : List Char) :
    whole? (whole ++ '.' :: rest) = some (whole, '.' :: rest) := by
  obtain ⟨hdigits, hne, hzero⟩ := h
  have hdot : ∀ c ∈ ('.' :: rest).head?, c.isDigit = false ∧ c ≠ '_' := by
    rintro c ⟨⟩
    exact ⟨rfl, by decide⟩
  cases whole with
  | nil => exact absurd rfl hne
  | cons c digits =>
      by_cases hc : c = '0'
      · subst hc
        obtain rfl : digits = [] := (List.cons.inj (hzero rfl)).2
        rfl
      · rw [whole?]
        · exact digits?_append hdigits hne hdot
        · intro rest' heq
          exact hc (List.cons.inj heq).1

/-- What stands behind a sign is left when the sign is read. -/
theorem sign_signed {c : Char} (hc : c.isDigit) (negative : Bool) (text : List Char) :
    sign (Double.signed negative (c :: text)) = (negative, c :: text) := by
  cases negative with
  | true => rfl
  | false =>
      show sign (c :: text) = _
      rw [sign]
      · rintro rest heq
        rw [(List.cons.inj heq).1] at hc
        exact absurd hc (by decide)
      · rintro rest heq
        rw [(List.cons.inj heq).1] at hc
        exact absurd hc (by decide)

theorem decimal?_pointed {x : Float} {whole fraction : List Char} {n : ℕ} {k : ℤ} (negative : Bool)
    (h : Decimal.Pointed whole fraction n k) (hx : Double.ofDecimal negative n k = x)
    (hfinite : x.isFinite) (rest : List Char) :
    decimal? (Double.signed negative (whole ++ '.' :: (fraction ++ '\n' :: rest))) =
      some (.number x, '\n' :: rest) := by
  have hall : ∀ c ∈ whole ++ fraction, c.isDigit := fun c hc =>
    (List.mem_append.mp hc).elim (h.leading.isDigit c) (h.isDigit c)
  have hnumber : number? negative (whole ++ fraction) (-fraction.length) = some (.number x) := by
    unfold number?
    dsimp only
    rw [ofDigits_eq hall, h.value, h.places, hx, Double.isInf_of_isFinite hfinite]
    rfl
  have hwhole := whole?_leading h.leading (fraction ++ '\n' :: rest)
  have hfraction : digits? Char.isDigit (fraction ++ '\n' :: rest) =
      some (fraction, '\n' :: rest) := by
    refine digits?_append h.isDigit h.ne_nil ?_
    rintro c ⟨⟩
    exact ⟨rfl, by decide⟩
  obtain ⟨hdigits, hne, -⟩ := h.leading
  cases whole with
  | nil => exact absurd rfl hne
  | cons c digits =>
      have hc := hdigits c List.mem_cons_self
      rw [List.cons_append] at hwhole ⊢
      unfold decimal?
      rw [sign_signed hc]
      dsimp only
      split
      · rename_i heq
        rw [(List.cons.inj heq).1] at hc
        exact absurd hc (by decide)
      · rename_i heq
        rw [(List.cons.inj heq).1] at hc
        exact absurd hc (by decide)
      · rw [hwhole]
        simp only [Option.bind_eq_bind, Option.bind_some, hfraction, hnumber]
        rfl

/-! ## Numbers among other things that begin with a digit -/

theorem beginsWith_succ (count : ℕ) (separator c : Char) (s : List Char) :
    beginsWith (count + 1) separator (c :: s) = (c.isDigit && beginsWith count separator s) := by
  unfold beginsWith
  rw [List.take_succ_cons, List.drop_succ_cons, List.length_cons, List.all_cons]
  cases hc : c.isDigit with
  | true => simp
  | false => simp

/-- What shows a point behind its first digits is no date and no time of day. -/
theorem beginsWith_pointed {whole : List Char} (hwhole : ∀ c ∈ whole, c.isDigit) {separator : Char}
    (hdigit : separator.isDigit = false) (hdot : separator ≠ '.') (count : ℕ) (more : List Char) :
    beginsWith count separator (whole ++ '.' :: more) = false := by
  induction whole generalizing count with
  | nil =>
      cases count with
      | zero => simp [beginsWith, hdot.symm]
      | succ count => exact beginsWith_succ count separator '.' more
  | cons c whole ih =>
      have hc := hwhole c List.mem_cons_self
      cases count with
      | zero =>
          have hne : c ≠ separator := by
            rintro rfl
            rw [hc] at hdigit
            cases hdigit
          simp [beginsWith, hne]
      | succ count =>
          rw [List.cons_append, beginsWith_succ, hc,
            ih fun c hc => hwhole c (List.mem_cons_of_mem _ hc)]
          rfl

/-- Behind a zero that begins a number stands its point. -/
theorem pointed_ne_based {whole : List Char} (hwhole : Leading whole) {c : Char} (hc : c ≠ '.')
    (more rest : List Char) : whole ++ '.' :: more ≠ '0' :: c :: rest := by
  obtain ⟨-, hne, hzero⟩ := hwhole
  intro heq
  cases whole with
  | nil => exact hne rfl
  | cons d digits =>
      obtain ⟨rfl, htail⟩ := List.cons.inj heq
      obtain rfl : digits = [] := (List.cons.inj (hzero rfl)).2
      exact hc (List.cons.inj htail).1.symm

/-- A number that shows a point is read as one. -/
theorem read?_pointed {whole : List Char} (negative : Bool) (hwhole : Leading whole)
    (more : List Char) :
    read? (Double.signed negative (whole ++ '.' :: more)) =
      decimal? (Double.signed negative (whole ++ '.' :: more)) := by
  have hmoment : ∀ count separator, separator.isDigit = false → separator ≠ '.' →
      beginsWith (count + 1) separator (Double.signed negative (whole ++ '.' :: more)) = false := by
    intro count separator hdigit hdot
    cases negative with
    | true => exact beginsWith_succ count separator '-' _
    | false => exact beginsWith_pointed hwhole.isDigit hdigit hdot (count + 1) more
  have hbased : ∀ c rest, c ≠ '.' →
      Double.signed negative (whole ++ '.' :: more) ≠ '0' :: c :: rest := by
    intro c rest hc
    cases negative with
    | true => exact fun heq => absurd (List.cons.inj heq).1 (by decide)
    | false => exact pointed_ne_based hwhole hc more rest
  -- neither a moment nor a number in another base shows a point there
  unfold read?
  rw [hmoment 3 '-' rfl (by decide), hmoment 1 ':' rfl (by decide), if_neg Bool.false_ne_true,
    if_neg Bool.false_ne_true]
  split
  · rename_i heq
    exact absurd heq (hbased _ _ (by decide))
  · rename_i heq
    exact absurd heq (hbased _ _ (by decide))
  · rename_i heq
    exact absurd heq (hbased _ _ (by decide))
  · rfl

/-- **A written number is read back.** -/
theorem read?_writeNumber {x : Float} (hfinite : x.isFinite) (rest : List Char) :
    read? (writeNumber x ++ '\n' :: rest) = some (.number x, '\n' :: rest) := by
  obtain ⟨negative, m, e, hview, -⟩ := Double.view_finite hfinite
  obtain ⟨whole, fraction, n, k, htext, hpointed, hx⟩ := Double.exists_pointed hview
  have hwritten : writeNumber x ++ '\n' :: rest =
      Double.signed negative (whole ++ '.' :: (fraction ++ '\n' :: rest)) := by
    rw [writeNumber, htext]
    cases negative with
    | true => simp [Double.signed]
    | false => simp [Double.signed]
  rw [hwritten, read?_pointed negative hpointed.leading]
  exact decimal?_pointed negative hpointed hx hfinite rest

end Toml.Literal

end Milling
