import Milling.Proofs.Arithmetic
import Milling.Proofs.Reload

/-!
# Which saved drawings can be loaded

A drawing can be saved whatever its numbers are, but JSON has no way to write a
number that is not finite, and `null` stands in its place. Where the two
coordinates of a shape are read, `null` is refused with the text itself; where a
size is read, it counts as missing, and the shape is refused for that when all
of the text has been read. So a drawing with such a number never comes back as
another drawing, and the two kinds of refusal come in a fixed order.

A drawing with finite numbers always comes back. That needs an argument, because the
reader does its own arithmetic on the digits and refuses what gets too large: next
to the largest double, digits that denote a double could be carried beyond it.
-/

namespace Milling

open Double (limit magnitude)
open Json.Reader (rereadSpare)
open Outcome (mapM_eq_error)

/-! ## Every number that is written is read -/

/--
Where the limit lies among the powers of ten, and how much room there is below it for what
rounding adds. All of this is about single whole numbers, which only have to be computed.
-/
structure LimitBounds : Prop where
  power : 10 ^ 308 < limit
  nextPower : limit ≤ 10 ^ 309
  /-- Three quarters of the limit, and what rounding makes of it twice. -/
  quarters : 3 * 2 ^ 1022 ≤ limit
  quartersRounded : 3 * 2 ^ 1022 * (2 ^ 53 + 1) ^ 2 ≤ limit * 2 ^ 53 * 2 ^ 53
  /-- What lies halfway below the largest double, and what rounding makes of it. -/
  halfway : (2 ^ 54 - 3) * 2 ^ 970 < limit
  halfwayRounded : (2 ^ 54 - 3) * 2 ^ 970 * (2 ^ 53 + 1) < limit * 2 ^ 53
  halfway_eq : 2 * (2 ^ 54 - 3) * 2 ^ 969 = (2 ^ 54 - 3) * 2 ^ 970
  /-- Its digits: seventeen of them, of which the last may become even, or sixteen. -/
  seventeen : (2 ^ 54 - 3) * 2 ^ 970 < (2 * 8988465674311578 + 1) * 10 ^ 292
  seventeenRounded : 2 * 8988465674311578 * 10 ^ 292 * (2 ^ 53 + 1) < limit * 2 ^ 53
  sixteen : (2 ^ 54 - 3) * 2 ^ 970 < 2 ^ 53 * 10 ^ 293
  grid : 10 ^ 292 < 3 * 2 ^ 969

theorem limitBounds : LimitBounds := by
  constructor <;> decide +kernel

namespace Json

namespace Numeral

/-- Dividing by a power of ten always has a result. -/
theorem exists_scale_of_neg : ∀ (steps : ℕ) (x : Float) {power : ℤ}, power < 0 →
    ∃ y, scale steps x power = some y
  | steps, x, power, h => by
      unfold scale
      by_cases htop : power.natAbs ≤ topPower
      · rw [if_pos htop, if_neg (by omega)]
        exact ⟨_, rfl⟩
      · rw [if_neg htop]
        split
        · exact ⟨_, rfl⟩
        · rw [if_neg (by omega)]
          cases steps with
          | zero => exact ⟨_, rfl⟩
          | succ steps =>
              refine exists_scale_of_neg steps _ ?_
              have : ¬ power.natAbs ≤ 308 := htop
              show power + (308 : ℤ) < 0
              omega

/-- A power of ten that multiplies a whole number below the limit is a double itself. -/
theorem power_le_of_lt {c k : ℕ} (hc : 0 < c) (h : c * 10 ^ k < limit) : k ≤ 308 := by
  have hpower : 10 ^ k < 10 ^ 309 :=
    calc 10 ^ k ≤ c * 10 ^ k := Nat.le_mul_of_pos_left _ hc
      _ < limit := h
      _ ≤ 10 ^ 309 := limitBounds.nextPower
  have hlt := (Nat.pow_lt_pow_iff_right (by decide)).mp hpower
  omega

/-- Multiplying with a power of ten has a result if the two doubles have a product. -/
theorem exists_scale_of_lt_limit (steps : ℕ) {c k : ℕ} (hc : 0 < c) (hlt : c * 10 ^ k < limit)
    (h : magnitude (Double.ofNat c) * magnitude (Double.ofNat (10 ^ k)) < limit) :
    ∃ y, scale steps (Double.ofNat c) k = some y := by
  have hk := power_le_of_lt hc hlt
  have hlimit := Nat.lt_of_le_of_lt (Nat.le_mul_of_pos_right c (Nat.pow_pos (by decide))) hlt
  have hpower : 10 ^ k < limit :=
    (pow_le_pow_right₀ (by decide) hk).trans_lt limitBounds.power
  have hfinite := Double.isFinite_mul (Double.ofNat_spec hc hlimit).1
    (Double.ofNat_spec (Nat.pow_pos (by decide)) hpower).1 h
  have hinf := Double.isInf_of_isFinite hfinite
  unfold scale
  rw [Int.natAbs_natCast, if_pos (show k ≤ topPower from hk), if_pos (Int.natCast_nonneg k)]
  dsimp only
  rw [Nat.pow_eq, hinf]
  exact ⟨_, rfl⟩

end Numeral

end Json

namespace Decimal

open Json.Numeral (power_le_of_lt exists_scale_of_neg exists_scale_of_lt_limit)

variable {m c k : ℕ} {e : ℤ}

/-- A bound on the significand's double leaves room for the rounding of the power of ten. -/
theorem product_lt_limit {b : ℚ} (hk : k ≤ 308) (hb : magnitude (Double.ofNat c) ≤ b)
    (h : b * 10 ^ k * (2 ^ 53 + 1) < limit * 2 ^ 53) :
    magnitude (Double.ofNat c) * magnitude (Double.ofNat (10 ^ k)) < limit := by
  have hpower := Double.magnitude_ofNat_le (n := 10 ^ k) (Nat.pow_pos (by decide))
    ((pow_le_pow_right₀ (by decide) hk).trans_lt limitBounds.power)
  have hpos := Double.magnitude_nonneg (Double.ofNat (10 ^ k))
  have hle := mul_le_mul_of_nonneg_right hb hpos
  have hbpos := (Double.magnitude_nonneg (Double.ofNat c)).trans hb
  have hproduct := mul_le_mul_of_nonneg_left hpower hbpos
  rw [Nat.cast_pow, Nat.cast_ofNat] at hproduct
  linarith

/-- Below three quarters of the limit, even rounding up twice does not reach it. -/
theorem product_lt_limit_of_low (hc : 0 < c) (h : c * 10 ^ k < 3 * 2 ^ 1022) :
    magnitude (Double.ofNat c) * magnitude (Double.ofNat (10 ^ k)) < limit := by
  have hlt : c * 10 ^ k < limit := h.trans_le limitBounds.quarters
  have hlimit := Nat.lt_of_le_of_lt (Nat.le_mul_of_pos_right c (Nat.pow_pos (by decide))) hlt
  have hroom : c * 10 ^ k * (2 ^ 53 + 1) ^ 2 < limit * 2 ^ 53 * 2 ^ 53 :=
    calc c * 10 ^ k * (2 ^ 53 + 1) ^ 2 < 3 * 2 ^ 1022 * (2 ^ 53 + 1) ^ 2 :=
          Nat.mul_lt_mul_of_pos_right h (by decide)
      _ ≤ limit * 2 ^ 53 * 2 ^ 53 := limitBounds.quartersRounded
  have hroom : (c : ℚ) * 10 ^ k * (2 ^ 53 + 1) ^ 2 < limit * 2 ^ 53 * 2 ^ 53 := by
    exact_mod_cast hroom
  have hsignificand := Double.magnitude_ofNat_le hc hlimit
  refine product_lt_limit (b := (2 ^ 53 + 1) * c / 2 ^ 53) (power_le_of_lt hc hlt) ?_ ?_
  · rw [le_div_iff₀ (by positivity)]
    linarith
  · refine lt_of_mul_lt_mul_right (lt_of_eq_of_lt ?_ hroom) (by positivity)
    field_simp

/-- The shortest decimal of the largest double is the one that comes nearest to the limit. -/
theorem exists_scale_largest : ∃ y,
    Json.Numeral.scale 4 (Double.ofNat (shortest .even (2 ^ 53 - 1) 971).coefficient)
      (shortest .even (2 ^ 53 - 1) 971).exponent = some y := by
  refine Option.isSome_iff_exists.mp ?_
  decide +kernel

/-- The other doubles above half of the largest leave room for one digit to be rounded up. -/
theorem product_lt_limit_of_high (hc : 0 < c) (hgrid : 292 ≤ k)
    (h : c * 10 ^ k ≤ (2 ^ 54 - 3) * 2 ^ 970) :
    magnitude (Double.ofNat c) * magnitude (Double.ofNat (10 ^ k)) < limit := by
  have hk := power_le_of_lt hc (h.trans_lt limitBounds.halfway)
  rcases Nat.eq_or_lt_of_le hgrid with rfl | hlt
  · -- seventeen digits, the last of which may become even
    have hc17 : c ≤ 2 * 8988465674311578 := by
      have hlt : c * 10 ^ 292 < (2 * 8988465674311578 + 1) * 10 ^ 292 :=
        h.trans_lt limitBounds.seventeen
      have hlt := Nat.lt_of_mul_lt_mul_right hlt
      omega
    refine product_lt_limit hk (Double.magnitude_ofNat_le_even hc hc17 (by decide)) ?_
    exact_mod_cast limitBounds.seventeenRounded
  · -- at most sixteen digits, which are not rounded
    have hc16 : c < 2 ^ 53 := by
      have hlt : c * 10 ^ 293 < 2 ^ 53 * 10 ^ 293 :=
        calc c * 10 ^ 293 ≤ c * 10 ^ k := by gcongr; decide; omega
          _ ≤ (2 ^ 54 - 3) * 2 ^ 970 := h
          _ < 2 ^ 53 * 10 ^ 293 := limitBounds.sixteen
      exact Nat.lt_of_mul_lt_mul_right hlt
    have hroom : c * 10 ^ k * (2 ^ 53 + 1) < limit * 2 ^ 53 :=
      calc c * 10 ^ k * (2 ^ 53 + 1) ≤ (2 ^ 54 - 3) * 2 ^ 970 * (2 ^ 53 + 1) :=
            Nat.mul_le_mul_right _ h
        _ < limit * 2 ^ 53 := limitBounds.halfwayRounded
    refine product_lt_limit hk (Double.magnitude_ofNat hc hc16).le ?_
    exact_mod_cast hroom

/-- A double is below half of the limit, or its last place is the highest there is. -/
theorem low_or_high (hm53 : m < 2 ^ 53) (hhigh : e ≤ 971) :
    (m : ℚ) * 2 ^ e < 2 ^ (1023 : ℤ) ∨ 2 ^ 52 ≤ m ∧ e = 971 := by
  have hbelow : ∀ (digits : ℕ) (place : ℤ), m < 2 ^ digits → e ≤ place → digits + place = 1023 →
      (m : ℚ) * 2 ^ e < 2 ^ (1023 : ℤ) := by
    intro digits place hdigits hplace hsum
    have hdigits : (m : ℚ) < 2 ^ digits := by exact_mod_cast hdigits
    calc (m : ℚ) * 2 ^ e ≤ m * 2 ^ place := by gcongr; norm_num
      _ < 2 ^ digits * 2 ^ place := mul_lt_mul_of_pos_right hdigits (by positivity)
      _ = 2 ^ (1023 : ℤ) := by rw [← hsum, zpow_add₀ (by norm_num), zpow_natCast]
  by_cases he : e = 971
  · by_cases hm52 : 2 ^ 52 ≤ m
    · exact .inr ⟨hm52, he⟩
    · exact .inl (hbelow 52 971 (Nat.lt_of_not_le hm52) hhigh rfl)
  · exact .inl (hbelow 53 970 hm53 (by omega) rfl)

/--
**The digits of a finite double are always read**, although the reader works with
doubles itself: the product of the significand and the power of ten is rounded
three times on its way, and still it does not end beyond the largest double.
-/
theorem exists_scale_shortest (hm : 0 < m) (hm53 : m < 2 ^ 53) (hlow : -1074 ≤ e)
    (hhigh : e ≤ 971) :
    ∃ y, Json.Numeral.scale 4 (Double.ofNat (shortest .even m e).coefficient)
      (shortest .even m e).exponent = some y := by
  by_cases hlargest : m = 2 ^ 53 - 1 ∧ e = 971
  · obtain ⟨rfl, rfl⟩ := hlargest
    exact exists_scale_largest
  have hc := shortest_pos .even hm hm53 hlow hhigh
  have hle := shortest_le .even hm hm53 hlow hhigh
  have hgrid := (shortest_walk .even hm hm53 hlow hhigh).2
  generalize shortest .even m e = d at hc hle hgrid ⊢
  rcases Int.lt_or_le d.exponent 0 with hneg | hpos
  · exact exists_scale_of_neg 4 _ hneg
  obtain ⟨k, hk⟩ := Int.eq_ofNat_of_zero_le hpos
  rw [hk, zpow_natCast] at hle
  rw [hk] at hgrid ⊢
  rcases low_or_high hm53 hhigh with hsmall | ⟨hm52, rfl⟩
  · -- the double next above is at most half as much again
    have hlt : d.coefficient * 10 ^ k < 3 * 2 ^ 1022 := by
      have hplace : (2 : ℚ) ^ e = 4 * 2 ^ (e - 2) := by
        rw [zpow_sub₀ (by norm_num)]
        norm_num
        ring
      have hm1 : (1 : ℚ) ≤ m := by exact_mod_cast hm
      have hunit : (0 : ℚ) < 2 ^ (e - 2) := by positivity
      have hhalf : (2 : ℚ) ^ (1023 : ℤ) = 2 * 2 ^ (1022 : ℕ) := by
        rw [show (1023 : ℤ) = ((1022 : ℕ) : ℤ) + 1 from rfl, zpow_add_one₀ (by norm_num),
          zpow_natCast, mul_comm]
      have hmul := mul_le_mul_of_nonneg_right hm1 hunit.le
      rw [hplace, hhalf] at hsmall
      have hlt : (d.coefficient : ℚ) * 10 ^ k < 3 * 2 ^ (1022 : ℕ) := by
        generalize (2 : ℚ) ^ (1022 : ℕ) = half at hsmall ⊢
        linarith
      exact_mod_cast hlt
    exact exists_scale_of_lt_limit 4 hc (hlt.trans_le limitBounds.quarters)
      (product_lt_limit_of_low hc hlt)
  · have hle : d.coefficient * 10 ^ k ≤ (2 ^ 54 - 3) * 2 ^ 970 := by
      have hle : d.coefficient * 10 ^ k ≤ (4 * m + 2) * 2 ^ 969 := by
        rw [show (971 : ℤ) - 2 = (969 : ℕ) from rfl, zpow_natCast] at hle
        exact_mod_cast hle
      calc d.coefficient * 10 ^ k ≤ (4 * m + 2) * 2 ^ 969 := hle
        _ ≤ (2 * (2 ^ 54 - 3)) * 2 ^ 969 := Nat.mul_le_mul_right _ (by omega)
        _ = (2 ^ 54 - 3) * 2 ^ 970 := limitBounds.halfway_eq
    -- a coarser grid than that of seventeen digits was missed, or the first one was hit
    have hk292 : 292 ≤ k := by
      rcases hgrid with htop | hmissed
      · rw [(Nat.log2_eq_iff (Nat.ne_of_gt hm)).mpr ⟨hm52, hm53⟩] at htop
        omega
      · have hmissed : 3 * 2 ^ 969 ≤ 10 ^ (k + 1) := by
          rw [show (971 : ℤ) - 2 = (969 : ℕ) from rfl, zpow_natCast,
            show (k : ℤ) + 1 = (k + 1 : ℕ) from rfl, zpow_natCast] at hmissed
          exact_mod_cast hmissed
        have hlt : 10 ^ 292 < 10 ^ (k + 1) := limitBounds.grid.trans_le hmissed
        have hlt := (Nat.pow_lt_pow_iff_right (by decide)).mp hlt
        omega
    exact exists_scale_of_lt_limit 4 hc (hle.trans_lt limitBounds.halfway)
      (product_lt_limit_of_high hc hk292 hle)

end Decimal

namespace Json

/-- A finite number comes back as some number. -/
theorem exists_reread {x : Float} (h : x.isFinite) : ∃ y, reread x = .ok y := by
  obtain ⟨negative, m, e, hview, hm53, hlow, hhigh⟩ := Double.view_finite h
  have hscale : ∃ y, Numeral.scale 4 (Double.ofNat (Decimal.shortest .even m e).shown.1)
      (Decimal.shortest .even m e).shown.2 = some y := by
    rw [Decimal.shown]
    split
    · exact Numeral.exists_scale_of_neg 4 _ (show (-1 : ℤ) < 0 by decide)
    · rename_i hwhole
      rcases Nat.eq_zero_or_pos m with rfl | hm
      · exact absurd ⟨.inl rfl, rfl⟩ hwhole
      · exact Decimal.exists_scale_shortest hm hm53 hlow hhigh
  obtain ⟨y, hy⟩ := hscale
  rw [reread, hview]
  dsimp only
  rw [hy]
  exact ⟨_, rfl⟩

/-- What is found where a number is wanted and is not one. -/
def nullNumber : Fault := .mismatch (.wrongType .null "f64")

theorem reread_of_not_finite {x : Float} (h : ¬ x.isFinite) : reread x = .error nullNumber := by
  rw [reread]
  rcases Double.view_not_finite h with hview | ⟨negative, hview⟩
  · rw [hview]
    rfl
  · rw [hview]
    rfl

/-- A size is there after reading exactly if it was finite. -/
theorem exists_mapM_rereadSpare (x : Float) :
    ∃ o : Option Float, (some x).mapM rereadSpare = .ok (some o) ∧ o.isSome = x.isFinite := by
  by_cases h : x.isFinite
  · obtain ⟨y, hy⟩ := exists_reread h
    refine ⟨some y, ?_, h.symm⟩
    rw [mapM_rereadSpare h, hy]
    rfl
  · refine ⟨none, ?_, (Bool.eq_false_of_not_eq_true h).symm⟩
    show some <$> rereadSpare x = _
    rw [rereadSpare, if_neg h]
    rfl

end Json

/-! ## What is lost of an item -/

/-- The sizes of a shape in the order of reading, each under its name in a record. -/
def Shape.sizes : Shape Float → List (String × Float)
  | .rectangle _ width height => [("width", width), ("height", height)]
  | .circle _ radius => [("radius", radius)]
  | .text _ _ size => [("fontSize", size)]

/-- Whether a shape is somewhere: its coordinates are numbers. -/
def Shape.Placed (shape : Shape Float) : Prop := shape.origin.x.isFinite ∧ shape.origin.y.isFinite

namespace Item

/-- The complaint about the first size of an item that is not a number. -/
def lost? (item : Item Float) : Option Record.Fault :=
  (item.shape.sizes.find? (!·.2.isFinite)).map fun size =>
    .missing (Record.ofItem item).kind item.id size.1

/-- All of an item but its numbers: its name, its kind and the text to engrave. -/
def outline (item : Item Float) : String × Shape.Kind × Option String :=
  (item.id, item.shape.kind, (Record.ofItem item).text)

/-- The numbers of an item are its coordinates and its sizes. -/
theorem numbers_finite_iff (item : Item Float) :
    (∀ x ∈ item.shape.numbers, x.isFinite) ↔ item.shape.Placed ∧ item.lost? = none := by
  obtain ⟨id, shape⟩ := item
  cases shape <;>
    simp [Shape.numbers, Shape.Placed, Shape.origin, lost?, Shape.sizes, List.find?_eq_none,
      and_assoc]

end Item

namespace Record

/-- Without a place, the text of an item is refused. -/
theorem reread_of_not_placed {item : Item Float} (h : ¬ item.shape.Placed) :
    (ofItem item).reread = .error Json.nullNumber := by
  have hplace : (ofItem item).x = item.shape.origin.x ∧ (ofItem item).y = item.shape.origin.y := by
    obtain ⟨id, shape⟩ := item
    cases shape <;> exact ⟨rfl, rfl⟩
  rw [reread, hplace.1, hplace.2]
  by_cases hx : item.shape.origin.x.isFinite
  · obtain ⟨x, hx'⟩ := Json.exists_reread hx
    rw [hx', Json.reread_of_not_finite fun hy => h ⟨hx, hy⟩]
    rfl
  · rw [Json.reread_of_not_finite hx]
    rfl

/--
With a place, it is read, and the first size that was lost on the way is what the
record is refused for; without a loss it makes an item of the same outline.
-/
theorem reread_of_placed {item : Item Float} (hvalid : Item.validId item.id)
    (h : item.shape.Placed) : ∃ r, (ofItem item).reread = .ok r ∧
      match item.lost? with
      | some fault => r.toItem = .error fault
      | none => ∃ item', r.toItem = .ok item' ∧ item'.outline = item.outline := by
  have hid : item.id ≠ "" ∧ ¬ item.id.toList.any Text.isControl = true := by
    simpa [Item.validId] using hvalid
  obtain ⟨id, shape⟩ := item
  obtain ⟨x, hx⟩ := Json.exists_reread h.1
  obtain ⟨y, hy⟩ := Json.exists_reread h.2
  cases shape with
  | rectangle corner width height =>
      obtain ⟨w, hw, hw'⟩ := Json.exists_mapM_rereadSpare width
      obtain ⟨v, hv, hv'⟩ := Json.exists_mapM_rereadSpare height
      refine ⟨{ id, kind := "RECTANGLE", x, y, width := w, height := v }, ?_, ?_⟩
      · simp only [Shape.origin] at hx hy
        simp only [ofItem, reread, hx, hy, hw, hv]
        rfl
      · rw [Item.lost?, Shape.sizes, List.find?_cons, List.find?_cons, ← hw', ← hv', toItem,
          if_neg hid.1, if_neg hid.2]
        -- the width is asked for first
        cases w with
        | none => rfl
        | some w => cases v with
          | none => rfl
          | some v => exact ⟨_, rfl, rfl⟩
  | circle center radius =>
      obtain ⟨r, hr, hr'⟩ := Json.exists_mapM_rereadSpare radius
      refine ⟨{ id, kind := "CIRCLE", x, y, radius := r }, ?_, ?_⟩
      · simp only [Shape.origin] at hx hy
        simp only [ofItem, reread, hx, hy, hr]
        rfl
      · rw [Item.lost?, Shape.sizes, List.find?_cons, ← hr', toItem, if_neg hid.1, if_neg hid.2]
        cases r with
        | none => rfl
        | some r => exact ⟨_, rfl, rfl⟩
  | text origin content size =>
      obtain ⟨s, hs, hs'⟩ := Json.exists_mapM_rereadSpare size
      refine ⟨{ id, kind := "TEXT", x, y, text := some content, size := s }, ?_, ?_⟩
      · simp only [Shape.origin] at hx hy
        simp only [ofItem, reread, hx, hy, hs]
        rfl
      · rw [Item.lost?, Shape.sizes, List.find?_cons, ← hs', toItem, if_neg hid.1, if_neg hid.2]
        cases s with
        | none => rfl
        | some s => exact ⟨_, rfl, rfl⟩

end Record

namespace Drawing

/-- Where everything has a place, the first loss in the order of the items decides. -/
theorem mapM_reread_of_placed : ∀ {items : List (Item Float)},
    (∀ item ∈ items, Item.validId item.id) → (∀ item ∈ items, item.shape.Placed) →
    ∃ records, items.mapM (fun item => (Record.ofItem item).reread) = .ok records ∧
      match items.findSome? Item.lost? with
      | some fault => records.mapM Record.toItem = .error fault
      | none => ∃ items', records.mapM Record.toItem = .ok items' ∧
          items'.map Item.outline = items.map Item.outline
  | [], _, _ => ⟨[], rfl, [], rfl, rfl⟩
  | item :: items, hvalid, hplaced => by
      obtain ⟨hvalid, hvalids⟩ := List.forall_mem_cons.mp hvalid
      obtain ⟨hplaced, hplaces⟩ := List.forall_mem_cons.mp hplaced
      obtain ⟨r, hr, hitem⟩ := Record.reread_of_placed hvalid hplaced
      obtain ⟨records, hrecords, hitems⟩ := mapM_reread_of_placed hvalids hplaces
      refine ⟨r :: records, by rw [List.mapM_cons, hr, hrecords]; rfl, ?_⟩
      rw [List.findSome?_cons]
      cases hlost : item.lost? with
      | some fault =>
          rw [hlost] at hitem
          dsimp only at hitem ⊢
          rw [List.mapM_cons, hitem]
          rfl
      | none =>
          rw [hlost] at hitem
          obtain ⟨item', hitem, houtline⟩ := hitem
          dsimp only
          cases hlosts : items.findSome? Item.lost? with
          | some fault =>
              rw [hlosts] at hitems
              dsimp only at hitems ⊢
              rw [List.mapM_cons, hitem, hitems]
              rfl
          | none =>
              rw [hlosts] at hitems
              obtain ⟨items', hitems, houtlines⟩ := hitems
              refine ⟨item' :: items', by rw [List.mapM_cons, hitem, hitems]; rfl, ?_⟩
              rw [List.map_cons, List.map_cons, houtline, houtlines]

/-- The numbers of a drawing are finite if everything has a place and no size gets lost. -/
theorem numbers_finite_iff (d : Drawing) :
    (∀ x ∈ d.numbers, x.isFinite) ↔
      (∀ item ∈ d.items, item.shape.Placed) ∧ d.items.findSome? Item.lost? = none := by
  have hitems : (∀ x ∈ d.numbers, x.isFinite) ↔
      ∀ item ∈ d.items, ∀ x ∈ item.shape.numbers, x.isFinite := by
    simp only [numbers, List.mem_flatMap]
    exact ⟨fun h item hitem x hx => h x ⟨item, hitem, hx⟩,
      fun h x ⟨item, hitem, hx⟩ => h item hitem x hx⟩
  rw [hitems, List.findSome?_eq_none_iff]
  simp only [Item.numbers_finite_iff]
  exact ⟨fun h => ⟨fun item hitem => (h item hitem).1, fun item hitem => (h item hitem).2⟩,
    fun h item hitem => ⟨h.1 item hitem, h.2 item hitem⟩⟩

section Outcome

variable (d : Drawing) (hvalid : ∀ item ∈ d.items, Item.validId item.id)

include hvalid

theorem ofJson_toJson_of_not_placed (h : ∃ item ∈ d.items, ¬ item.shape.Placed) :
    ofJson d.toJson = .error (.text Json.nullNumber) := by
  have hrecords : d.items.mapM (fun item => (Record.ofItem item).reread) =
      .error Json.nullNumber := by
    refine mapM_eq_error (fun item hitem => ?_) ?_
    · by_cases hplaced : item.shape.Placed
      · obtain ⟨r, hr, -⟩ := Record.reread_of_placed (hvalid item hitem) hplaced
        exact .inr ⟨r, hr⟩
      · exact .inl (Record.reread_of_not_placed hplaced)
    · obtain ⟨item, hitem, hplaced⟩ := h
      exact ⟨item, hitem, Record.reread_of_not_placed hplaced⟩
  rw [ofJson, run_toJson, hrecords]
  rfl

theorem ofJson_toJson_of_lost (hplaced : ∀ item ∈ d.items, item.shape.Placed) {fault : Record.Fault}
    (h : d.items.findSome? Item.lost? = some fault) : ofJson d.toJson = .error (.record fault) := by
  obtain ⟨records, hrecords, hitems⟩ := mapM_reread_of_placed hvalid hplaced
  rw [h] at hitems
  dsimp only at hitems
  rw [ofJson, run_toJson, hrecords]
  show ofRecords records = _
  rw [ofRecords, hitems]
  rfl

theorem ofJson_toJson_of_finite (hdistinct : d.ids.Nodup) (h : ∀ x ∈ d.numbers, x.isFinite) :
    ∃ d', ofJson d.toJson = .ok d' ∧ d'.items.map Item.outline = d.items.map Item.outline := by
  obtain ⟨hplaced, hlost⟩ := d.numbers_finite_iff.mp h
  obtain ⟨records, hrecords, hitems⟩ := mapM_reread_of_placed hvalid hplaced
  rw [hlost] at hitems
  obtain ⟨items, hitems, houtlines⟩ := hitems
  have hids : items.map Item.id = d.ids := by
    have hnames := congrArg (List.map Prod.fst) houtlines
    rwa [List.map_map, List.map_map] at hnames
  have hvalids : ∀ item ∈ items, Item.validId item.id := by
    intro item hitem
    have hmem : item.id ∈ d.items.map Item.id := by
      rw [← ids, ← hids]
      exact List.mem_map_of_mem hitem
    obtain ⟨old, hold, hid⟩ := List.mem_map.mp hmem
    exact hid ▸ hvalid old hold
  refine ⟨⟨items⟩, ?_, houtlines⟩
  rw [ofJson, run_toJson, hrecords]
  show ofRecords records = _
  rw [ofRecords, hitems]
  show (ofItems items).mapError DocumentFault.drawing = _
  rw [ofItems_eq items hvalids (hids ▸ hdistinct)]
  rfl

end Outcome

/-- Three items of which the second has no radius and the third no size. -/
def hollow : Drawing :=
  ⟨[⟨"a", .text ⟨0, 0⟩ "q\"\\\x07😀" 5⟩, ⟨"b", .circle ⟨1, 1⟩ (1 / 0)⟩,
    ⟨"c", .text ⟨2, 2⟩ "" (0 / 0)⟩]⟩

end Drawing

end Milling
