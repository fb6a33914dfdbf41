import Milling.Proofs.Boxes
import Milling.Proofs.Engraving
import Milling.Proofs.Winding

/-!
# Where the letters of a text lie

Every character of a text has a cell, as high as the size of the text and four sixths of it
wide, with two sixths between one cell and the next. What is cut for a character stays in
its cell. The width of a text is computed apart from the places of its letters, from their
number only, and yet it ends where the last cell does; so all that is cut lies in the box
around the text.

All of this is about exact numbers. In doubles a stroke may end one last place further on.
-/

namespace Milling

open Shape (Bounds)

namespace Lettering

/-- **The font keeps to its grid.** -/
theorem grid_of_mem_glyphs : ∀ entry ∈ glyphs, ∀ stroke ∈ entry.2, ∀ grid ∈ stroke,
    grid.1 ≤ glyphWidth ∧ grid.2 ≤ capHeight := by
  decide

theorem grid_of_mem_strokes {c : Char} : ∀ stroke ∈ strokes c, ∀ grid ∈ stroke,
    grid.1 ≤ glyphWidth ∧ grid.2 ≤ capHeight := by
  intro stroke hstroke
  obtain ⟨entry, hentry, hstroke⟩ := exists_entry_of_mem_strokes hstroke
  exact grid_of_mem_glyphs entry hentry stroke hstroke

/-- The cell of the character at a position. -/
def cell (origin : Point ℚ) (size : ℚ) (position : ℕ) : Bounds ℚ where
  minX := origin.x + 6 * position * (size / 6)
  minY := origin.y - size
  maxX := origin.x + (6 * position + 4) * (size / 6)
  maxY := origin.y

/-- The position of the character that each stroke of a text belongs to, stroke by stroke. -/
def positions (content : String) : List ℕ :=
  content.toList.zipIdx.flatMap fun (c, position) => (strokes c).map fun _ => position

section Exact

variable {origin : Point ℚ} {size : ℚ} {content : String} {position : ℕ} {c : Char}

theorem spot_eq (origin : Point ℚ) (size : ℚ) (position : ℕ) (grid : ℕ × ℕ) :
    spot origin size position grid =
      ⟨origin.x + position * 6 * (size / 6) + grid.1 * (size / 6),
        origin.y - grid.2 * (size / 6)⟩ := rfl

/-- What is on the grid is in the cell. -/
theorem contains_spot (hsize : 0 < size) {grid : ℕ × ℕ}
    (hgrid : grid.1 ≤ glyphWidth ∧ grid.2 ≤ capHeight) :
    (cell origin size position).Contains (spot origin size position grid) := by
  have hunit : 0 < size / 6 := by linarith
  have hacross : (grid.1 : ℚ) * (size / 6) ≤ 4 * (size / 6) :=
    mul_le_mul_of_nonneg_right (by exact_mod_cast hgrid.1) hunit.le
  have hup : (grid.2 : ℚ) * (size / 6) ≤ 6 * (size / 6) :=
    mul_le_mul_of_nonneg_right (by exact_mod_cast hgrid.2) hunit.le
  have hright : 0 ≤ (grid.1 : ℚ) * (size / 6) := by positivity
  have hdown : 0 ≤ (grid.2 : ℚ) * (size / 6) := by positivity
  rw [spot_eq]
  refine ⟨?_, ?_, ?_, ?_⟩
  · show origin.x + 6 * position * (size / 6) ≤ _
    linarith
  · show _ ≤ origin.x + (6 * position + 4) * (size / 6)
    linarith
  · show origin.y - size ≤ _
    linarith
  · show _ ≤ origin.y
    linarith

theorem contains_of_mem_drawn (hsize : 0 < size) :
    ∀ stroke ∈ drawn origin size position c, ∀ p ∈ stroke,
      (cell origin size position).Contains p := by
  intro stroke hstroke p hp
  obtain ⟨grids, hgrids, rfl⟩ := List.mem_map.mp hstroke
  obtain ⟨grid, hgrid, rfl⟩ := List.mem_map.mp hp
  exact contains_spot hsize (grid_of_mem_strokes grids hgrids grid hgrid)

/-- One cell ends before the next begins. -/
theorem cell_lt_cell (origin : Point ℚ) (hsize : 0 < size) {i j : ℕ} (h : i < j) :
    (cell origin size i).maxX < (cell origin size j).minX := by
  have hunit : 0 < size / 6 := by linarith
  have hnext : (6 : ℚ) * i + 4 < 6 * j := by
    have : ((i + 1 : ℕ) : ℚ) ≤ j := by exact_mod_cast h
    push_cast at this
    linarith
  have := mul_lt_mul_of_pos_right hnext hunit
  show origin.x + (6 * i + 4) * (size / 6) < origin.x + 6 * j * (size / 6)
  linarith

/-- A text is as wide as from the first cell to the last. -/
theorem width_eq (hsize : 0 < size) {last : ℕ} (h : content.length = last + 1) :
    width content size = (6 * last + 4) * (size / 6) := by
  have hgreater : Scalar.greater (Scalar.ofNat 0) size = size := if_pos hsize
  rw [width, h]
  dsimp only
  rw [hgreater]
  show ((last : ℚ) * 6 + 4) * (size / 6) = _
  ring

theorem length_of_getElem? (h : content.toList[position]? = some c) :
    ∃ last, content.length = last + 1 ∧ position ≤ last := by
  obtain ⟨hlt, -⟩ := List.getElem?_eq_some_iff.mp h
  rw [String.length_toList] at hlt
  exact ⟨content.length - 1, by omega, by omega⟩

/-- The cell of a character lies in the box around its text. -/
theorem contains_of_cell (hsize : 0 < size) (h : content.toList[position]? = some c)
    {p : Point ℚ} (hp : (cell origin size position).Contains p) :
    (Shape.bounds (.text origin content size)).Contains p := by
  have hunit : 0 < size / 6 := by linarith
  obtain ⟨last, hlength, hle⟩ := length_of_getElem? h
  have hlast : (6 * (position : ℚ) + 4) * (size / 6) ≤ (6 * last + 4) * (size / 6) := by
    have : (position : ℚ) ≤ last := by exact_mod_cast hle
    exact mul_le_mul_of_nonneg_right (by linarith) hunit.le
  have hfirst : 0 ≤ 6 * (position : ℚ) * (size / 6) := by positivity
  obtain ⟨hminX, hmaxX, hminY, hmaxY⟩ := hp
  have hminX : origin.x + 6 * position * (size / 6) ≤ p.x := hminX
  have hmaxX : p.x ≤ origin.x + (6 * position + 4) * (size / 6) := hmaxX
  refine ⟨?_, ?_, hminY, hmaxY⟩
  · show origin.x ≤ p.x
    linarith
  · show p.x ≤ origin.x + width content size
    rw [width_eq hsize hlength]
    linarith

/-! ## Stroke by stroke -/

theorem pairwise_positions (content : String) : (positions content).Pairwise (· ≤ ·) := by
  have hpairs : content.toList.zipIdx.Pairwise fun a b => a.2 < b.2 := by
    rw [← List.pairwise_map (f := Prod.snd), List.zipIdx_map_snd]
    exact List.pairwise_lt_range'
  rw [positions, List.pairwise_flatMap]
  refine ⟨fun entry _ => ?_, hpairs.imp fun {a b} hlt i hi j hj => ?_⟩
  · rw [List.pairwise_map]
    exact List.pairwise_of_forall fun _ _ => le_refl _
  · obtain ⟨_, _, rfl⟩ := List.mem_map.mp hi
    obtain ⟨_, _, rfl⟩ := List.mem_map.mp hj
    exact hlt.le

/-- Each stroke of a text is one of the character at its position. -/
theorem forall₂_positions (content : String) (origin : Point ℚ) (size : ℚ) :
    List.Forall₂ (fun position stroke => ∃ c, content.toList[position]? = some c ∧
      stroke ∈ drawn origin size position c) (positions content) (layout content origin size) := by
  have hsame : List.Forall₂ (fun a b => a = b ∧ a ∈ content.toList.zipIdx)
      content.toList.zipIdx content.toList.zipIdx :=
    List.forall₂_same.mpr fun entry hentry => ⟨rfl, hentry⟩
  refine List.rel_flatMap hsame ?_
  intro entry _ h
  obtain ⟨c, position⟩ := entry
  obtain ⟨rfl, hentry⟩ := h
  have hc := List.mem_zipIdx_iff_getElem?.mp hentry
  refine List.forall₂_map_left_iff.mpr (List.forall₂_map_right_iff.mpr
    (List.forall₂_same.mpr fun stroke hstroke => ⟨c, hc, ?_⟩))
  exact List.mem_map_of_mem hstroke

/-- A stroke that comes out before another: to the left of it, or in the same cell. -/
def Precedes (origin : Point ℚ) (size : ℚ) (earlier later : List (Point ℚ)) : Prop :=
  (∀ p ∈ earlier, ∀ q ∈ later, p.x < q.x) ∨
    ∃ position, ∀ p ∈ earlier ++ later, (cell origin size position).Contains p

theorem exists_of_forall₂ {α β : Type} {R : α → β → Prop} {as : List α} {bs : List β}
    (h : List.Forall₂ R as bs) {b : β} (hb : b ∈ bs) : ∃ a ∈ as, R a b := by
  induction h with
  | nil => exact absurd hb List.not_mem_nil
  | cons hfirst _ ih =>
      rcases List.mem_cons.mp hb with rfl | hb
      · exact ⟨_, List.mem_cons_self, hfirst⟩
      · obtain ⟨a, ha, hab⟩ := ih hb
        exact ⟨a, List.mem_cons_of_mem _ ha, hab⟩

/-- What stands in order on one side does so, through its partners, on the other. -/
theorem pairwise_of_forall₂ {α β : Type} {R : α → β → Prop} {S : α → α → Prop} {as : List α}
    {bs : List β} (h : List.Forall₂ R as bs) (hpairs : as.Pairwise S) :
    bs.Pairwise fun b b' => ∃ a a', R a b ∧ R a' b' ∧ S a a' := by
  induction h with
  | nil => exact .nil
  | cons hab hrest ih =>
      obtain ⟨hhead, htail⟩ := List.pairwise_cons.mp hpairs
      refine List.pairwise_cons.mpr ⟨fun b' hb' => ?_, ih htail⟩
      obtain ⟨a', ha', hab'⟩ := exists_of_forall₂ hrest hb'
      exact ⟨_, a', hab, hab', hhead a' ha'⟩

theorem pairwise_precedes (content : String) (origin : Point ℚ) (hsize : 0 < size) :
    (layout content origin size).Pairwise (Precedes origin size) := by
  refine (pairwise_of_forall₂ (forall₂_positions content origin size)
    (pairwise_positions content)).imp ?_
  intro earlier later h
  obtain ⟨i, j, ⟨c, -, hearlier⟩, ⟨d, -, hlater⟩, hle⟩ := h
  have hi := contains_of_mem_drawn hsize earlier hearlier
  have hj := contains_of_mem_drawn hsize later hlater
  rcases hle.eq_or_lt with rfl | hlt
  · refine .inr ⟨i, fun p hp => ?_⟩
    rcases List.mem_append.mp hp with hp | hp
    · exact hi p hp
    · exact hj p hp
  · refine .inl fun p hp q hq => ?_
    calc p.x ≤ (cell origin size i).maxX := (hi p hp).le_maxX
      _ < (cell origin size j).minX := cell_lt_cell origin hsize hlt
      _ ≤ q.x := (hj q hq).minX_le

theorem contains_of_mem_layout (hsize : 0 < size) :
    ∀ stroke ∈ layout content origin size, ∀ p ∈ stroke,
      (Shape.bounds (.text origin content size)).Contains p := by
  intro stroke hstroke p hp
  obtain ⟨⟨c, position⟩, hentry, hstroke⟩ := List.mem_flatMap.mp hstroke
  exact contains_of_cell hsize (List.mem_zipIdx_iff_getElem?.mp hentry)
    (contains_of_mem_drawn hsize stroke hstroke p hp)

/-- A path along a stroke goes through its points. -/
theorem points_of_ofStroke? {stroke : List (Point ℚ)} {path : Path ℚ}
    (h : Contour.ofStroke? stroke = some path) : path.points = stroke := by
  cases stroke with
  | nil => cases h
  | cons first rest =>
      obtain rfl := Option.some.inj h
      show first :: (rest.map Move.line).map Move.target = first :: rest
      rw [List.map_map]
      exact congrArg (first :: ·) (List.map_id rest)

end Exact

/--
**Engraved text stays in its cells and in its box.** In exact numbers and for a size above
zero, each stroke of a text is one of the character at its position and lies in the cell of
that position, which ends before the next cell begins. The strokes come out from left to
right, position by position, and all that is cut lies in the box around the text.
-/
theorem layout_cells (content : String) (origin : Point ℚ) {size : ℚ} (hsize : 0 < size) :
    List.Forall₂ (fun position stroke =>
        (∃ c, content.toList[position]? = some c ∧ stroke ∈ drawn origin size position c) ∧
        ∀ p ∈ stroke, (cell origin size position).Contains p)
      (positions content) (layout content origin size) ∧
    (positions content).Pairwise (· ≤ ·) ∧
    (∀ i j, i < j → (cell origin size i).maxX < (cell origin size j).minX) ∧
    (layout content origin size).Pairwise (Precedes origin size) ∧
    (∀ stroke ∈ layout content origin size, ∀ p ∈ stroke,
      (Shape.bounds (.text origin content size)).Contains p) ∧
    ∀ radius paths, Contour.ofShape radius (.text origin content size) = .ok paths →
      ∀ path ∈ paths, ∀ p ∈ path.points,
        (Shape.bounds (.text origin content size)).Contains p := by
  refine ⟨?_, pairwise_positions content, fun i j => cell_lt_cell origin hsize,
    pairwise_precedes content origin hsize, contains_of_mem_layout hsize,
    fun radius paths hpaths path hpath => ?_⟩
  · refine (forall₂_positions content origin size).imp ?_
    intro position stroke h
    obtain ⟨c, hc, hstroke⟩ := h
    exact ⟨⟨c, hc, hstroke⟩, contains_of_mem_drawn hsize stroke hstroke⟩
  · obtain rfl := Contour.eq_of_lettering hpaths
    obtain ⟨stroke, hstroke, hof⟩ := List.mem_filterMap.mp hpath
    rw [points_of_ofStroke? hof]
    exact contains_of_mem_layout hsize stroke hstroke

/-- A text that begins with a sign without a glyph and has a blank in it. -/
theorem layout_cells_gaps :
    positions "é1 b" = [1, 1, 3, 3] ∧
      (layout "é1 b" (⟨1 / 2, -3⟩ : Point ℚ) (7 / 3)).Pairwise (Precedes ⟨1 / 2, -3⟩ (7 / 3)) ∧
      ∀ stroke ∈ layout "é1 b" (⟨1 / 2, -3⟩ : Point ℚ) (7 / 3), ∀ p ∈ stroke,
        (⟨1 / 2, -16 / 3, 163 / 18, -3⟩ : Bounds ℚ).Contains p := by
  have hsize : (0 : ℚ) < 7 / 3 := by norm_num
  have hbox : Shape.bounds (.text (⟨1 / 2, -3⟩ : Point ℚ) "é1 b" (7 / 3)) =
      ⟨1 / 2, -16 / 3, 163 / 18, -3⟩ := by decide +kernel
  obtain ⟨-, -, -, hpairwise, hbounds, -⟩ := layout_cells "é1 b" ⟨1 / 2, -3⟩ hsize
  rw [hbox] at hbounds
  exact ⟨by decide, hpairwise, hbounds⟩

end Lettering

end Milling
