import Mathlib.Data.List.Forall2
import Milling.Proofs.Contours

/-!
# What is cut of a text

A text is planned character by character. Each position has a block of paths of its own, one
for each stroke of its character, and the plan is these blocks one after the other. Nothing
in a block comes from the characters around it: not where it lies, because every character
moves the cursor on alike, and not how many paths it has, because no stroke of the font is
so short that it would be left out.

So a character can be replaced by another one that looks the same. Small letters look like
capitals, and what the font does not have looks like a blank.
-/

namespace Milling

namespace Lettering

/-- What the table of the font has for a character; small letters share what it has for capitals. -/
def strokes (c : Char) : Glyph := (glyphs.lookup c.toUpper).getD []

/-- A character that the table has no entry for. -/
def Missing (c : Char) : Prop := c.toUpper ∉ glyphs.map Prod.fst

instance (c : Char) : Decidable (Missing c) := inferInstanceAs (Decidable (_ ∉ _))

/-- A blank, or a character that the font does not have. -/
def Blank (c : Char) : Prop := c = ' ' ∨ Missing c

/-- Two characters that look the same. -/
def Alike (c d : Char) : Prop := c.toUpper = d.toUpper ∨ Blank c ∧ Blank d

/-- A stroke of a character is one of its entry in the table. -/
theorem exists_entry_of_mem_strokes {c : Char} {stroke : Stroke} (h : stroke ∈ strokes c) :
    ∃ entry ∈ glyphs, stroke ∈ entry.2 := by
  rw [strokes] at h
  cases hglyph : glyphs.lookup c.toUpper with
  | none =>
      rw [hglyph] at h
      exact absurd h List.not_mem_nil
  | some glyph =>
      rw [hglyph] at h
      obtain ⟨before, after, hsplit, -⟩ := List.lookup_eq_some_iff.mp hglyph
      refine ⟨(c.toUpper, glyph), ?_, h⟩
      rw [hsplit]
      exact List.mem_append_right before List.mem_cons_self

theorem two_le_length_of_mem_strokes {c : Char} {stroke : Stroke} (h : stroke ∈ strokes c) :
    2 ≤ stroke.length := by
  obtain ⟨entry, hentry, hstroke⟩ := exists_entry_of_mem_strokes h
  exact two_le_length_of_mem_glyphs entry hentry stroke hstroke

theorem strokes_of_blank {c : Char} (h : Blank c) : strokes c = [] := by
  rcases h with rfl | h
  · rfl
  · have hnone : glyphs.lookup c.toUpper = none := by
      refine List.lookup_eq_none_iff.mpr fun entry hentry => bne_iff_ne.mpr fun heq => h ?_
      exact heq ▸ List.mem_map_of_mem hentry
    rw [strokes, hnone]
    rfl

theorem Alike.strokes_eq {c d : Char} (h : Alike c d) : strokes c = strokes d := by
  rcases h with h | ⟨hc, hd⟩
  · rw [strokes, strokes, h]
  · rw [strokes_of_blank hc, strokes_of_blank hd]

theorem toUpper_toUpper_ofNat : ∀ n < 123,
    (Char.ofNat n).toUpper.toUpper = (Char.ofNat n).toUpper := by
  decide

/-- A capital has no other capital, and the letters that have one come early. -/
theorem alike_toUpper (c : Char) : Alike c.toUpper c := by
  refine .inl ?_
  by_cases hearly : c.toNat < 123
  · rw [← Char.ofNat_toNat c]
    exact toUpper_toUpper_ofNat _ hearly
  · have hsame : c.toUpper = c := by
      refine dif_neg fun hsmall => hearly ?_
      exact Nat.lt_succ_of_le (show c.toNat ≤ 122 from UInt32.le_iff_toNat_le.mp hsmall.2)
    rw [hsame, hsame]

theorem alike_blank {c : Char} (h : Missing c) : Alike ' ' c := .inr ⟨.inl rfl, .inr h⟩

variable {α : Type} [Scalar α]

/-- Where a point of the grid comes to lie for the character at one position. -/
def spot (origin : Point α) (size : α) (position : ℕ) (grid : ℕ × ℕ) : Point α :=
  let unit := size / Scalar.ofNat capHeight
  ⟨origin.x + Scalar.ofNat position * Scalar.ofNat advance * unit + Scalar.ofNat grid.1 * unit,
    origin.y - Scalar.ofNat grid.2 * unit⟩

/-- The strokes of a character on the work surface, in the order of the table. -/
def drawn (origin : Point α) (size : α) (position : ℕ) (c : Char) : List (List (Point α)) :=
  (strokes c).map fun stroke => stroke.map (spot origin size position)

end Lettering

namespace Contour

open Lettering (Alike Missing alike_blank alike_toUpper drawn layout)

/-- An open path along some points: from the first, by a straight line to each of the others. -/
structure Follows {α : Type} (path : Path α) (points : List (Point α)) : Prop where
  opened : path.closed = false
  start : points.head? = some path.start
  moves : path.moves = points.tail.map .line
  /-- There is another point than the first. -/
  goes : path.moves ≠ []

theorem exists_follows {α : Type} {points : List (Point α)} (h : 2 ≤ points.length) :
    ∃ path, ofStroke? points = some path ∧ Follows path points := by
  match points, h with
  | first :: second :: rest, _ => exact ⟨_, rfl, rfl, rfl, rfl, List.cons_ne_nil _ _⟩

/-- No stroke that goes somewhere is left out, and none is put in. -/
theorem forall₂_follows {α : Type} : ∀ {drawing : List (List (Point α))},
    (∀ points ∈ drawing, 2 ≤ points.length) →
      List.Forall₂ Follows (drawing.filterMap ofStroke?) drawing
  | [], _ => .nil
  | points :: drawing, h => by
      obtain ⟨hpoints, hdrawing⟩ := List.forall_mem_cons.mp h
      obtain ⟨path, hpath, hfollows⟩ := exists_follows hpoints
      rw [List.filterMap_cons_some hpath]
      exact .cons hfollows (forall₂_follows hdrawing)

section Blocks

variable {α : Type} [Scalar α] (origin : Point α) (size : α)

/-- What is cut for the character at one position. -/
def block (position : ℕ) (c : Char) : List (Path α) :=
  (drawn origin size position c).filterMap ofStroke?

/-- What is cut of a text, position by position. -/
def blocks (content : String) : List (List (Path α)) :=
  content.toList.mapIdx (block origin size)

theorem block_follows (position : ℕ) (c : Char) :
    List.Forall₂ Follows (block origin size position c) (drawn origin size position c) := by
  refine forall₂_follows fun points hpoints => ?_
  obtain ⟨stroke, hstroke, rfl⟩ := List.mem_map.mp hpoints
  rw [List.length_map]
  exact Lettering.two_le_length_of_mem_strokes hstroke

theorem block_of_alike (position : ℕ) {c d : Char} (h : Alike c d) :
    block origin size position c = block origin size position d := by
  rw [block, block, drawn, drawn, h.strokes_eq]

/-- The block at a position is that of the character there. -/
theorem getElem?_blocks (content : String) (position : ℕ) :
    (blocks origin size content)[position]? =
      content.toList[position]?.map (block origin size position) :=
  List.getElem?_mapIdx

theorem filterMap_layout (content : String) :
    (layout content origin size).filterMap ofStroke? = (blocks origin size content).flatten := by
  rw [layout, List.filterMap_flatMap, List.flatMap_def, blocks, List.mapIdx_eq_zipIdx_map]
  rfl

end Blocks

theorem mapIdx_of_forall₂ {α β : Type} {R : α → α → Prop} {as bs : List α} {f : ℕ → α → β}
    (h : List.Forall₂ R as bs) (hf : ∀ i a b, R a b → f i a = f i b) :
    as.mapIdx f = bs.mapIdx f := by
  induction h generalizing f with
  | nil => rfl
  | cons hab _ ih =>
      rw [List.mapIdx_cons, List.mapIdx_cons, hf 0 _ _ hab, ih fun i a b => hf (i + 1) a b]

/-- A text with a place and a size is planned, and the tool has no part in it. -/
theorem ofShape_text_eq {origin : Point Float} {size : Float} (hx : origin.x.isFinite)
    (hy : origin.y.isFinite) (hsize : size.isFinite) (hpos : Scalar.zero < size) (radius : Float)
    (content : String) :
    ofShape radius (.text origin content size) = .ok (blocks origin size content).flatten := by
  have hpositive : positive "font size" size = .ok () := by
    rw [positive, finite_eq_ok_iff.mpr hsize]
    exact if_pos hpos
  rw [ofShape, lettering, finite_eq_ok_iff.mpr hx, finite_eq_ok_iff.mpr hy, hpositive]
  exact congrArg Except.ok (filterMap_layout origin size content)

/--
**Text is planned stroke by stroke, position by position.** A text with a finite place and a
finite size above zero is planned for every tool, also for one without a radius, and in the
same way. The plan is one block after the other, one for each character; a block is one open
path along each stroke of its character, in the order of the table. It is the same in two
texts whose characters there look the same, whatever else they say, and two texts that look
the same all along have the same plan.
-/
theorem text_blocks {origin : Point Float} {size : Float} (hx : origin.x.isFinite)
    (hy : origin.y.isFinite) (hsize : size.isFinite) (hpos : Scalar.zero < size) :
    (∀ radius content, ofShape radius (.text origin content size) =
      .ok (blocks origin size content).flatten) ∧
    (∀ content : String, (blocks origin size content).length = content.length) ∧
    (∀ (content : String) (position : ℕ) c, content.toList[position]? = some c →
      ∃ block, (blocks origin size content)[position]? = some block ∧
        List.Forall₂ Follows block (drawn origin size position c)) ∧
    (∀ (content other : String) (position : ℕ) c d, content.toList[position]? = some c →
      other.toList[position]? = some d → Alike c d →
      (blocks origin size content)[position]? = (blocks origin size other)[position]?) ∧
    (∀ c, Alike c.toUpper c) ∧ (∀ c, Missing c → Alike ' ' c) ∧
    ∀ radius radius' (content other : String), List.Forall₂ Alike content.toList other.toList →
      ofShape radius (.text origin content size) = ofShape radius' (.text origin other size) := by
  refine ⟨ofShape_text_eq hx hy hsize hpos, fun content => ?_, fun content position c hc => ?_,
    fun content other position c d hc hd halike => ?_, alike_toUpper, fun c => alike_blank,
    fun radius radius' content other halike => ?_⟩
  · rw [blocks, List.length_mapIdx, String.length_toList]
  · rw [getElem?_blocks, hc]
    exact ⟨_, rfl, block_follows origin size position c⟩
  · rw [getElem?_blocks, getElem?_blocks, hc, hd, Option.map_some, Option.map_some,
      block_of_alike origin size position halike]
  · have hblocks : blocks origin size content = blocks origin size other :=
      mapIdx_of_forall₂ halike fun position _ _ => block_of_alike origin size position
    rw [ofShape_text_eq hx hy hsize hpos, ofShape_text_eq hx hy hsize hpos, hblocks]

/-- Small letters, and a sign that the font does not have, for a tool without a radius. The two
strokes of a letter are there, behind a sign without any. -/
theorem text_blocks_small :
    ofShape Double.nan (.text ⟨-0.5, 1e300⟩ "lét" 5e-324) =
        ofShape 1.5 (.text ⟨-0.5, 1e300⟩ "L T" 5e-324) ∧
      (blocks (⟨-0.5, 1e300⟩ : Point Float) 5e-324 "lét")[2]? =
        (blocks (⟨-0.5, 1e300⟩ : Point Float) 5e-324 "CNT")[2]? ∧
      ∃ first second, (blocks (⟨10, 20⟩ : Point Float) 6 "éa")[1]? = some [first, second] ∧
        Follows first [⟨16, 20⟩, ⟨16, 16⟩, ⟨18, 14⟩, ⟨20, 16⟩, ⟨20, 20⟩] ∧
        Follows second [⟨16, 17⟩, ⟨20, 17⟩] := by
  have hx : (⟨-0.5, 1e300⟩ : Point Float).x.isFinite := by decide +kernel
  have hy : (⟨-0.5, 1e300⟩ : Point Float).y.isFinite := by decide +kernel
  have hsize : (5e-324 : Float).isFinite := by decide +kernel
  have hpos : Scalar.zero < (5e-324 : Float) := by decide +kernel
  obtain ⟨-, -, -, hblocks, -, -, hplans⟩ := text_blocks hx hy hsize hpos
  have hmissing : Alike 'é' ' ' := .inr ⟨.inr (by decide), .inl rfl⟩
  have hl : Alike 'l' 'L' := .inl (by decide)
  have ht : Alike 't' 'T' := .inl (by decide)
  refine ⟨hplans _ _ _ _ (.cons hl (.cons hmissing (.cons ht .nil))),
    hblocks _ _ 2 't' 'T' (by decide) (by decide) ht, ?_⟩
  have hplace : (⟨10, 20⟩ : Point Float).x.isFinite ∧ (⟨10, 20⟩ : Point Float).y.isFinite := by
    decide +kernel
  have hwide : (6 : Float).isFinite ∧ Scalar.zero < (6 : Float) := by decide +kernel
  have hdrawn : drawn (⟨10, 20⟩ : Point Float) 6 1 'a' =
      [[⟨16, 20⟩, ⟨16, 16⟩, ⟨18, 14⟩, ⟨20, 16⟩, ⟨20, 20⟩], [⟨16, 17⟩, ⟨20, 17⟩]] := by
    decide +kernel
  obtain ⟨-, -, hstrokes, -⟩ := text_blocks hplace.1 hplace.2 hwide.1 hwide.2
  obtain ⟨block, hblock, hfollows⟩ := hstrokes "éa" 1 'a' (by decide)
  rw [hdrawn] at hfollows
  cases hfollows with
  | cons hfirst hfollows =>
    cases hfollows with
    | cons hsecond hfollows =>
      cases hfollows
      exact ⟨_, _, hblock, hfirst, hsecond⟩

end Contour

end Milling
