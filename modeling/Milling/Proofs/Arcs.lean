import Milling.Proofs.Measures
import Milling.Proofs.Winding

/-!
# Arcs that a controller can follow

An arc is written with its centre, as seen from where it begins. Where both offsets are
shown as zero there is no circle left to follow.

The planner accepts a circle if its radius, made larger by that of the tool, is above zero,
but not all of such a radius need arrive in the program. The arc begins at the sum of the
centre and the radius, which beside a large coordinate may be the centre again, and what
is at most half a thousandth is not shown. The other offset never helps, since the arc
begins at the height of its centre.
-/

namespace Milling

open Text (Denotes splitLines)

/-! ## Numbers that are shown as something -/

namespace Double

/-- More than half a unit is not shown as zero, on either side of it. -/
theorem shown_ne_zero_iff {x : Float} (places : ℕ) (h : x.isFinite) :
    shown places x ≠ 0 ↔ 1 / (2 * 10 ^ places) < |value x| := by
  have hopposite := shown_pos_iff places (isFinite_neg h)
  rw [shown_neg places h, value_neg h, neg_pos] at hopposite
  rw [← lt_or_lt_iff_ne, hopposite, shown_pos_iff places h, lt_abs, or_comm]

end Double

theorem denotes_coordinateText_iff {P : ℚ → Prop} {x : Float} :
    Denotes P (coordinateText x).toList ↔ x.isFinite ∧ P (Double.shown 3 x) := by
  cases hfinite : x.isFinite with
  | true =>
      rw [Denotes, value?_coordinateText hfinite]
      simp
  | false =>
      rw [Denotes, Text.value?, isDecimal_coordinateText, hfinite]
      simp

theorem denotes_ne_zero_iff {x : Float} :
    Denotes (· ≠ 0) (coordinateText x).toList ↔ x.isFinite ∧ 1 / 2000 < |Double.value x| := by
  rw [denotes_coordinateText_iff]
  refine and_congr_right fun hfinite => ?_
  rw [Double.shown_ne_zero_iff 3 hfinite]
  norm_num

/-! ## The arcs of a program -/

namespace Contour

open Outcome (ok_of_bind)

variable {radius : Float}

/-- Nothing but a circle is cut along an arc. -/
theorem line_of_ofShape {shape : Shape Float} {paths : List (Path Float)}
    (h : ofShape radius shape = .ok paths) (hkind : shape.kind ≠ .circle) :
    ∀ path ∈ paths, ∀ move ∈ path.moves, ∃ target, move = .line target := by
  cases shape with
  | rectangle corner width height =>
      obtain ⟨path, hpath, h⟩ := ok_of_bind h
      obtain rfl := Except.ok.inj h
      obtain rfl := eq_of_rectangle hpath
      simp
  | circle center shapeRadius => exact absurd rfl hkind
  | text origin content size =>
      obtain rfl := eq_of_lettering h
      intro path hpath move hmove
      obtain ⟨stroke, -, hof⟩ := List.mem_filterMap.mp hpath
      cases stroke with
      | nil => cases hof
      | cons first rest =>
          obtain rfl := Option.some.inj hof
          obtain ⟨target, -, rfl⟩ := List.mem_map.mp hmove
          exact ⟨target, rfl⟩

/-- How far to the right the centre of a circle lies, as computed from where its arc begins. -/
def offset (radius : Float) (center : Point Float) (shapeRadius : Float) : Float :=
  center.x - (center.x + (shapeRadius + radius))

end Contour

namespace Program

open Controller (code? words)

variable {m : Machine} {d : Drawing}

/-- The line of a clockwise arc is known by its first word. -/
theorem arc_of_code {i : Instruction} (h : code? i.text.toList = some ['G', '0', '2']) :
    ∃ target offset feed, i = .cutArc .clockwise target offset feed := by
  cases i with
  | absolute => exact absurd h (by decide)
  | millimetres => exact absurd h (by decide)
  | surfacePlane => exact absurd h (by decide)
  | spindleStop => exact absurd h (by decide)
  | programEnd => exact absurd h (by decide)
  | raise height => simp [code?, words_raise] at h
  | travel target => simp [code?, words_travel] at h
  | plunge height feed => simp [code?, words_plunge] at h
  | cutLine target feed => simp [code?, words_cutLine] at h
  | retract height => simp [code?, words_retract] at h
  | cutArc turn target offset feed =>
      cases turn with
      | clockwise => exact ⟨target, offset, feed, rfl⟩
      | counterclockwise => simp [code?, words_cutArc, Turn.code] at h

/-- An arc among the instructions of a path is one of its moves. -/
theorem exists_step_of_arc {path : Path Float} {turn : Turn} {target offset : Point Float}
    {feed : Float} (h : .cutArc turn target offset feed ∈ ofPath m path) :
    ∃ step ∈ path.steps, cut m step.1 step.2 = .cutArc turn target offset feed := by
  rcases List.mem_append.mp h with h | h
  · rcases List.mem_cons.mp h with h | h
    · cases h
    rcases List.mem_cons.mp h with h | h
    · cases h
    · obtain ⟨step, hstep, hcut⟩ := List.mem_map.mp h
      exact ⟨step, hstep, hcut⟩
  · cases List.mem_singleton.mp h

/-- The arcs of a program are those around the circles that the planner accepts. -/
theorem arc_mem_iff {turn : Turn} {target offset : Point Float} {feed : Float} :
    .cutArc turn target offset feed ∈
        (ofPlans m (d.items.map (Plan.ofItem m.toolRadius))).filterMap instruction? ↔
      ∃ item ∈ d.items, ∃ center radius path, item.shape = .circle center radius ∧
        Contour.circle m.toolRadius center radius = .ok path ∧
        .cutArc turn target offset feed =
          cut m path.start (.arc path.start center .clockwise) := by
  rw [mem_instructions]
  constructor
  · rintro (h | ⟨plan, hplan, path, hpath, h⟩ | h)
    · simp at h
    · obtain ⟨item, hitem, paths, hpaths, hpath⟩ := mem_paths.mp ⟨plan, hplan, hpath⟩
      obtain ⟨step, hstep, hcut⟩ := exists_step_of_arc h
      have hkind : item.shape.kind = .circle := by
        by_contra hkind
        obtain ⟨target, hline⟩ :=
          Contour.line_of_ofShape hpaths hkind path hpath step.2 (List.of_mem_zip hstep).2
        rw [hline] at hcut
        cases hcut
      cases hshape : item.shape with
      | rectangle corner width height => simp [hshape, Shape.kind] at hkind
      | text origin content size => simp [hshape, Shape.kind] at hkind
      | circle center radius =>
          rw [hshape] at hpaths
          obtain ⟨circled, hcircle, hpaths⟩ := Outcome.ok_of_bind hpaths
          obtain rfl := Except.ok.inj hpaths
          obtain rfl := List.mem_singleton.mp hpath
          obtain rfl := Contour.eq_of_circle hcircle
          obtain rfl := List.mem_singleton.mp hstep
          exact ⟨item, hitem, center, radius, _, hshape, hcircle, hcut.symm⟩
    · simp at h
  · rintro ⟨item, hitem, center, radius, path, hshape, hcircle, hcut⟩
    have hpaths : Contour.ofShape m.toolRadius item.shape = .ok [path] := by
      rw [hshape, Contour.ofShape, hcircle]
      rfl
    obtain ⟨plan, hplan, hpath⟩ :=
      mem_paths.mpr ⟨item, hitem, _, hpaths, List.mem_singleton_self path⟩
    refine .inr (.inl ⟨plan, hplan, path, hpath, ?_⟩)
    obtain rfl := Contour.eq_of_circle hcircle
    rw [hcut]
    simp [ofPath, Path.steps]

/-- What the offsets of the arc around an accepted circle denote. -/
theorem denotes_arc_iff {center : Point Float} {radius : Float} {path : Path Float}
    (h : Contour.circle m.toolRadius center radius = .ok path) :
    (∃ letter ∈ ['I', 'J'], ∃ number,
        letter :: number ∈
          words (cut m path.start (.arc path.start center .clockwise)).text.toList ∧
        Denotes (· ≠ 0) number) ↔
      (Contour.offset m.toolRadius center radius).isFinite ∧
        1 / 2000 < |Double.value (Contour.offset m.toolRadius center radius)| := by
  obtain ⟨⟨-, hy⟩, rfl⟩ := Contour.of_circle h
  -- the arc begins at the height of its centre
  have hlevel : ¬Denotes (· ≠ 0) (coordinateText (center.y - center.y)).toList := by
    have hzero : Text.value? "0.000".toList = some 0 := by decide +kernel
    rw [coordinateText_of_isZero (Double.isZero_sub_self hy), Denotes, hzero]
    simp
  rw [← denotes_ne_zero_iff, cut, words_cutArc]
  constructor
  · rintro ⟨letter, hletter, number, hword, hdenotes⟩
    simp only [List.mem_cons, List.not_mem_nil, or_false] at hletter hword
    rcases hletter with rfl | rfl
    · have hnumber : number = (coordinateText
          (Contour.offset m.toolRadius center radius)).toList := by
        simpa [Turn.code, Contour.offset] using hword
      exact hnumber ▸ hdenotes
    · have hnumber : number = (coordinateText (center.y - center.y)).toList := by
        simpa [Turn.code] using hword
      exact absurd (hnumber ▸ hdenotes) hlevel
  · intro hdenotes
    exact ⟨'I', by simp, _, by simp [Contour.offset], hdenotes⟩

/--
**An arc can be followed exactly where its circle is left in the numbers.** Every clockwise
arc of a program has an offset that denotes more or less than zero if and only if, for each
circle that the planner accepts, its centre is apart from where its arc begins, as
computed, by a finite number of more than half a thousandth.
-/
theorem compile_arcs (m : Machine) (d : Drawing) :
    (∀ line ∈ splitLines (compile m d).toList, code? line = some ['G', '0', '2'] →
      ∃ letter ∈ ['I', 'J'], ∃ number, letter :: number ∈ words line ∧ Denotes (· ≠ 0) number) ↔
    ∀ item ∈ d.items, ∀ center radius, item.shape = .circle center radius →
      (Contour.circle m.toolRadius center radius).isOk →
      (Contour.offset m.toolRadius center radius).isFinite ∧
        1 / 2000 < |Double.value (Contour.offset m.toolRadius center radius)| := by
  constructor
  · intro h item hitem center radius hshape haccepted
    obtain ⟨path, hcircle⟩ : ∃ path, Contour.circle m.toolRadius center radius = .ok path := by
      cases hcircle : Contour.circle m.toolRadius center radius with
      | ok path => exact ⟨path, rfl⟩
      | error fault =>
          rw [hcircle] at haccepted
          cases haccepted
    have harc := arc_mem_iff.mpr ⟨item, hitem, center, radius, path, hshape, hcircle, rfl⟩
    have hline := mem_lines_compile.mpr ⟨_, harc, rfl⟩
    refine (denotes_arc_iff hcircle).mp (h _ (List.mem_of_mem_filter hline) ?_)
    rw [code?, cut, words_cutArc]
    rfl
  · intro h line hline hcode
    have hwords : words line ≠ [] := by
      intro hnone
      rw [code?, hnone] at hcode
      cases hcode
    obtain ⟨i, hi, rfl⟩ := exists_instruction_of_words hline hwords
    obtain ⟨target, offset, feed, rfl⟩ := arc_of_code hcode
    obtain ⟨item, hitem, center, radius, path, hshape, hcircle, hcut⟩ := arc_mem_iff.mp hi
    rw [hcut]
    exact (denotes_arc_iff hcircle).mpr
      (h item hitem center radius hshape (by rw [hcircle]; rfl))

/-- A circle so far out that its radius is lost beside its coordinates. -/
def lost : Item Float := ⟨"c", .circle ⟨1e17, 0⟩ 5⟩

/-- The planner accepts it, and neither offset of its arc is shown as anything but zero. -/
theorem compile_arcs_lost :
    Machine.standard.check = .ok () ∧
      ¬ ∀ line ∈ splitLines (compile Machine.standard ⟨[lost]⟩).toList,
        code? line = some ['G', '0', '2'] →
        ∃ letter ∈ ['I', 'J'], ∃ number, letter :: number ∈ words line ∧
          Denotes (· ≠ 0) number := by
  have hcheck : Machine.standard.check = .ok () := by decide +kernel
  have haccepted : (Contour.circle Machine.standard.toolRadius ⟨1e17, 0⟩ 5).isOk := by
    decide +kernel
  have hoffset : Double.value (Contour.offset Machine.standard.toolRadius ⟨1e17, 0⟩ 5) = 0 := by
    decide +kernel
  refine ⟨hcheck, fun h => ?_⟩
  obtain ⟨-, hlarge⟩ :=
    (compile_arcs Machine.standard ⟨[lost]⟩).mp h lost List.mem_cons_self _ _ rfl haccepted
  rw [hoffset, abs_zero] at hlarge
  exact absurd hlarge (by norm_num)

end Program

end Milling
