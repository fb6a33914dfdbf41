import Milling.Proofs.Denotation
import Milling.Proofs.Omissions

/-!
# Closed contours

Around a rectangle the tool follows four sides, around a circle one arc, and both times it
comes back to the point where it went into the work. Both are followed clockwise.

The sides of a rectangle are sums of doubles, which may be rounded, or even lose what is
added beside a large coordinate. This takes nothing from the contour: the corners are put
together from four numbers only, and it is these four, as they came out, that the planner
has compared.

In a program a double is always written in the same way. So what is one number in a
contour is one word in the program, and there too the contour ends where it began.
-/

namespace Milling

open Double (value)

/-! ## Around a rectangle -/

namespace Path

/-- The points that a path leads through, from its start. -/
def points {α : Type} (path : Path α) : List (Point α) := path.start :: path.moves.map Move.target

/-- The shoelace sum over the moves of a path, in exact numbers. For a closed path of lines it
is twice the area within, below zero if that lies on the right hand. -/
def shoelace (path : Path Float) : ℚ :=
  (path.steps.map fun (origin, move) =>
    value origin.x * value move.target.y - value move.target.x * value origin.y).sum

/-- A path ends where it begins. -/
def Returns {α : Type} (path : Path α) : Prop :=
  path.moves.getLast?.map Move.target = some path.start

/-- A move in the direction of the y axis, from a point that it leaves. -/
def Upright (step : Point Float × Move Float) : Prop :=
  step.1.x = step.2.target.x ∧ value step.1.y ≠ value step.2.target.y

/-- A move in the direction of the x axis, from a point that it leaves. -/
def Level (step : Point Float × Move Float) : Prop :=
  step.1.y = step.2.target.y ∧ value step.1.x ≠ value step.2.target.x

/-- Once around a box with sides along the axes, clockwise from its least corner. -/
structure Encloses (path : Path Float) (width height : ℚ) : Prop where
  lines : ∃ p q r s, path.moves = [.line p, .line q, .line r, .line s]
  closed : path.closed = true
  least : ∀ p ∈ path.points, value path.start.x ≤ value p.x ∧ value path.start.y ≤ value p.y
  returns : path.Returns
  sides : ∃ a b c d, path.steps = [a, b, c, d] ∧ Upright a ∧ Level b ∧ Upright c ∧ Level d
  area : path.shoelace = -2 * (width * height)
  clockwise : path.shoelace < 0

end Path

namespace Contour

variable {radius : Float} {corner center : Point Float} {width height shapeRadius : Float}
  {path : Path Float}

/-- **An accepted rectangle is gone round once, clockwise**, if its corners are finite. -/
theorem encloses_of_rectangle (h : rectangle radius corner width height = .ok path)
    (hfinite : ∀ p ∈ path.points, p.x.isFinite ∧ p.y.isFinite) :
    path.Encloses (value (corner.x + width + radius) - value (corner.x - radius))
      (value (corner.y + height + radius) - value (corner.y - radius)) := by
  obtain ⟨⟨hx, hy⟩, rfl⟩ := of_rectangle h
  generalize corner.x - radius = left at *
  generalize corner.y - radius = top at *
  generalize corner.x + width + radius = right at *
  generalize corner.y + height + radius = bottom at *
  have hleast := hfinite ⟨left, top⟩ (by simp [Path.points])
  have hmost := hfinite ⟨right, bottom⟩ (by simp [Path.points, Move.target])
  have hwidth : value left < value right := (Double.lt_iff_value_lt hleast.1 hmost.1).mp hx
  have hheight : value top < value bottom := (Double.lt_iff_value_lt hleast.2 hmost.2).mp hy
  have harea : Path.shoelace ⟨⟨left, top⟩,
      [.line ⟨left, bottom⟩, .line ⟨right, bottom⟩, .line ⟨right, top⟩, .line ⟨left, top⟩], true⟩ =
      -2 * ((value right - value left) * (value bottom - value top)) := by
    simp only [Path.shoelace, Path.steps, Move.target, List.map_cons, List.map_nil,
      List.zip_cons_cons, List.zip_nil_right, List.sum_cons, List.sum_nil]
    ring
  refine ⟨⟨_, _, _, _, rfl⟩, rfl, ?_, rfl,
    ⟨_, _, _, _, rfl, ⟨rfl, hheight.ne⟩, ⟨rfl, hwidth.ne⟩, ⟨rfl, hheight.ne'⟩, rfl, hwidth.ne'⟩,
    harea, ?_⟩
  · simp [Path.points, Move.target, hwidth.le, hheight.le]
  · have hpos := mul_pos (sub_pos.mpr hwidth) (sub_pos.mpr hheight)
    rw [harea]
    linarith

/-- **An accepted circle is gone round once, clockwise**, and the arc ends where it begins. -/
theorem moves_of_circle (h : circle radius center shapeRadius = .ok path) :
    path.moves = [.arc path.start center .clockwise] ∧ path.closed = true := by
  obtain rfl := eq_of_circle h
  exact ⟨rfl, rfl⟩

/-- What is cut of a shape that is no text: one path, which ends where it began. -/
theorem exists_contour {shape : Shape Float} {paths : List (Path Float)}
    (h : ofShape radius shape = .ok paths) (hkind : shape.kind ≠ .text) :
    ∃ path, paths = [path] ∧ path.Returns ∧
      (shape.kind = .rectangle → path.moves.length = 4 ∧
        ∀ step ∈ path.steps, step.1.x = step.2.target.x ∨ step.1.y = step.2.target.y) ∧
      (shape.kind = .circle → path.moves.length = 1) := by
  cases shape with
  | rectangle corner width height =>
      obtain ⟨path, hpath, h⟩ := Outcome.ok_of_bind h
      obtain rfl := Except.ok.inj h
      obtain rfl := eq_of_rectangle hpath
      refine ⟨_, rfl, rfl, fun _ => ⟨rfl, ?_⟩, fun hcircle => ?_⟩
      · simp [Path.steps, Move.target]
      · cases hcircle
  | circle center shapeRadius =>
      obtain ⟨path, hpath, h⟩ := Outcome.ok_of_bind h
      obtain rfl := Except.ok.inj h
      obtain rfl := eq_of_circle hpath
      refine ⟨_, rfl, rfl, fun hrectangle => ?_, fun _ => rfl⟩
      cases hrectangle
  | text origin content size => exact absurd rfl hkind

end Contour

/-! ## In the text of a program -/

namespace Program

open Controller (code? hasWord isCut isPlacing isRapid lift plunge words)
open Text (splitLines)

variable {m : Machine} {d : Drawing} {line : List Char}

/-- The first word of a line that begins with a letter. -/
def word? (letter : Char) (line : List Char) : Option (List Char) :=
  (words line).find? fun word => word.head? = some letter

/-- A line leads to a point: its words for x and y are those of the point. -/
structure Leads (line : List Char) (p : Point Float) : Prop where
  x : word? 'X' line = some ('X' :: (coordinateText p.x).toList)
  y : word? 'Y' line = some ('Y' :: (coordinateText p.y).toList)

/-- Lines that cut a contour end at the place to which a rapid line led. -/
structure Closes (rapid : List Char) (cuts : List (List Char)) : Prop where
  placing : isPlacing rapid = true
  cutting : ∀ cut ∈ cuts, isCut cut = true
  /-- No line leaves out a coordinate. -/
  placed : ∀ line ∈ rapid :: cuts, (word? 'X' line).isSome ∧ (word? 'Y' line).isSome
  x : cuts.getLast?.bind (word? 'X') = word? 'X' rapid
  y : cuts.getLast?.bind (word? 'Y') = word? 'Y' rapid

/-- Two lines have a word for x or for y in common. -/
def Shares (line next : List Char) : Prop :=
  word? 'X' line = word? 'X' next ∨ word? 'Y' line = word? 'Y' next

theorem leads_of_words {p : Point Float} {code : List Char} {rest : List (List Char)}
    (h : words line = code :: ('X' :: (coordinateText p.x).toList) ::
      ('Y' :: (coordinateText p.y).toList) :: rest) (hcode : code.head? = some 'G') :
    Leads line p := by
  constructor
  · simp [word?, h, hcode]
  · simp [word?, h, hcode]

theorem leads_travel (p : Point Float) : Leads (Instruction.travel p).text.toList p :=
  leads_of_words (words_travel p) rfl

theorem leads_cut (m : Machine) (origin : Point Float) (move : Move Float) :
    Leads (cut m origin move).text.toList move.target := by
  cases move with
  | line target => exact leads_of_words (words_cutLine target m.feedRate) rfl
  | arc target center turn =>
      refine leads_of_words (words_cutArc turn target _ m.feedRate) ?_
      cases turn with
      | clockwise => rfl
      | counterclockwise => rfl

theorem Leads.isSome {p : Point Float} (h : Leads line p) :
    (word? 'X' line).isSome ∧ (word? 'Y' line).isSome := by
  rw [h.x, h.y]
  exact ⟨rfl, rfl⟩

/-- Lines that lead to points in one row or in one column share a word. -/
theorem Leads.shares {line next : List Char} {p q : Point Float} (h : Leads line p)
    (h' : Leads next q) (hrow : p.x = q.x ∨ p.y = q.y) : Shares line next := by
  rcases hrow with hx | hy
  · exact .inl (by rw [h.x, h'.x, hx])
  · exact .inr (by rw [h.y, h'.y, hy])

/-- The lines that cut a path, in order. -/
def cuts (m : Machine) (path : Path Float) : List (List Char) :=
  path.steps.map fun (origin, move) => (cut m origin move).text.toList

theorem snd_steps (path : Path Float) : path.steps.map Prod.snd = path.moves :=
  List.map_snd_zip (by simp)

/-- **A contour is closed in the text too.** -/
theorem closes_cuts (m : Machine) {path : Path Float} (h : path.Returns) :
    Closes (Instruction.travel path.start).text.toList (cuts m path) := by
  rw [Path.Returns, ← snd_steps, List.getLast?_map, Option.map_map] at h
  obtain ⟨⟨origin, move⟩, hstep, htarget⟩ := Option.map_eq_some_iff.mp h
  have htravel := leads_travel path.start
  have hlast := leads_cut m origin move
  have hcuts : (cuts m path).getLast? = some (cut m origin move).text.toList := by
    rw [cuts, List.getLast?_map, hstep]
    rfl
  have htarget : move.target = path.start := htarget
  rw [htarget] at hlast
  refine ⟨?_, ?_, ?_, ?_, ?_⟩
  · simp [isPlacing, isRapid, code?, hasWord, words_travel]
  · intro line hline
    obtain ⟨step, -, rfl⟩ := List.mem_map.mp hline
    exact isCut_cut _ _
  · refine List.forall_mem_cons.mpr ⟨htravel.isSome, fun line hline => ?_⟩
    obtain ⟨step, -, rfl⟩ := List.mem_map.mp hline
    exact (leads_cut m _ _).isSome
  · rw [hcuts, Option.bind_some, hlast.x, htravel.x]
  · rw [hcuts, Option.bind_some, hlast.y, htravel.y]

/-- Where every move stays in its row or its column, so do the lines, one after the other. -/
theorem isChain_cuts (m : Machine) {path : Path Float}
    (h : ∀ step ∈ path.steps, step.1.x = step.2.target.x ∨ step.1.y = step.2.target.y)
    {line : List Char} (hline : Leads line path.start) :
    List.IsChain Shares (line :: cuts m path) := by
  obtain ⟨start, moves, closed⟩ := path
  -- on the moves, each line leading to where the next move starts
  induction moves generalizing start line with
  | nil => exact List.isChain_singleton line
  | cons move moves ih =>
      rw [steps_cons] at h
      obtain ⟨hmove, hmoves⟩ := List.forall_mem_cons.mp h
      have hnext := leads_cut m start move
      rw [cuts, steps_cons, List.map_cons]
      exact List.isChain_cons_cons.mpr ⟨hline.shares hnext hmove, ih move.target hmoves hnext⟩

/-- The lines of an item stand in a program one after the other. -/
theorem exists_lines (m : Machine) {item : Item Float} (h : item ∈ d.items) :
    ∃ before after, splitLines (compile m d).toList =
      before ++ spelledOut (ofPlan m (Plan.ofItem m.toolRadius item)) ++ after := by
  obtain ⟨first, last, hplans⟩ :=
    List.append_of_mem (List.mem_map_of_mem (f := Plan.ofItem m.toolRadius) h)
  have hlines : (d.items.map (Plan.ofItem m.toolRadius)).flatMap (ofPlan m) =
      first.flatMap (ofPlan m) ++ (ofPlan m (Plan.ofItem m.toolRadius item) ++
        last.flatMap (ofPlan m)) := by
    rw [hplans, List.flatMap_append, List.flatMap_cons]
  refine ⟨spelledOut (header m (totalLength (d.items.map (Plan.ofItem m.toolRadius))) ++
    first.flatMap (ofPlan m)), spelledOut (last.flatMap (ofPlan m) ++ footer) ++ [[]], ?_⟩
  rw [compile, splitLines_emit m Plan.reasoned_of_mem, ofPlans, hlines]
  simp only [spelledOut, List.map_append, List.append_assoc]

/-- An item that is cut along one path has its comment, the lines of that path, and a blank one. -/
theorem spelledOut_of_path (m : Machine) {item : Item Float} {path : Path Float}
    (h : Contour.ofShape m.toolRadius item.shape = .ok [path]) :
    spelledOut (ofPlan m (Plan.ofItem m.toolRadius item)) =
      ("; " ++ marker (Plan.ofItem m.toolRadius item)).toList ::
        (Instruction.travel path.start).text.toList ::
        (Instruction.plunge (-m.cutDepth) m.feedRate).text.toList ::
        cuts m path ++ [(Instruction.retract m.safeHeight).text.toList, []] := by
  have hpaths : (Plan.ofItem m.toolRadius item).paths = [path] := by
    rw [Plan.paths, Plan.ofItem, h]
  rw [spelledOut_ofPlan, hpaths]
  simp [spelledOut, ofPath, cuts, Line.text]

/--
**Contours are closed, clockwise, and closed in the text too.** An accepted rectangle with
finite corners is gone round once from its least corner, along one axis after the other, with
the area that its sides enclose on the right hand; an accepted circle is one clockwise arc.
In a program the lines that cut either of them end at the very words for x and y of the rapid
line before, and from one corner of a rectangle to the next one of the words stays as it is.
-/
theorem contours_close (m : Machine) (d : Drawing) :
    (∀ radius corner width height path,
      Contour.rectangle radius corner width height = .ok path →
      (∀ p ∈ path.points, p.x.isFinite ∧ p.y.isFinite) →
      path.Encloses (value (corner.x + width + radius) - value (corner.x - radius))
        (value (corner.y + height + radius) - value (corner.y - radius))) ∧
    (∀ (radius : Float) center shapeRadius path,
      Contour.circle radius center shapeRadius = .ok path →
      path.moves = [.arc path.start center .clockwise] ∧ path.closed = true) ∧
    ∀ item ∈ d.items, ∀ paths, Contour.ofShape m.toolRadius item.shape = .ok paths →
      item.shape.kind ≠ .text →
      ∃ before rapid down cuts up after, splitLines (compile m d).toList =
          before ++ ("; " ++ marker (Plan.ofItem m.toolRadius item)).toList ::
            rapid :: down :: cuts ++ up :: [] :: after ∧
        words down = plunge m ∧ words up = lift m ∧ Closes rapid cuts ∧
        (item.shape.kind = .rectangle →
          cuts.length = 4 ∧ List.IsChain Shares (rapid :: cuts)) ∧
        (item.shape.kind = .circle → cuts.length = 1) := by
  refine ⟨fun radius corner width height path => Contour.encloses_of_rectangle,
    fun radius center shapeRadius path => Contour.moves_of_circle,
    fun item hitem paths hpaths hkind => ?_⟩
  obtain ⟨path, rfl, hreturns, hrectangle, hcircle⟩ := Contour.exists_contour hpaths hkind
  obtain ⟨before, after, hlines⟩ := exists_lines m hitem
  rw [spelledOut_of_path m hpaths] at hlines
  have hlength : (cuts m path).length = path.moves.length := by
    rw [← snd_steps, List.length_map, cuts, List.length_map]
  refine ⟨before, _, _, cuts m path, _, after, ?_, words_plunge _ _, words_retract _,
    closes_cuts m hreturns, fun h => ⟨hlength.trans (hrectangle h).1, ?_⟩,
    fun h => hlength.trans (hcircle h)⟩
  · rw [hlines]
    simp
  · exact isChain_cuts m (hrectangle h).2 (leads_travel path.start)

/-- A rectangle so far out that half a millimetre is lost beside its coordinates. -/
def remote : Item Float := ⟨"a", .rectangle ⟨1e16, 0⟩ 2 4⟩

/-- What is cut of it with a tool of a radius of half a millimetre. -/
def remotePath : Path Float where
  start := ⟨1e16, -0.5⟩
  moves := [.line ⟨1e16, 4.5⟩, .line ⟨1e16 + 2, 4.5⟩, .line ⟨1e16 + 2, -0.5⟩, .line ⟨1e16, -0.5⟩]
  closed := true

theorem contours_close_remote :
    Contour.rectangle 0.5 ⟨1e16, 0⟩ 2 4 = .ok remotePath ∧
      remotePath.shoelace = -2 * (2 * 5) ∧ remotePath.shoelace < 0 ∧
      (∃ path, Contour.circle (0.5 : Float) ⟨0, 0⟩ 2 = .ok path ∧
        path.moves = [.arc path.start ⟨0, 0⟩ .clockwise]) ∧
      ∃ rapid cuts, Closes rapid cuts ∧ cuts.length = 4 ∧
        List.IsChain Shares (rapid :: cuts) := by
  have hpath : Contour.rectangle 0.5 ⟨1e16, 0⟩ 2 4 = .ok remotePath := by decide +kernel
  have hfinite : ∀ p ∈ remotePath.points, p.x.isFinite ∧ p.y.isFinite := by decide +kernel
  have hwidth : value ((1e16 : Float) + 2 + 0.5) - value ((1e16 : Float) - 0.5) = 2 := by
    decide +kernel
  have hheight : value ((0 : Float) + 4 + 0.5) - value ((0 : Float) - 0.5) = 5 := by decide +kernel
  have hcircle : Contour.circle (0.5 : Float) ⟨0, 0⟩ 2 =
      .ok ⟨⟨2.5, 0⟩, [.arc ⟨2.5, 0⟩ ⟨0, 0⟩ .clockwise], true⟩ := by decide +kernel
  obtain ⟨hrectangles, hcircles, htext⟩ :=
    contours_close { Machine.standard with toolDiameter := 1 } ⟨[remote]⟩
  have hencloses := hrectangles 0.5 ⟨1e16, 0⟩ 2 4 remotePath hpath hfinite
  have harea := hencloses.area
  rw [hwidth, hheight] at harea
  have hpaths : Contour.ofShape { Machine.standard with toolDiameter := 1 }.toolRadius
      remote.shape = .ok [remotePath] := by decide +kernel
  obtain ⟨-, rapid, -, cuts, -, -, -, -, -, hcloses, hlines, -⟩ :=
    htext remote List.mem_cons_self _ hpaths (by decide)
  obtain ⟨hlength, hchain⟩ := hlines rfl
  exact ⟨hpath, harea, hencloses.clockwise, ⟨_, hcircle, (hcircles _ _ _ _ hcircle).1⟩, rapid, cuts,
    hcloses, hlength, hchain⟩

end Program

end Milling
