import Milling.Proofs.Lines
import Milling.Proofs.Reasons
import Milling.Program.Emit

/-!
# The text of a program carries its plans

A program goes through three nested lists to its text: plans, their paths, the
moves of a path. Here the same is said from the other end. The text is cut at its
line feeds, what is blank or a comment is dropped, and what is left is one line for
each step of each path, with the point that the tool has reached carried along from
move to move.

Comments hold names and reasons that come from outside. None of them can end its
line, so `emit_lines` needs nothing of a name and of a reason only that it is one of
the planner's.
-/

namespace Milling.Program

open Text (Unbroken unbroken_of_isNumeral splitLines)

/-! ## The steps of a path, as lines -/

/-- The line for a move of a tool that stands at `current`. -/
def moveText (m : Machine) (current : Point Float) : Move Float → String
  | .line target =>
    "G01 X" ++ coordinateText target.x ++ " Y" ++ coordinateText target.y ++
      " F" ++ feedText m.feedRate
  | .arc target center turn =>
    (match turn with | .clockwise => "G02" | .counterclockwise => "G03") ++
      " X" ++ coordinateText target.x ++ " Y" ++ coordinateText target.y ++
      " I" ++ coordinateText (center.x - current.x) ++
      " J" ++ coordinateText (center.y - current.y) ++ " F" ++ feedText m.feedRate

/-- The lines for moves made one after the other, the first from `current`. -/
def movesText (m : Machine) (current : Point Float) : List (Move Float) → List String
  | [] => []
  | move :: moves => moveText m current move :: movesText m move.target moves

/-- The lines for a path: travel to its start, plunge, move, and lift the tool. -/
def pathText (m : Machine) (path : Path Float) : List String :=
  ("G00 X" ++ coordinateText path.start.x ++ " Y" ++ coordinateText path.start.y) ::
    ("G01 Z" ++ coordinateText (-m.cutDepth) ++ " F" ++ feedText m.feedRate) ::
    movesText m path.start path.moves ++ ["G00 Z" ++ coordinateText m.safeHeight]

/-- The lines for a plan; an item that is left out has none. -/
def planText (m : Machine) (plan : Plan Float) : List String :=
  match plan.outcome with
  | .ok paths => paths.flatMap (pathText m)
  | .error _ => []

/-- The lines before anything is cut. -/
def setUpText (m : Machine) : List String :=
  [ "G90         ; Absolute positioning",
    "G21         ; Millimeter units",
    "G17         ; XY plane",
    "G00 Z" ++ coordinateText m.safeHeight ++ "  ; Raise to safe height" ]

/-- The lines after everything is cut. -/
def stopText : List String := ["M5          ; Spindle stop", "M30         ; Program end"]

/-- Whether a line is neither blank nor a comment. -/
def instructs (line : List Char) : Bool := !line.isEmpty && line.head? ≠ some ';'

/-- Whether a line introduces an item. -/
def introduces (line : List Char) : Bool := "; Shape ".toList.isPrefixOf line

/-! ## Instructions -/

/-- The instruction on a line. -/
def instruction? : Line → Option Instruction
  | .instruction i => some i
  | _ => none

theorem text_cut (m : Machine) (current : Point Float) (move : Move Float) :
    (cut m current move).text = moveText m current move := by
  cases move with
  | line target => rfl
  | arc target center turn => cases turn <;> rfl

theorem steps_cons (start : Point Float) (move : Move Float) (moves : List (Move Float))
    (closed : Bool) :
    Path.steps ⟨start, move :: moves, closed⟩ =
      (start, move) :: Path.steps ⟨move.target, moves, closed⟩ := rfl

/-- The point carried along is the end of the move before. -/
theorem text_steps (m : Machine) (path : Path Float) :
    (path.steps.map fun (origin, move) => (cut m origin move).text) =
      movesText m path.start path.moves := by
  obtain ⟨start, moves, closed⟩ := path
  -- on the moves, for every start: the next move starts where this one ends
  induction moves generalizing start with
  | nil => rfl
  | cons move moves ih =>
      rw [steps_cons, List.map_cons, ih]
      exact congrArg (· :: _) (text_cut m start move)

theorem text_ofPath (m : Machine) (path : Path Float) :
    (ofPath m path).map Instruction.text = pathText m path := by
  rw [pathText, ← text_steps, ofPath, List.map_append, List.map_cons, List.map_cons, List.map_map]
  rfl

theorem text_paths (m : Machine) (plan : Plan Float) :
    (plan.paths.flatMap (ofPath m)).map Instruction.text = planText m plan := by
  rw [planText, Plan.paths]
  cases plan.outcome with
  | error fault => rfl
  | ok paths =>
      rw [List.map_flatMap]
      exact congrArg (paths.flatMap ·) (funext (text_ofPath m))

/-- The instructions of a program, in order. -/
theorem instructions_ofPlans (m : Machine) (plans : List (Plan Float)) :
    ((ofPlans m plans).filterMap instruction?).map Instruction.text =
      setUpText m ++ plans.flatMap (planText m) ++ stopText := by
  have hplan : ∀ plan, ((ofPlan m plan).filterMap instruction?).map Instruction.text =
      planText m plan := by
    intro plan
    have hsome : ∀ is : List Instruction,
        (is.map Line.instruction).filterMap instruction? = is := by
      intro is
      rw [List.filterMap_map]
      exact List.filterMap_some
    rw [← text_paths, ofPlan, List.filterMap_append, List.filterMap_cons]
    simp [instruction?, hsome]
  have hplans : ∀ plans : List (Plan Float),
      ((plans.flatMap (ofPlan m)).filterMap instruction?).map Instruction.text =
        plans.flatMap (planText m) := by
    intro plans
    induction plans with
    | nil => rfl
    | cons plan plans ih =>
        rw [List.flatMap_cons, List.filterMap_append, List.map_append, hplan, ih,
          List.flatMap_cons]
  rw [ofPlans, List.filterMap_append, List.filterMap_append, List.map_append, List.map_append,
    hplans]
  rfl

/-! ## Comments -/

theorem unbroken_coordinateText (x : Float) : Unbroken (coordinateText x) :=
  unbroken_of_isNumeral (isNumeral_of_mem_coordinateText x)

theorem unbroken_feedText (x : Float) : Unbroken (feedText x) :=
  unbroken_of_isNumeral (isNumeral_of_mem_feedText x)

/-- A name in a comment has lost whatever could end the line. -/
theorem unbroken_commentText (s : String) : Unbroken (commentText s) := by
  intro c hc
  rw [commentText, String.toList_ofList] at hc
  obtain ⟨d, -, rfl⟩ := List.mem_map.mp hc
  split
  · decide
  · next h => simpa using h

theorem unbroken_kindName (kind : Shape.Kind) : Unbroken kind.name := by
  cases kind <;> decide

theorem unbroken_marker {plan : Plan Float} (h : plan.Reasoned) : Unbroken (marker plan) := by
  have hname : Unbroken ("Shape " ++ commentText plan.id ++ " (" ++ plan.kind.name ++ ")") := by
    refine (((Unbroken.append ?_ (unbroken_commentText _)).append ?_).append
      (unbroken_kindName _)).append ?_
    · decide
    · decide
    · decide
  refine hname.append ?_
  cases ho : plan.outcome with
  | ok paths => dsimp only; decide
  | error fault => exact Unbroken.append (by decide) (prose_message (h fault ho)).unbroken

theorem unbroken_instruction (i : Instruction) : Unbroken i.text := by
  cases i with
  | absolute => decide
  | millimetres => decide
  | surfacePlane => decide
  | spindleStop => decide
  | programEnd => decide
  | raise height =>
      refine (Unbroken.append ?_ (unbroken_coordinateText _)).append ?_ <;> decide
  | retract height => exact Unbroken.append (by decide) (unbroken_coordinateText _)
  | plunge height feed =>
      refine ((Unbroken.append ?_ (unbroken_coordinateText _)).append ?_).append
        (unbroken_feedText _) <;> decide
  | travel target =>
      refine ((Unbroken.append ?_ (unbroken_coordinateText _)).append ?_).append
        (unbroken_coordinateText _) <;> decide
  | cutLine target feed =>
      refine ((((Unbroken.append ?_ (unbroken_coordinateText _)).append ?_).append
        (unbroken_coordinateText _)).append ?_).append (unbroken_feedText _) <;> decide
  | cutArc turn target offset feed =>
      have hcode : Unbroken turn.code := by cases turn <;> decide
      refine (((((((((hcode.append ?_).append (unbroken_coordinateText _)).append ?_).append
        (unbroken_coordinateText _)).append ?_).append (unbroken_coordinateText _)).append
        ?_).append (unbroken_coordinateText _)).append ?_).append (unbroken_feedText _) <;> decide

/-! ## One line of a program -/

/-- What stands before the first plan: comments that introduce no item, and the set-up. -/
theorem header_cases {m : Machine} {totalLength : Float} {line : Line}
    (h : line ∈ header m totalLength) :
    line = .blank ∨
      (∃ text, line = .comment text ∧ Unbroken text ∧
        "Shape ".toList.isPrefixOf text.toList = false) ∨
      ∃ i ∈ [Instruction.absolute, .millimetres, .surfacePlane, .raise m.safeHeight],
        line = .instruction i := by
  have hmeasure : ∀ title measure unit : String, Unbroken title → Unbroken measure →
      Unbroken unit →
      "Shape ".toList.isPrefixOf (title.toList ++ (measure ++ unit).toList) = false →
      ∃ text, Line.comment (title ++ measure ++ unit) = .comment text ∧ Unbroken text ∧
        "Shape ".toList.isPrefixOf text.toList = false := by
    intro title measure unit htitle hmeasure hunit hprefix
    refine ⟨_, rfl, (htitle.append hmeasure).append hunit, ?_⟩
    rw [String.append_assoc, String.toList_append]
    exact hprefix
  simp only [header, List.mem_cons, List.not_mem_nil, or_false] at h
  rcases h with rfl | rfl | rfl | rfl | rfl | rfl | rfl | rfl | rfl | rfl | rfl | rfl
  · exact .inr (.inl ⟨_, rfl, by decide, by decide⟩)
  -- the five comments that give a measure
  · exact .inr (.inl (hmeasure _ _ _ (by decide) (unbroken_coordinateText _) (by decide) rfl))
  · exact .inr (.inl (hmeasure _ _ _ (by decide) (unbroken_coordinateText _) (by decide) rfl))
  · exact .inr (.inl (hmeasure _ _ _ (by decide) (unbroken_feedText _) (by decide) rfl))
  · exact .inr (.inl (hmeasure _ _ _ (by decide) (unbroken_coordinateText _) (by decide) rfl))
  · exact .inr (.inl (hmeasure _ _ _ (by decide) (unbroken_coordinateText _) (by decide) rfl))
  · exact .inl rfl
  · exact .inr (.inr ⟨.absolute, by simp, rfl⟩)
  · exact .inr (.inr ⟨.millimetres, by simp, rfl⟩)
  · exact .inr (.inr ⟨.surfacePlane, by simp, rfl⟩)
  · exact .inr (.inr ⟨.raise m.safeHeight, by simp, rfl⟩)
  · exact .inl rfl

/-- What stands for a plan: its marker, the instructions of its paths, a blank line. -/
theorem ofPlan_cases {m : Machine} {plan : Plan Float} {line : Line} (h : line ∈ ofPlan m plan) :
    line = .comment (marker plan) ∨ line = .blank ∨
      ∃ path ∈ plan.paths, ∃ i ∈ ofPath m path, line = .instruction i := by
  rcases List.mem_append.mp h with h | h
  · rcases List.mem_cons.mp h with rfl | h
    · exact .inl rfl
    · obtain ⟨i, hi, rfl⟩ := List.mem_map.mp h
      obtain ⟨path, hpath, hi⟩ := List.mem_flatMap.mp hi
      exact .inr (.inr ⟨path, hpath, i, hi, rfl⟩)
  · exact .inr (.inl (List.mem_singleton.mp h))

/-- Every line of a program is a single line. -/
theorem unbroken_ofPlans (m : Machine) {plans : List (Plan Float)}
    (h : ∀ plan ∈ plans, plan.Reasoned) : ∀ line ∈ ofPlans m plans, Unbroken line.text := by
  have hcomment : ∀ text : String, Unbroken text → Unbroken (Line.comment text).text :=
    fun text ht => Unbroken.append (by decide) ht
  have hblank : Unbroken Line.blank.text := by decide
  intro line hline
  rcases List.mem_append.mp hline with hline | hline
  · rcases List.mem_append.mp hline with hline | hline
    · rcases header_cases hline with rfl | ⟨text, rfl, htext, -⟩ | ⟨i, -, rfl⟩
      · exact hblank
      · exact hcomment text htext
      · exact unbroken_instruction i
    · obtain ⟨plan, hplan, hline⟩ := List.mem_flatMap.mp hline
      rcases ofPlan_cases hline with rfl | rfl | ⟨-, -, i, -, rfl⟩
      · exact hcomment _ (unbroken_marker (h plan hplan))
      · exact hblank
      · exact unbroken_instruction i
  · simp only [footer, List.mem_cons, List.not_mem_nil, or_false] at hline
    rcases hline with rfl | rfl
    · exact unbroken_instruction _
    · exact unbroken_instruction _

/-- The text of a program is cut into its lines, and nothing stands behind the last. -/
theorem splitLines_emit (m : Machine) {plans : List (Plan Float)}
    (h : ∀ plan ∈ plans, plan.Reasoned) :
    splitLines (emit m plans).toList =
      (ofPlans m plans).map (fun line => line.text.toList) ++ [[]] :=
  Line.splitLines_render fun line hline => (unbroken_ofPlans m h line hline).newline_not_mem

/-! ## Sorting the lines of a program -/

theorem instructs_instruction (i : Instruction) : instructs i.text.toList = true := by
  cases i with
  | cutArc turn target offset feed =>
      cases turn <;> simp [instructs, Instruction.text, Turn.code, String.toList_append]
  | _ => simp [instructs, Instruction.text, String.toList_append]

/-- A line that introduces an item is a comment. -/
theorem introduces_of_instructs {line : List Char} (h : instructs line = true) :
    introduces line = false := by
  cases line with
  | nil => simp [instructs] at h
  | cons c rest =>
      have hc : c ≠ ';' := by simpa [instructs] using h
      simp [introduces, List.isPrefixOf_cons_cons, Ne.symm hc]

/-- What is dropped from a program are its comments and its blank lines. -/
theorem filter_instructs (lines : List Line) :
    (lines.map fun line => line.text.toList).filter instructs =
      ((lines.filterMap instruction?).map Instruction.text).map String.toList := by
  induction lines with
  | nil => rfl
  | cons line lines ih =>
      rw [List.map_cons, List.filter_cons, ih]
      cases line with
      | comment text =>
          have : instructs (Line.comment text).text.toList = false := by
            simp [instructs, Line.text, String.toList_append]
          rw [this]; rfl
      | blank => rfl
      | instruction i =>
          have : instructs (Line.instruction i).text.toList = true := instructs_instruction i
          rw [this]; rfl

theorem introduces_comment (text : String) :
    introduces (Line.comment text).text.toList = "Shape ".toList.isPrefixOf text.toList := by
  simp [introduces, Line.text, String.toList_append]

theorem introduces_instruction (i : Instruction) :
    introduces (Line.instruction i).text.toList = false :=
  introduces_of_instructs (instructs_instruction i)

theorem filter_introduces_header (m : Machine) (totalLength : Float) :
    ((header m totalLength).map fun line => line.text.toList).filter introduces = [] := by
  rw [List.filter_eq_nil_iff]
  intro l hl
  obtain ⟨line, hline, rfl⟩ := List.mem_map.mp hl
  rw [Bool.not_eq_true]
  rcases header_cases hline with rfl | ⟨text, rfl, -, hprefix⟩ | ⟨i, -, rfl⟩
  · decide
  · rw [introduces_comment, hprefix]
  · exact introduces_instruction i

/-- An item is introduced once, and nothing else in its lines looks like that. -/
theorem filter_introduces_ofPlan (m : Machine) (plan : Plan Float) :
    ((ofPlan m plan).map fun line => line.text.toList).filter introduces =
      [("; " ++ marker plan).toList] := by
  have hmarker : introduces ("; " ++ marker plan).toList = true := by
    simp [introduces, marker, String.toList_append]
  have hrest : ((((plan.paths.flatMap (ofPath m)).map Line.instruction).map
      fun line => line.text.toList).filter introduces) = [] := by
    rw [List.filter_eq_nil_iff]
    intro l hl
    rw [List.map_map] at hl
    obtain ⟨i, -, rfl⟩ := List.mem_map.mp hl
    simpa using introduces_instruction i
  rw [ofPlan, List.map_append, List.map_cons, List.filter_append, List.filter_cons, hrest]
  have : introduces (Line.comment (marker plan)).text.toList = true := hmarker
  rw [this]
  rfl

theorem filter_introduces_ofPlans (m : Machine) (plans : List (Plan Float)) :
    ((ofPlans m plans).map fun line => line.text.toList).filter introduces =
      plans.map fun plan => ("; " ++ marker plan).toList := by
  have hplans : ∀ plans : List (Plan Float),
      ((plans.flatMap (ofPlan m)).map fun line => line.text.toList).filter introduces =
        plans.map fun plan => ("; " ++ marker plan).toList := by
    intro plans
    induction plans with
    | nil => rfl
    | cons plan plans ih =>
        rw [List.flatMap_cons, List.map_append, List.filter_append, filter_introduces_ofPlan, ih]
        rfl
  have hfooter : (footer.map fun line => line.text.toList).filter introduces = [] := by decide
  rw [ofPlans, List.map_append, List.map_append, List.filter_append, List.filter_append,
    filter_introduces_header, hplans, hfooter, List.nil_append, List.append_nil]

/-! ## The lines of a program -/

/--
**The text of a program carries exactly its plans.** Cut at its line feeds, it has
the lines of the set-up, of every path of every plan and of the end, each once and
in order, and besides them only blank lines and comments; one comment introduces
each item, in order; and no control character other than the line feeds is in it.
-/
theorem emit_lines (m : Machine) {plans : List (Plan Float)}
    (h : ∀ plan ∈ plans, plan.Reasoned) :
    (splitLines (emit m plans).toList).filter instructs =
        (setUpText m ++ plans.flatMap (planText m) ++ stopText).map String.toList ∧
      (splitLines (emit m plans).toList).filter introduces =
        plans.map (fun plan => ("; " ++ marker plan).toList) ∧
      ∀ c ∈ (emit m plans).toList, Text.isControl c → c = '\n' := by
  have hlines := unbroken_ofPlans m h
  have hsplit := Line.splitLines_render fun line hline => (hlines line hline).newline_not_mem
  rw [emit, hsplit, List.filter_append, List.filter_append, filter_instructs,
    instructions_ofPlans, filter_introduces_ofPlans]
  refine ⟨by simp [instructs], by simp [introduces], ?_⟩
  refine Line.forall_mem_render (fun _ => rfl) fun line hline c hc hcontrol => ?_
  rw [hlines line hline c hc] at hcontrol
  exact absurd hcontrol (by decide)

/-- A name that tries to end the program stays in its comment. -/
theorem emit_lines_broken_name :
    (∀ plan ∈ [(⟨"a\nM30", .circle, .error (.notPositive "radius" (Double.ofNat 0))⟩ : Plan Float)],
        plan.Reasoned) ∧
      (splitLines (emit Machine.standard [⟨"a\nM30", .circle,
        .error (.notPositive "radius" (Double.ofNat 0))⟩]).toList).filter introduces =
        ["; Shape a?M30 (Circle) skipped: radius must be positive, got 0".toList] := by
  have h : ∀ plan ∈ [(⟨"a\nM30", .circle,
      .error (.notPositive "radius" (Double.ofNat 0))⟩ : Plan Float)], plan.Reasoned := by
    intro plan hplan fault hfault
    rw [List.mem_singleton.mp hplan] at hfault
    obtain rfl := Except.error.inj hfault
    change "radius" ∈ Contour.fieldNames
    decide
  exact ⟨h, (emit_lines Machine.standard h).2.1.trans (by decide)⟩

end Milling.Program
