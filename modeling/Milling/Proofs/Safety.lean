import Milling.Proofs.Contours
import Milling.Proofs.Controller
import Milling.Proofs.Emission

/-!
# Compiled programs are safe

What a controller reads in the text of a compiled program is worked out from the
inside to the outside: the words of one instruction, the stances that the lines of
a path lead through, then those of a plan, of all plans, of the program. A path takes
a raised tool over its start, down, through its moves and up again, so between two
paths, two plans, and at the end, the tool is raised.

That the tool cuts between a plunge and the next lift is the one condition that does
not come from the way programs are written: it needs paths with at least one move,
and it is the planner that gives no others.
-/

namespace Milling.Program

open Controller
open Text (isNumeral inert_of_isNumeral)

/-! ## The words of an instruction -/

theorem isWord_address {letter : Char} {number : List Char} (hl : letter ≠ ' ' ∧ letter ≠ ';')
    (h : ∀ c ∈ number, isNumeral c) : IsWord (letter :: number) := by
  refine ⟨by simp, fun c hc => ?_⟩
  rcases List.mem_cons.mp hc with rfl | hc
  · exact hl
  · exact (inert_of_isNumeral (h c hc)).2

theorem isWord_coordinate {letter : Char} (hl : letter ≠ ' ' ∧ letter ≠ ';') (x : Float) :
    IsWord (letter :: (coordinateText x).toList) :=
  isWord_address hl (isNumeral_of_mem_coordinateText x)

theorem isWord_feed (x : Float) : IsWord ('F' :: (feedText x).toList) :=
  isWord_address (by decide) (isNumeral_of_mem_feedText x)

theorem isWord_code (digit : Char) (h : digit ∈ ['0', '1', '2', '3']) :
    IsWord ['G', '0', digit] := by
  simp only [List.mem_cons, List.not_mem_nil, or_false] at h
  rcases h with rfl | rfl | rfl | rfl <;> exact ⟨by simp, by simp⟩

theorem words_raise (height : Float) :
    words (Instruction.raise height).text.toList =
      [['G', '0', '0'], 'Z' :: (coordinateText height).toList] := by
  have htext : (Instruction.raise height).text.toList =
      ['G', '0', '0'] ++ ' ' :: ('Z' :: (coordinateText height).toList ++
        ' ' :: (' ' :: ';' :: " Raise to safe height".toList)) := by
    simp [Instruction.text, String.toList_append]
  rw [htext, words_append (isWord_code _ (by decide)),
    words_append (isWord_coordinate (by decide) _), words_blank, words_comment]

theorem words_retract (height : Float) :
    words (Instruction.retract height).text.toList =
      [['G', '0', '0'], 'Z' :: (coordinateText height).toList] := by
  refine (congrArg words ?_).trans (words_intercalate ?_)
  · simp [Instruction.text, String.toList_append, List.intercalate]
  · simp [isWord_code, isWord_coordinate]

theorem words_plunge (height feed : Float) :
    words (Instruction.plunge height feed).text.toList =
      [['G', '0', '1'], 'Z' :: (coordinateText height).toList, 'F' :: (feedText feed).toList] := by
  refine (congrArg words ?_).trans (words_intercalate ?_)
  · simp [Instruction.text, String.toList_append, List.intercalate]
  · simp [isWord_code, isWord_coordinate, isWord_feed]

theorem words_travel (target : Point Float) :
    words (Instruction.travel target).text.toList =
      [['G', '0', '0'], 'X' :: (coordinateText target.x).toList,
        'Y' :: (coordinateText target.y).toList] := by
  refine (congrArg words ?_).trans (words_intercalate ?_)
  · simp [Instruction.text, String.toList_append, List.intercalate]
  · simp [isWord_code, isWord_coordinate]

theorem words_cutLine (target : Point Float) (feed : Float) :
    words (Instruction.cutLine target feed).text.toList =
      [['G', '0', '1'], 'X' :: (coordinateText target.x).toList,
        'Y' :: (coordinateText target.y).toList, 'F' :: (feedText feed).toList] := by
  refine (congrArg words ?_).trans (words_intercalate ?_)
  · simp [Instruction.text, String.toList_append, List.intercalate]
  · simp [isWord_code, isWord_coordinate, isWord_feed]

theorem words_cutArc (turn : Turn) (target offset : Point Float) (feed : Float) :
    words (Instruction.cutArc turn target offset feed).text.toList =
      [turn.code.toList, 'X' :: (coordinateText target.x).toList,
        'Y' :: (coordinateText target.y).toList, 'I' :: (coordinateText offset.x).toList,
        'J' :: (coordinateText offset.y).toList, 'F' :: (feedText feed).toList] := by
  refine (congrArg words ?_).trans (words_intercalate ?_)
  · simp [Instruction.text, String.toList_append, List.intercalate]
  · cases turn <;> simp [Turn.code, isWord_code, isWord_coordinate, isWord_feed]

/-! ## Lines as steps of the controller -/

section Steps

variable {m : Machine} {line : List Char}

theorem advance_lift {s : Stance} (hs : s = .unset ∨ s = .raised ∨ s = .cutting)
    (h : words line = lift m) : advance m s line = some .raised := by
  rw [advance, if_pos h, if_pos hs]

theorem advance_plunge (h : words line = plunge m) : advance m .above line = some .down := by
  rw [advance, if_neg (by rw [h]; exact lift_ne_plunge.symm), if_pos h, if_pos rfl]

theorem advance_travel {x y : List Char} (h : words line = [['G', '0', '0'], 'X' :: x, 'Y' :: y]) :
    advance m .raised line = some .above := by
  have hlift : words line ≠ lift m := by simp [h, lift]
  have hplunge : words line ≠ plunge m := by simp [h, plunge]
  have hz : hasWord 'Z' line = false := by simp [hasWord, h]
  have ht : isTravel line = true := by simp [isTravel, isRapid, code?, hasWord, h]
  have hplace : isPlacing line = true := by simp [isPlacing, isRapid, code?, hasWord, h]
  rw [advance, if_neg hlift, if_neg hplunge, if_neg (by simp [hz]), if_pos ht,
    if_pos ⟨rfl, hplace⟩]

/-- A line with the words of a cut is one, once the tool is in the work. -/
theorem advance_cut {s : Stance} (hs : s = .down ∨ s = .cutting) (hz : hasWord 'Z' line = false)
    (hc : isCut line = true) : advance m s line = some .cutting := by
  have hlift : words line ≠ lift m := fun h => by rw [hasWord_of_lift h] at hz; simp at hz
  have hplunge : words line ≠ plunge m := fun h => by rw [hasWord_of_plunge h] at hz; simp at hz
  have ht : isTravel line = false := by simp [isTravel, isRapid_of_isCut hc]
  rw [advance, if_neg hlift, if_neg hplunge, if_neg (by simp [hz]), if_neg (by simp [ht]),
    if_pos hc, if_pos hs]

/-- A line that is no move leaves a tool that has not just travelled as it is. -/
theorem advance_still {s : Stance} (hs : s ≠ .above) (hz : hasWord 'Z' line = false)
    (hm : isMotion line = false) : advance m s line = some s := by
  have hlift : words line ≠ lift m := fun h => by rw [hasWord_of_lift h] at hz; simp at hz
  have hplunge : words line ≠ plunge m := fun h => by rw [hasWord_of_plunge h] at hz; simp at hz
  have ht : isTravel line = false := by simp [isTravel, isRapid_of_isMotion hm]
  have hc : isCut line = false := by
    simp only [isMotion, Bool.or_eq_false_iff] at hm
    simp [isCut, hm.1.1.2, hm.1.2, hm.2]
  rw [advance, if_neg hlift, if_neg hplunge, if_neg (by simp [hz]), if_neg (by simp [ht]),
    if_neg (by simp [hc]), if_neg (by simp [hm, hs])]

theorem advance_silent {s : Stance} (hs : s ≠ .above) (h : words line = []) :
    advance m s line = some s :=
  advance_still hs (by simp [hasWord, h]) (by simp [isMotion, isRapid, code?, h])

theorem words_commentLine (text : String) : words (Line.comment text).text.toList = [] := by
  have htext : (Line.comment text).text.toList = ';' :: ' ' :: text.toList := by
    simp [Line.text, String.toList_append]
  rw [htext, words_comment]

theorem advance_comment {s : Stance} (hs : s ≠ .above) (text : String) :
    advance m s (Line.comment text).text.toList = some s :=
  advance_silent hs (words_commentLine text)

theorem advance_blank {s : Stance} (hs : s ≠ .above) :
    advance m s Line.blank.text.toList = some s :=
  advance_silent hs (by decide)

theorem isCut_cut (origin : Point Float) (move : Move Float) :
    isCut (cut m origin move).text.toList = true := by
  cases move with
  | line target => simp [isCut, code?, hasWord, cut, words_cutLine target m.feedRate]
  | arc target center turn =>
      have hw := words_cutArc turn target ⟨center.x - origin.x, center.y - origin.y⟩ m.feedRate
      cases turn <;> simp [isCut, code?, cut, hw, Turn.code]

theorem advance_move {s : Stance} (hs : s = .down ∨ s = .cutting) (origin : Point Float)
    (move : Move Float) : advance m s (cut m origin move).text.toList = some .cutting := by
  refine advance_cut hs ?_ (isCut_cut origin move)
  cases move with
  | line target => simp [hasWord, cut, words_cutLine target m.feedRate]
  | arc target center turn =>
      have hw := words_cutArc turn target ⟨center.x - origin.x, center.y - origin.y⟩ m.feedRate
      cases turn <;> simp [hasWord, cut, hw, Turn.code]

end Steps

/-! ## The stances that a program leads through -/

section Runs

variable {m : Machine}

theorem run_of_advance {s t u : Stance} {line : List Char} {after : List (List Char)}
    (h : advance m s line = some t) (hafter : run m t after = some u) :
    run m s (line :: after) = some u := by
  rw [run_cons, h]
  exact hafter

theorem run_of_append {s t u : Stance} {before after : List (List Char)}
    (h : run m s before = some t) (hafter : run m t after = some u) :
    run m s (before ++ after) = some u := by
  rw [run_append, h]
  exact hafter

/-- What each part keeps, all parts together keep. -/
theorem run_flatMap {α : Type} {s : Stance} {parts : List α} {f : α → List (List Char)}
    (h : ∀ a ∈ parts, run m s (f a) = some s) : run m s (parts.flatMap f) = some s := by
  induction parts with
  | nil => rfl
  | cons a parts ih =>
      rw [List.flatMap_cons]
      exact run_of_append (h a List.mem_cons_self) (ih fun b hb => h b (List.mem_cons_of_mem _ hb))

/-- The moves of a path, of which there is one at least, all cut. -/
theorem run_steps {s : Stance} (hs : s = .down ∨ s = .cutting)
    (steps : List (Point Float × Move Float)) (hne : steps ≠ []) :
    run m s (steps.map fun step => (cut m step.1 step.2).text.toList) = some .cutting := by
  induction steps generalizing s with
  | nil => exact absurd rfl hne
  | cons step steps ih =>
      refine run_of_advance (advance_move hs step.1 step.2) ?_
      cases steps with
      | nil => rfl
      | cons next steps => exact ih (Or.inr rfl) (by simp)

/-- **A path takes a raised tool down, through the work and up again.** -/
theorem run_path {path : Path Float} (hne : path.moves ≠ []) :
    run m .raised ((ofPath m path).map fun i => i.text.toList) = some .raised := by
  have hsteps : path.steps ≠ [] := by
    cases hm : path.moves with
    | nil => exact absurd hm hne
    | cons move moves => simp [Path.steps, hm]
  rw [ofPath, List.map_append, List.map_cons, List.map_cons, List.map_map]
  -- raised, above the start, down, cutting, and raised again
  refine run_of_append (t := .cutting) ?_ ?_
  · refine run_of_advance (advance_travel (words_travel _)) ?_
    refine run_of_advance (advance_plunge (words_plunge _ _)) ?_
    exact run_steps (Or.inl rfl) path.steps hsteps
  · exact run_of_advance (advance_lift (by simp) (words_retract _)) rfl

theorem run_plan {plan : Plan Float} (hne : ∀ path ∈ plan.paths, path.moves ≠ []) :
    run m .raised ((ofPlan m plan).map fun line => line.text.toList) = some .raised := by
  have hpaths : run m .raised (((plan.paths.flatMap (ofPath m)).map Line.instruction).map
      fun line => line.text.toList) = some .raised := by
    rw [List.map_map, List.map_flatMap]
    exact run_flatMap fun path hpath => run_path (hne path hpath)
  rw [ofPlan, List.map_append, List.map_cons]
  refine run_of_append (run_of_advance (advance_comment (by decide) _) hpaths) ?_
  exact run_of_advance (advance_blank (by decide)) rfl

theorem run_header (totalLength : Float) :
    run m .unset ((header m totalLength).map fun line => line.text.toList) = some .raised := by
  have hset : ∀ i ∈ [Instruction.absolute, .millimetres, .surfacePlane],
      advance m .unset (Line.instruction i).text.toList = some .unset := by
    intro i hi
    simp only [List.mem_cons, List.not_mem_nil, or_false] at hi
    rcases hi with rfl | rfl | rfl <;> exact advance_still (by decide) (by decide) (by decide)
  refine run_of_advance (advance_comment (by decide) _) ?_
  refine run_of_advance (advance_comment (by decide) _) ?_
  refine run_of_advance (advance_comment (by decide) _) ?_
  refine run_of_advance (advance_comment (by decide) _) ?_
  refine run_of_advance (advance_comment (by decide) _) ?_
  refine run_of_advance (advance_comment (by decide) _) ?_
  refine run_of_advance (advance_blank (by decide)) ?_
  refine run_of_advance (hset _ (by decide)) ?_
  refine run_of_advance (hset _ (by decide)) ?_
  refine run_of_advance (hset _ (by decide)) ?_
  refine run_of_advance (advance_lift (Or.inl rfl) (words_raise _)) ?_
  exact run_of_advance (advance_blank (by decide)) rfl

theorem run_body {plans : List (Plan Float)}
    (hne : ∀ plan ∈ plans, ∀ path ∈ plan.paths, path.moves ≠ []) :
    run m .unset ((header m (totalLength plans) ++ plans.flatMap (ofPlan m)).map
      fun line => line.text.toList) = some .raised := by
  rw [List.map_append, List.map_flatMap]
  exact run_of_append (run_header _) (run_flatMap fun plan hplan => run_plan (hne plan hplan))

theorem run_footer : run m .raised (footer.map fun line => line.text.toList) = some .raised := by
  refine run_of_advance (advance_still (by decide) (by decide) (by decide)) ?_
  exact run_of_advance (advance_still (by decide) (by decide) (by decide)) rfl

end Runs

/-! ## Where a program stops -/

/-- Whether a line stops the spindle or ends the program. -/
def stops (line : List Char) : Bool :=
  code? line = some ['M', '5'] || code? line = some ['M', '3', '0']

theorem stops_ofPath {m : Machine} {path : Path Float} {i : Instruction} (h : i ∈ ofPath m path) :
    stops i.text.toList = false := by
  rcases List.mem_append.mp h with h | h
  · rcases List.mem_cons.mp h with rfl | h
    · simp [stops, code?, words_travel]
    rcases List.mem_cons.mp h with rfl | h
    · simp [stops, code?, words_plunge]
    obtain ⟨⟨origin, move⟩, -, rfl⟩ := List.mem_map.mp h
    cases move with
    | line target => simp [stops, code?, cut, words_cutLine]
    | arc target center turn => cases turn <;> simp [stops, code?, cut, words_cutArc, Turn.code]
  · rw [List.mem_singleton.mp h]
    simp [stops, code?, words_retract]

/-- Only the last two lines stop anything. -/
theorem stops_eq_false (m : Machine) {plans : List (Plan Float)} :
    ∀ line ∈ header m (totalLength plans) ++ plans.flatMap (ofPlan m),
      stops line.text.toList = false := by
  have hcomment : ∀ text : String, stops (Line.comment text).text.toList = false := by
    intro text
    simp [stops, code?, words_commentLine]
  have hblank : stops Line.blank.text.toList = false := by decide
  intro line hline
  rcases List.mem_append.mp hline with hline | hline
  · rcases header_cases hline with rfl | ⟨text, rfl, -⟩ | ⟨i, hi, rfl⟩
    · exact hblank
    · exact hcomment text
    · simp only [List.mem_cons, List.not_mem_nil, or_false] at hi
      rcases hi with rfl | rfl | rfl | rfl
      · decide
      · decide
      · decide
      · change stops (Instruction.raise m.safeHeight).text.toList = false
        simp [stops, code?, words_raise]
  · obtain ⟨plan, -, hline⟩ := List.mem_flatMap.mp hline
    rcases ofPlan_cases hline with rfl | rfl | ⟨path, -, i, hi, rfl⟩
    · exact hcomment _
    · exact hblank
    · exact stops_ofPath hi

/-! ## Compiled programs -/

theorem moves_of_ofItem {radius : Float} {item : Item Float} :
    ∀ path ∈ (Plan.ofItem radius item).paths, path.moves ≠ [] := by
  intro path hpath
  rw [Plan.paths] at hpath
  cases ho : (Plan.ofItem radius item).outcome with
  | error fault => rw [ho] at hpath; simp at hpath
  | ok paths =>
      rw [ho] at hpath
      exact Contour.moves_of_ofShape ho path hpath

/--
**A compiled program is safe**, whatever the drawing and the machine. Its text is a
list of ended lines; these are safe, the last two of them stop the spindle and end
the program, and no line before does either.
-/
theorem compile_safe (m : Machine) (d : Drawing) :
    ∃ body : List (List Char),
      Text.splitLines (compile m d).toList = body ++ stopText.map String.toList ++ [[]] ∧
        Safe m (body ++ stopText.map String.toList) ∧ ∀ line ∈ body, stops line = false := by
  let plans := d.items.map (Plan.ofItem m.toolRadius)
  have hreasoned : ∀ plan ∈ plans, plan.Reasoned := by
    intro plan hplan
    obtain ⟨item, -, rfl⟩ := List.mem_map.mp hplan
    exact Plan.reasoned_ofItem _ item
  have hmoves : ∀ plan ∈ plans, ∀ path ∈ plan.paths, path.moves ≠ [] := by
    intro plan hplan
    obtain ⟨item, -, rfl⟩ := List.mem_map.mp hplan
    exact moves_of_ofItem
  refine ⟨(header m (totalLength plans) ++ plans.flatMap (ofPlan m)).map
    fun line => line.text.toList, ?_, ?_, ?_⟩
  · -- no name and no reason of the planner's breaks a line
    have hlines := unbroken_ofPlans m hreasoned
    have hsplit := Line.splitLines_render fun line hline => (hlines line hline).newline_not_mem
    rw [compile, emit, hsplit, ofPlans, List.map_append]
    rfl
  · exact safe_of_accepted (run_of_append (run_body hmoves) run_footer)
  · intro line hline
    obtain ⟨l, hl, rfl⟩ := List.mem_map.mp hline
    exact stops_eq_false m l hl

end Milling.Program
