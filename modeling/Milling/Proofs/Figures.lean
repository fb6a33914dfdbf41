import Milling.Proofs.Arithmetic
import Milling.Proofs.Safety

/-!
# The numbers in a program

A controller needs a number behind every letter of a word. Whether it finds one is
decided where the number was computed: a finite double is written as a decimal
numeral, anything else as a word such as `inf`.

The planner refuses shapes that are described by something other than numbers, and a
machine that has been checked has numbers for its heights and its feed. But the
place of the tool is computed from these, and a sum of two numbers can be too large to
be one. `Shape.reach` lists what is computed for a shape. A compiled program has a
number in every word exactly if all of that is finite for every shape that is cut, and
nothing tests it.
-/

namespace Milling

/-! ## Decimal numerals -/

namespace Text

/-- Digits, and behind a point more digits or no point at all. -/
def isUnsigned (text : List Char) : Bool :=
  !(text.takeWhile Char.isDigit).isEmpty &&
    match text.dropWhile Char.isDigit with
    | [] => true
    | c :: fraction => c = '.' && !fraction.isEmpty && fraction.all Char.isDigit

/-- A decimal numeral: a minus sign or none, digits, and behind a point more digits or no point. -/
def isDecimal : List Char → Bool
  | '-' :: text => isUnsigned text
  | text => isUnsigned text

theorem isUnsigned_of_digits {whole : List Char} (hne : whole ≠ []) (h : ∀ c ∈ whole, c.isDigit) :
    isUnsigned whole := by
  rw [isUnsigned, List.takeWhile_eq_self_iff.mpr h, List.dropWhile_eq_nil_iff.mpr h]
  simpa using hne

theorem isUnsigned_of_pointed {whole fraction : List Char} (hne : whole ≠ [])
    (h : ∀ c ∈ whole, c.isDigit) (hne' : fraction ≠ []) (h' : ∀ c ∈ fraction, c.isDigit) :
    isUnsigned (whole ++ '.' :: fraction) := by
  rw [isUnsigned, List.takeWhile_append_of_pos h, List.dropWhile_append_of_pos h,
    List.takeWhile_cons_of_neg (by decide), List.dropWhile_cons_of_neg (by decide)]
  simpa [hne, hne'] using h'

/-- Digits do not begin with a sign. -/
theorem isDecimal_of_isUnsigned {text : List Char} (h : isUnsigned text) : isDecimal text := by
  unfold isDecimal
  split
  · rename_i rest
    exact absurd h (by simp [isUnsigned])
  · exact h

end Text

namespace Double

open Text (isDecimal isUnsigned)

theorem isUnsigned_placed (places scaled : ℕ) : isUnsigned (placed places scaled) := by
  have hdigits : ∀ n, ∀ c ∈ Nat.toDigits 10 n, c.isDigit :=
    fun n c hc => Nat.isDigit_of_mem_toDigits (by decide) (by decide) hc
  rw [placed]
  split
  · rw [List.append_nil]
    exact Text.isUnsigned_of_digits Nat.toDigits_ne_nil (hdigits _)
  · refine Text.isUnsigned_of_pointed Nat.toDigits_ne_nil (hdigits _) ?_ fun c hc => ?_
    · exact fun h => Nat.toDigits_ne_nil (List.append_eq_nil_iff.mp h).2
    · rcases List.mem_append.mp hc with hc | hc
      · rw [List.eq_of_mem_replicate hc]
        rfl
      · exact hdigits _ c hc

/-- **A double is written as a numeral exactly if it is finite.** -/
theorem isDecimal_fixed (places : ℕ) (x : Float) :
    isDecimal (fixed places x).toList = x.isFinite := by
  rw [fixed, write, String.toList_ofList]
  by_cases h : x.isFinite
  · obtain ⟨negative, m, e, hview, -⟩ := view_finite h
    have hplaced := isUnsigned_placed places (scaleBy places m e)
    rw [hview, h]
    cases negative with
    | false => exact Text.isDecimal_of_isUnsigned hplaced
    | true => exact hplaced
  · have hnot : x.isFinite = false := by simpa using h
    rw [hnot]
    rcases view_not_finite h with hview | ⟨negative, hview⟩
    · rw [hview]
      rfl
    · rw [hview]
      cases negative <;> rfl

end Double

theorem isDecimal_coordinateText (x : Float) :
    Text.isDecimal (coordinateText x).toList = x.isFinite := by
  have hfixed := Double.isDecimal_fixed 3 x
  rw [coordinateText]
  split
  · -- what is written without its sign is a numeral with it, too
    rename_i hzero
    rw [hzero] at hfixed
    exact hfixed
  · exact hfixed

theorem isDecimal_feedText (x : Float) : Text.isDecimal (feedText x).toList = x.isFinite :=
  Double.isDecimal_fixed _ x

/-! ## The numbers of an instruction -/

/-- The numbers that an instruction shows, each behind its letter. -/
def Instruction.figures : Instruction → List (Char × Float)
  | .raise height => [('Z', height)]
  | .travel target => [('X', target.x), ('Y', target.y)]
  | .plunge height feed => [('Z', height), ('F', feed)]
  | .cutLine target feed => [('X', target.x), ('Y', target.y), ('F', feed)]
  | .cutArc _ target offset feed =>
    [('X', target.x), ('Y', target.y), ('I', offset.x), ('J', offset.y), ('F', feed)]
  | .retract height => [('Z', height)]
  | .absolute | .millimetres | .surfacePlane | .spindleStop | .programEnd => []

namespace Controller

open Program (words_raise words_travel words_plunge words_cutLine words_cutArc words_retract)

/-- The letters with a number behind them. -/
def addresses : List Char := ['X', 'Y', 'Z', 'I', 'J', 'F']

/-- Every word of a line that begins with one of the letters goes on with a decimal numeral. -/
def Legible (letters : List Char) (line : List Char) : Prop :=
  ∀ letter ∈ letters, ∀ number, letter :: number ∈ words line → Text.isDecimal number

/-- The word of a number: only the feed is written by a rule of its own. -/
def spelled (figure : Char × Float) : List Char :=
  figure.1 :: (if figure.1 = 'F' then feedText figure.2 else coordinateText figure.2).toList

theorem isDecimal_spelled (figure : Char × Float) :
    Text.isDecimal (spelled figure).tail = figure.2.isFinite := by
  rw [spelled, List.tail_cons]
  split
  · exact isDecimal_feedText figure.2
  · exact isDecimal_coordinateText figure.2

/-- An instruction is one word that says what to do, and its numbers. -/
theorem words_instruction (i : Instruction) : ∃ code, code.head? ∈ [some 'G', some 'M'] ∧
    words i.text.toList = code :: i.figures.map spelled := by
  cases i with
  | absolute => exact ⟨['G', '9', '0'], by decide, by decide⟩
  | millimetres => exact ⟨['G', '2', '1'], by decide, by decide⟩
  | surfacePlane => exact ⟨['G', '1', '7'], by decide, by decide⟩
  | spindleStop => exact ⟨['M', '5'], by decide, by decide⟩
  | programEnd => exact ⟨['M', '3', '0'], by decide, by decide⟩
  | raise height => exact ⟨_, by decide, words_raise height⟩
  | travel target => exact ⟨_, by decide, words_travel target⟩
  | plunge height feed => exact ⟨_, by decide, words_plunge height feed⟩
  | cutLine target feed => exact ⟨_, by decide, words_cutLine target feed⟩
  | cutArc turn target offset feed =>
      exact ⟨_, by cases turn <;> decide, words_cutArc turn target offset feed⟩
  | retract height => exact ⟨_, by decide, words_retract height⟩

/-- A word with a number is that of a number of the instruction. -/
theorem figure_of_word {i : Instruction} {letter : Char} {number : List Char}
    (hletter : letter ∈ addresses) (h : letter :: number ∈ words i.text.toList) :
    ∃ x, (letter, x) ∈ i.figures ∧ spelled (letter, x) = letter :: number := by
  obtain ⟨code, hcode, hwords⟩ := words_instruction i
  rw [hwords] at h
  rcases List.mem_cons.mp h with rfl | h
  · -- the word that says what to do begins with a letter of its own
    have hother : letter ∈ ['G', 'M'] := by simpa using hcode
    simp only [List.mem_cons, List.not_mem_nil, or_false] at hother
    rcases hother with rfl | rfl
    · exact absurd hletter (by decide)
    · exact absurd hletter (by decide)
  · obtain ⟨⟨letter', x⟩, hfigure, hspelled⟩ := List.mem_map.mp h
    obtain rfl : letter' = letter := (List.cons.inj hspelled).1
    exact ⟨x, hfigure, hspelled⟩

/-- Behind the letters of an instruction there are numerals exactly if its numbers are finite. -/
theorem legible_instruction {letters : List Char} (hletters : letters ⊆ addresses)
    (i : Instruction) :
    Legible letters i.text.toList ↔
      ∀ figure ∈ i.figures, figure.1 ∈ letters → figure.2.isFinite := by
  constructor
  · intro h figure hfigure hletter
    obtain ⟨code, -, hwords⟩ := words_instruction i
    rw [Legible, hwords] at h
    rw [← isDecimal_spelled]
    exact h figure.1 hletter _ (List.mem_cons_of_mem _ (List.mem_map_of_mem hfigure))
  · intro h letter hletter number hword
    obtain ⟨x, hfigure, hspelled⟩ := figure_of_word (hletters hletter) hword
    have hnumber := isDecimal_spelled (letter, x)
    rw [hspelled] at hnumber
    exact hnumber.trans (h _ hfigure hletter)

end Controller

/-! ## What is computed for a shape -/

/-- The numbers that a move shows: where it ends, and where its centre is from where it begins. -/
def Move.figures (origin : Point Float) : Move Float → List Float
  | .line target => [target.x, target.y]
  | .arc target center _ => [target.x, target.y, center.x - origin.x, center.y - origin.y]

/-- The numbers that a path shows. -/
def Path.figures (path : Path Float) : List Float :=
  path.start.x :: path.start.y :: path.steps.flatMap fun (origin, move) => move.figures origin

/-- The coordinates of the tool and the offsets of the arcs that a shape is cut with. -/
def Shape.reach (radius : Float) : Shape Float → List Float
  | .rectangle corner width height =>
    [corner.x - radius, corner.y - radius, corner.x + width + radius, corner.y + height + radius]
  | .circle center shapeRadius =>
    let start := center.x + (shapeRadius + radius)
    [start, center.y, center.x - start, center.y - center.y]
  | .text origin content size =>
    (Lettering.layout content origin size).flatMap fun stroke => stroke.flatMap fun p => [p.x, p.y]

namespace Contour

open Outcome (ok_of_bind)

variable {radius : Float}

theorem figures_of_rectangle {corner : Point Float} {width height : Float} {path : Path Float}
    (h : rectangle radius corner width height = .ok path) :
    ∀ x, x ∈ path.figures ↔ x ∈ (Shape.rectangle corner width height).reach radius := by
  obtain rfl := eq_of_rectangle h
  intro x
  simp only [Path.figures, Path.steps, Move.figures, Move.target, Shape.reach, List.map_cons,
    List.map_nil, List.zip_cons_cons, List.zip_nil_right, List.flatMap_cons, List.flatMap_nil,
    List.cons_append, List.nil_append, List.mem_cons, List.not_mem_nil, or_false]
  tauto

theorem figures_of_circle {center : Point Float} {shapeRadius : Float} {path : Path Float}
    (h : circle radius center shapeRadius = .ok path) :
    ∀ x, x ∈ path.figures ↔ x ∈ (Shape.circle center shapeRadius).reach radius := by
  obtain rfl := eq_of_circle h
  intro x
  simp only [Path.figures, Path.steps, Move.figures, Move.target, Shape.reach, List.map_cons,
    List.map_nil, List.zip_cons_cons, List.zip_nil_right, List.flatMap_cons, List.flatMap_nil,
    List.append_nil, List.mem_cons, List.not_mem_nil, or_false]
  tauto

/-- A stroke shows the coordinates of its points and nothing else. -/
theorem figures_of_stroke (first : Point Float) : ∀ (rest : List (Point Float)),
    Path.figures ⟨first, rest.map .line, false⟩ = (first :: rest).flatMap fun p => [p.x, p.y]
  | [] => rfl
  | second :: rest => by
      -- the end of one line is the start of the next
      rw [List.flatMap_cons, ← figures_of_stroke second rest, Path.figures, List.map_cons,
        Program.steps_cons]
      rfl

/-- **The numbers that a planned shape shows** are those that were computed for it. -/
theorem figures_of_ofShape {shape : Shape Float} {paths : List (Path Float)}
    (h : ofShape radius shape = .ok paths) :
    ∀ x, (∃ path ∈ paths, x ∈ path.figures) ↔ x ∈ shape.reach radius := by
  intro x
  cases shape with
  | rectangle corner width height =>
      obtain ⟨path, hpath, h⟩ := ok_of_bind h
      obtain rfl := Except.ok.inj h
      rw [← figures_of_rectangle hpath]
      simp
  | circle center shapeRadius =>
      obtain ⟨path, hpath, h⟩ := ok_of_bind h
      obtain rfl := Except.ok.inj h
      rw [← figures_of_circle hpath]
      simp
  | text origin content size =>
      obtain rfl := eq_of_lettering h
      rw [Shape.reach, List.mem_flatMap]
      constructor
      · rintro ⟨path, hpath, hx⟩
        obtain ⟨stroke, hstroke, hof⟩ := List.mem_filterMap.mp hpath
        refine ⟨stroke, hstroke, ?_⟩
        cases stroke with
        | nil => cases hof
        | cons first rest =>
            obtain rfl := Option.some.inj hof
            rwa [figures_of_stroke] at hx
      · rintro ⟨stroke, hstroke, hx⟩
        cases stroke with
        | nil => cases hx
        | cons first rest =>
            refine ⟨_, List.mem_filterMap.mpr ⟨first :: rest, hstroke, rfl⟩, ?_⟩
            rwa [figures_of_stroke]

end Contour

/-! ## Machines -/

namespace Machine

theorem checkPositive_eq_ok_iff {key : String} {value : Float} :
    checkPositive key value = .ok () ↔ value.isFinite ∧ Double.ofNat 0 < value := by
  unfold checkPositive
  split
  · rename_i hvalue
    exact ⟨fun _ => hvalue, fun _ => rfl⟩
  · rename_i hvalue
    exact ⟨fun h => absurd h (by simp), fun h => absurd h hvalue⟩

theorem checkNotNegative_eq_ok_iff {key : String} {value : Float} :
    checkNotNegative key value = .ok () ↔ value.isFinite ∧ Double.ofNat 0 ≤ value := by
  unfold checkNotNegative
  split
  · rename_i hvalue
    exact ⟨fun _ => hvalue, fun _ => rfl⟩
  · rename_i hvalue
    exact ⟨fun h => absurd h (by simp), fun h => absurd h hvalue⟩

/-- What is known of a machine that has been checked. -/
theorem sizes_of_check {m : Machine} (h : m.check = .ok ()) :
    (m.feedRate.isFinite ∧ Double.ofNat 0 < m.feedRate) ∧
      (m.safeHeight.isFinite ∧ Double.ofNat 0 ≤ m.safeHeight) ∧
      (m.cutDepth.isFinite ∧ Double.ofNat 0 < m.cutDepth) ∧
      m.toolDiameter.isFinite ∧ Double.ofNat 0 < m.toolDiameter := by
  obtain ⟨_, hfeed, h⟩ := Outcome.ok_of_bind h
  obtain ⟨_, hheight, h⟩ := Outcome.ok_of_bind h
  obtain ⟨_, hdepth, hdiameter⟩ := Outcome.ok_of_bind h
  exact ⟨checkPositive_eq_ok_iff.mp hfeed, checkNotNegative_eq_ok_iff.mp hheight,
    checkPositive_eq_ok_iff.mp hdepth, checkPositive_eq_ok_iff.mp hdiameter⟩

/-- A machine that has been checked has numbers for its feed and its heights. -/
theorem isFinite_of_check {m : Machine} (h : m.check = .ok ()) :
    m.feedRate.isFinite ∧ m.safeHeight.isFinite ∧ (-m.cutDepth).isFinite := by
  obtain ⟨⟨hfeed, -⟩, ⟨hheight, -⟩, ⟨hdepth, -⟩, -⟩ := sizes_of_check h
  exact ⟨hfeed, hheight, Double.isFinite_neg hdepth⟩

end Machine

namespace Program

open Controller (Legible addresses words legible_instruction)
open Text (splitLines)

variable {m : Machine}

theorem mem_filterMap_instruction? {lines : List Line} {i : Instruction} :
    i ∈ lines.filterMap instruction? ↔ .instruction i ∈ lines := by
  rw [List.mem_filterMap]
  constructor
  · rintro ⟨line, hline, hi⟩
    cases line with
    | comment text => cases hi
    | blank => cases hi
    | instruction j =>
        obtain rfl := Option.some.inj hi
        exact hline
  · exact fun h => ⟨_, h, rfl⟩

/-- The instructions of a program are those of the set-up, of the paths and of the end. -/
theorem mem_instructions {plans : List (Plan Float)} {i : Instruction} :
    i ∈ (ofPlans m plans).filterMap instruction? ↔
      i ∈ [.absolute, .millimetres, .surfacePlane, .raise m.safeHeight] ∨
        (∃ plan ∈ plans, ∃ path ∈ plan.paths, i ∈ ofPath m path) ∨
        i ∈ [.spindleStop, .programEnd] := by
  rw [mem_filterMap_instruction?]
  simp [ofPlans, header, footer, ofPlan, or_assoc]

/-- A cut shows the numbers of its move, each behind its letter, and the feed. -/
theorem figures_cut (origin : Point Float) (move : Move Float) :
    (cut m origin move).figures =
      ['X', 'Y', 'I', 'J'].zip (move.figures origin) ++ [('F', m.feedRate)] := by
  cases move <;> rfl

/-- A number that is shown for a path is one of the path's or one of the machine's. -/
theorem figure_cases {path : Path Float} {i : Instruction} {figure : Char × Float}
    (hi : i ∈ ofPath m path) (h : figure ∈ i.figures) :
    figure.1 ∉ ['Z', 'F'] ∧ figure.2 ∈ path.figures ∨
      figure ∈ [('Z', -m.cutDepth), ('Z', m.safeHeight), ('F', m.feedRate)] := by
  rcases List.mem_append.mp hi with hi | hi
  · rcases List.mem_cons.mp hi with rfl | hi
    · simp only [Instruction.figures, List.mem_cons, List.not_mem_nil, or_false] at h
      rcases h with rfl | rfl
      · exact .inl ⟨by simp, List.mem_cons_self ..⟩
      · exact .inl ⟨by simp, List.mem_cons_of_mem _ (List.mem_cons_self ..)⟩
    rcases List.mem_cons.mp hi with rfl | hi
    · simp only [Instruction.figures, List.mem_cons, List.not_mem_nil, or_false] at h
      rcases h with rfl | rfl
      · exact .inr (by simp)
      · exact .inr (by simp)
    · obtain ⟨⟨origin, move⟩, hstep, rfl⟩ := List.mem_map.mp hi
      have hmove : ∀ x ∈ move.figures origin, x ∈ path.figures := fun x hx =>
        List.mem_cons_of_mem _ (List.mem_cons_of_mem _ (List.mem_flatMap.mpr ⟨_, hstep, hx⟩))
      have hother : ∀ letter ∈ ['X', 'Y', 'I', 'J'], letter ∉ ['Z', 'F'] := by simp
      rw [figures_cut, List.mem_append] at h
      rcases h with h | h
      · obtain ⟨hletter, hx⟩ := List.of_mem_zip h
        exact .inl ⟨hother _ hletter, hmove _ hx⟩
      · obtain rfl := List.mem_singleton.mp h
        exact .inr (by simp)
  · obtain rfl := List.mem_singleton.mp hi
    obtain rfl := List.mem_singleton.mp h
    exact .inr (by simp)

/-- Every number of a path is shown behind a letter. -/
theorem exists_figure {path : Path Float} {x : Float} (h : x ∈ path.figures) :
    ∃ i ∈ ofPath m path, ∃ letter ∈ addresses, (letter, x) ∈ i.figures := by
  have htravel : Instruction.travel path.start ∈ ofPath m path := List.mem_cons_self ..
  rcases List.mem_cons.mp h with rfl | h
  · exact ⟨_, htravel, 'X', by decide, by simp [Instruction.figures]⟩
  rcases List.mem_cons.mp h with rfl | h
  · exact ⟨_, htravel, 'Y', by decide, by simp [Instruction.figures]⟩
  obtain ⟨⟨origin, move⟩, hstep, hx⟩ := List.mem_flatMap.mp h
  have hcut : cut m origin move ∈ ofPath m path := by
    refine List.mem_append_left _ (List.mem_cons_of_mem _ (List.mem_cons_of_mem _ ?_))
    exact List.mem_map.mpr ⟨_, hstep, rfl⟩
  -- there are letters enough for the numbers of a move
  have hletters : (['X', 'Y', 'I', 'J'].zip (move.figures origin)).map Prod.snd =
      move.figures origin :=
    List.map_snd_zip (by cases move <;> simp [Move.figures])
  dsimp only at hx
  rw [← hletters] at hx
  obtain ⟨⟨letter, x⟩, hzip, rfl⟩ := List.mem_map.mp hx
  have haddress : ['X', 'Y', 'I', 'J'] ⊆ addresses := by decide
  refine ⟨_, hcut, letter, haddress (List.of_mem_zip hzip).1, ?_⟩
  rw [figures_cut]
  exact List.mem_append_left _ hzip

/-- The instruction lines of a compiled program, each with the instruction it is the text of. -/
theorem mem_lines_compile {d : Drawing} {line : List Char} :
    line ∈ (splitLines (compile m d).toList).filter instructs ↔
      ∃ i ∈ (ofPlans m (d.items.map (Plan.ofItem m.toolRadius))).filterMap instruction?,
        i.text.toList = line := by
  have hlast : [([] : List Char)].filter instructs = [] := rfl
  rw [compile, splitLines_emit m Plan.reasoned_of_mem, List.filter_append, filter_instructs, hlast,
    List.append_nil, List.map_map, List.mem_map]
  rfl

/-- What is cut of a drawing: the paths of every item that the planner accepts. -/
theorem mem_paths {d : Drawing} {radius : Float} {path : Path Float} :
    (∃ plan ∈ d.items.map (Plan.ofItem radius), path ∈ plan.paths) ↔
      ∃ item ∈ d.items, ∃ paths, Contour.ofShape radius item.shape = .ok paths ∧ path ∈ paths := by
  have hplan : ∀ item : Item Float, path ∈ (Plan.ofItem radius item).paths ↔
      ∃ paths, Contour.ofShape radius item.shape = .ok paths ∧ path ∈ paths := by
    intro item
    rw [Plan.paths, Plan.ofItem]
    cases Contour.ofShape radius item.shape with
    | error fault => simp
    | ok paths => simp
  simp only [List.mem_map, exists_exists_and_eq_and, hplan]

/-- Every number in a program is one of the machine's, or was computed for a shape that is cut. -/
theorem figure_of_program_cases {d : Drawing} {i : Instruction} {figure : Char × Float}
    (hi : i ∈ (ofPlans m (d.items.map (Plan.ofItem m.toolRadius))).filterMap instruction?)
    (h : figure ∈ i.figures) :
    (figure.1 ∉ ['Z', 'F'] ∧ ∃ item ∈ d.items, ∃ paths,
        Contour.ofShape m.toolRadius item.shape = .ok paths ∧
          figure.2 ∈ item.shape.reach m.toolRadius) ∨
      figure ∈ [('Z', -m.cutDepth), ('Z', m.safeHeight), ('F', m.feedRate)] := by
  rcases mem_instructions.mp hi with hi | ⟨plan, hplan, path, hpath, hi⟩ | hi
  · simp only [List.mem_cons, List.not_mem_nil, or_false] at hi
    rcases hi with rfl | rfl | rfl | rfl
    · cases h
    · cases h
    · cases h
    · obtain rfl := List.mem_singleton.mp h
      exact .inr (by simp)
  · rcases figure_cases hi h with ⟨hletter, hmem⟩ | hmachine
    · obtain ⟨item, hitem, paths, hpaths, hpath⟩ := mem_paths.mp ⟨plan, hplan, hpath⟩
      have hreach := (Contour.figures_of_ofShape hpaths figure.2).mp ⟨path, hpath, hmem⟩
      exact .inl ⟨hletter, item, hitem, paths, hpaths, hreach⟩
    · exact .inr hmachine
  · simp only [List.mem_cons, List.not_mem_nil, or_false] at hi
    rcases hi with rfl | rfl <;> cases h

/-- Every number that was computed for a shape that is cut is shown somewhere. -/
theorem exists_figure_of_reach {d : Drawing} {item : Item Float} (hitem : item ∈ d.items)
    {paths : List (Path Float)} (hpaths : Contour.ofShape m.toolRadius item.shape = .ok paths)
    {x : Float} (hx : x ∈ item.shape.reach m.toolRadius) :
    ∃ i ∈ (ofPlans m (d.items.map (Plan.ofItem m.toolRadius))).filterMap instruction?,
      ∃ letter ∈ addresses, (letter, x) ∈ i.figures := by
  obtain ⟨path, hpath, hx⟩ := (Contour.figures_of_ofShape hpaths x).mpr hx
  obtain ⟨plan, hplan, hpath⟩ := mem_paths.mpr ⟨item, hitem, paths, hpaths, hpath⟩
  obtain ⟨i, hi, hfigure⟩ := exists_figure (m := m) hx
  exact ⟨i, mem_instructions.mpr (.inr (.inl ⟨plan, hplan, path, hpath, hi⟩)), hfigure⟩

/-- The lines of a program are legible exactly if the numbers of its instructions are finite. -/
theorem legible_compile_iff {d : Drawing} {letters : List Char} (hletters : letters ⊆ addresses) :
    (∀ line ∈ (splitLines (compile m d).toList).filter instructs, Legible letters line) ↔
      ∀ i ∈ (ofPlans m (d.items.map (Plan.ofItem m.toolRadius))).filterMap instruction?,
        ∀ figure ∈ i.figures, figure.1 ∈ letters → figure.2.isFinite := by
  constructor
  · intro h i hi
    exact (legible_instruction hletters i).mp (h _ (mem_lines_compile.mpr ⟨i, hi, rfl⟩))
  · intro h line hline
    obtain ⟨i, hi, rfl⟩ := mem_lines_compile.mp hline
    exact (legible_instruction hletters i).mpr (h i hi)

/--
**A program has a number in every word exactly if everything that was computed for
its shapes is finite.** The heights and the feed of a machine that was checked are
always numbers; what can fail is the place of the tool, and the offset of an arc, for
a shape that the planner accepted.
-/
theorem compile_legible (m : Machine) (hm : m.check = .ok ()) (d : Drawing) :
    (∀ line ∈ (splitLines (compile m d).toList).filter instructs, Legible ['Z', 'F'] line) ∧
      ((∀ line ∈ (splitLines (compile m d).toList).filter instructs, Legible addresses line) ↔
        ∀ item ∈ d.items, ∀ paths, Contour.ofShape m.toolRadius item.shape = .ok paths →
          ∀ x ∈ item.shape.reach m.toolRadius, x.isFinite) := by
  obtain ⟨hfeed, hsafe, hdepth⟩ := Machine.isFinite_of_check hm
  have hsettings : ∀ figure ∈ [('Z', -m.cutDepth), ('Z', m.safeHeight), ('F', m.feedRate)],
      figure.2.isFinite := by
    simp [hfeed, hsafe, hdepth]
  rw [legible_compile_iff (by decide), legible_compile_iff (List.Subset.refl addresses)]
  refine ⟨fun i hi figure hfigure hletter => ?_, fun h item hitem paths hpaths x hx => ?_,
    fun h i hi figure hfigure _ => ?_⟩
  · rcases figure_of_program_cases hi hfigure with ⟨hother, -⟩ | hmachine
    · exact absurd hletter hother
    · exact hsettings figure hmachine
  · obtain ⟨i, hi, letter, hletter, hfigure⟩ := exists_figure_of_reach hitem hpaths hx
    exact h i hi (letter, x) hfigure hletter
  · rcases figure_of_program_cases hi hfigure with
      ⟨-, item, hitem, paths, hpaths, hreach⟩ | hmachine
    · exact h item hitem paths hpaths figure.2 hreach
    · exact hsettings figure hmachine

/-- A rectangle whose right side is beyond the largest double. -/
def wide : Shape Float :=
  .rectangle ⟨Double.ofDecimal false 1 308, 0⟩ (Double.ofDecimal false 1 308) 10

/-- The planner accepts it, and its right side is where no tool can go. -/
theorem compile_legible_wide :
    Machine.standard.check = .ok () ∧
      ¬ ∀ line ∈ (splitLines (compile Machine.standard ⟨[⟨"r", wide⟩]⟩).toList).filter instructs,
        Legible addresses line := by
  have hcheck : Machine.standard.check = .ok () := by decide +kernel
  have haccepted : (Contour.ofShape Machine.standard.toolRadius wide).isOk := by decide +kernel
  have hreach : ¬ ∀ x ∈ wide.reach Machine.standard.toolRadius, x.isFinite := by decide +kernel
  refine ⟨hcheck, ?_⟩
  rw [(compile_legible Machine.standard hcheck ⟨[⟨"r", wide⟩]⟩).2]
  intro h
  cases hplan : Contour.ofShape Machine.standard.toolRadius wide with
  | error fault =>
      rw [hplan] at haccepted
      cases haccepted
  | ok paths => exact hreach (h ⟨"r", wide⟩ (List.mem_singleton.mpr rfl) paths hplan)

end Program

end Milling
