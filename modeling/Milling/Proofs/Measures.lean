import Milling.Proofs.Denotation

/-!
# What a program tells of its machine

A program shows the sizes of its machine in comments, and the feed and the depth again in
every path. The machine was checked for exact sizes, while whoever reads the program has
what is shown of them: three decimal places, or none for a whole feed.

A size that has been checked is above zero, but it may be so small that nothing of it is
shown. `Visible` says how small. What is shown is never on the wrong side of zero.
-/

namespace Milling

/-- A numeral for a number with a property. -/
def Text.Denotes (P : ℚ → Prop) (text : List Char) : Prop := ∃ q, Text.value? text = some q ∧ P q

namespace Program

open Controller (addresses code? figure_of_word spelled words words_comment)
open Text (Denotes splitLines)

variable {m : Machine}

/-! ## The sizes in the comments -/

/-- A size in a comment, as it is written between the words around it. -/
structure Measure where
  title : String
  number : String
  unit : String

/-- The sizes that are shown before the first item. -/
def measures (m : Machine) (totalLength : Float) : List Measure :=
  [ ⟨"Tool diameter: ", coordinateText m.toolDiameter, "mm"⟩,
    ⟨"Cut depth: ", coordinateText m.cutDepth, "mm"⟩,
    ⟨"Feed rate: ", feedText m.feedRate, " mm/min"⟩,
    ⟨"Safe height: ", coordinateText m.safeHeight, "mm"⟩,
    ⟨"Total path length: ", coordinateText totalLength, "mm"⟩ ]

/-- A number that a program shows in a comment, between a title and a unit. -/
def Shows (program title unit : String) (number : List Char) : Prop :=
  "; ".toList ++ (title.toList ++ number ++ unit.toList) ∈ splitLines program.toList

section Comments

variable {plans : List (Plan Float)} {totalLength : Float} {measure : Measure}

/-- The comments of a program: those with the sizes, and one for each item. -/
theorem comment_mem_ofPlans {text : String} :
    .comment text ∈ ofPlans m plans ↔ text = "Generated by cutplan" ∨
      (∃ measure ∈ measures m (Program.totalLength plans),
        text = measure.title ++ measure.number ++ measure.unit) ∨
        ∃ plan ∈ plans, text = marker plan := by
  simp [ofPlans, header, measures, footer, ofPlan, or_assoc]

/-- A line that begins like a comment is one. -/
theorem exists_comment (hplans : ∀ plan ∈ plans, plan.Reasoned) {rest : List Char}
    (h : "; ".toList ++ rest ∈ splitLines (emit m plans).toList) :
    ∃ text, .comment text ∈ ofPlans m plans ∧ text.toList = rest := by
  rw [splitLines_emit m hplans] at h
  rcases List.mem_append.mp h with h | h
  · obtain ⟨line, hmem, hline⟩ := List.mem_map.mp h
    cases line with
    | comment text =>
        have htext : "; ".toList ++ text.toList = "; ".toList ++ rest := by
          rw [← hline, Line.text, String.toList_append]
        exact ⟨text, hmem, List.append_cancel_left htext⟩
    | blank => cases hline
    | instruction i =>
        have hinstructs := instructs_instruction i
        rw [← Line.text, hline] at hinstructs
        cases hinstructs
  · cases List.mem_singleton.mp h

/-- Three letters tell the comments of a program apart, but for those of the items. -/
theorem openings_nodup (m : Machine) (totalLength : Float) :
    ("Generated by cutplan".toList.take 3 :: "Shape ".toList.take 3 ::
      (measures m totalLength).map fun measure => measure.title.toList.take 3).Nodup := by
  simp [measures]

theorem take_title (h : measure ∈ measures m totalLength) (rest : List Char) :
    (measure.title.toList ++ rest).take 3 = measure.title.toList.take 3 := by
  have hlong : ∀ measure ∈ measures m totalLength, 3 ≤ measure.title.toList.length := by
    simp [measures]
  exact List.take_append_of_le_length (hlong measure h)

/-- A comment with the title and the unit of a size is the one of this size. -/
theorem number_of_comment (h : measure ∈ measures m (Program.totalLength plans)) {text : String}
    {number : List Char} (hmem : .comment text ∈ ofPlans m plans)
    (htext : text.toList = measure.title.toList ++ number ++ measure.unit.toList) :
    number = measure.number.toList := by
  have hopen : text.toList.take 3 = measure.title.toList.take 3 := by
    rw [htext, List.append_assoc, take_title h]
  have hlisted : text.toList.take 3 ∈ (measures m (Program.totalLength plans)).map fun measure =>
      measure.title.toList.take 3 := by
    rw [hopen]
    exact List.mem_map_of_mem h
  obtain ⟨hgenerated, hnodup⟩ := List.nodup_cons.mp (openings_nodup m (Program.totalLength plans))
  obtain ⟨hshape, hnodup⟩ := List.nodup_cons.mp hnodup
  rcases comment_mem_ofPlans.mp hmem with rfl | ⟨other, hother, rfl⟩ | ⟨plan, -, rfl⟩
  · exact absurd (List.mem_cons_of_mem _ hlisted) hgenerated
  · rw [String.toList_append, String.toList_append] at hopen htext
    rw [List.append_assoc, take_title hother] at hopen
    obtain rfl := List.inj_on_of_nodup_map hnodup hother h hopen
    exact (List.append_cancel_left (List.append_cancel_right htext)).symm
  · have hmarker : (marker plan).toList.take 3 = "Shape ".toList.take 3 := by
      simp [marker, String.toList_append]
    rw [hmarker] at hlisted
    exact absurd hlisted hshape

/-- **A size is shown once**, as it is written. -/
theorem shows_emit_iff (hplans : ∀ plan ∈ plans, plan.Reasoned)
    (h : measure ∈ measures m (Program.totalLength plans)) {number : List Char} :
    Shows (emit m plans) measure.title measure.unit number ↔ number = measure.number.toList := by
  constructor
  · intro hshows
    obtain ⟨text, hmem, htext⟩ := exists_comment hplans hshows
    exact number_of_comment h hmem htext
  · rintro rfl
    rw [Shows, splitLines_emit m hplans]
    refine List.mem_append_left _ (List.mem_map.mpr ⟨_, comment_mem_ofPlans.mpr
      (.inr (.inl ⟨measure, h, rfl⟩)), ?_⟩)
    rw [Line.text, String.toList_append, String.toList_append, String.toList_append]

end Comments

/-! ## The words of the instructions -/

theorem words_of_not_instructs {line : List Char} (h : instructs line = false) :
    words line = [] := by
  cases line with
  | nil => rfl
  | cons c rest =>
      have hc : c = ';' := by simpa [instructs] using h
      rw [hc, words_comment]

/-- A line with words is that of an instruction. -/
theorem exists_instruction_of_words {d : Drawing} {line : List Char}
    (hline : line ∈ splitLines (compile m d).toList) (hwords : words line ≠ []) :
    ∃ i ∈ (ofPlans m (d.items.map (Plan.ofItem m.toolRadius))).filterMap instruction?,
      i.text.toList = line := by
  have hinstructs : instructs line = true := by
    by_contra hnot
    exact hwords (words_of_not_instructs (by simpa using hnot))
  exact mem_lines_compile.mp (List.mem_filter.mpr ⟨hline, hinstructs⟩)

/-- A word with a number is that of an instruction. -/
theorem exists_figure_of_word {d : Drawing} {line number : List Char} {letter : Char}
    (hline : line ∈ splitLines (compile m d).toList) (hletter : letter ∈ addresses)
    (hword : letter :: number ∈ words line) :
    ∃ i ∈ (ofPlans m (d.items.map (Plan.ofItem m.toolRadius))).filterMap instruction?,
      i.text.toList = line ∧
        ∃ x, (letter, x) ∈ i.figures ∧ spelled (letter, x) = letter :: number := by
  obtain ⟨i, hi, rfl⟩ := exists_instruction_of_words hline (List.ne_nil_of_mem hword)
  exact ⟨i, hi, rfl, figure_of_word hletter hword⟩

/-- The height of a plunge. -/
theorem depth_of_plunge {plans : List (Plan Float)} {i : Instruction} {x : Float}
    (hi : i ∈ (ofPlans m plans).filterMap instruction?)
    (hcode : code? i.text.toList = some ['G', '0', '1']) (hx : ('Z', x) ∈ i.figures) :
    x = -m.cutDepth := by
  have hcut : ∀ origin move, ('Z', x) ∉ (cut m origin move).figures := by
    intro origin move
    rw [figures_cut, List.mem_append, not_or]
    refine ⟨fun hzip => absurd (List.of_mem_zip hzip).1 (by decide), by simp⟩
  rcases mem_instructions.mp hi with hi | ⟨plan, -, path, -, hi⟩ | hi
  · simp only [List.mem_cons, List.not_mem_nil, or_false] at hi
    rcases hi with rfl | rfl | rfl | rfl
    · cases hx
    · cases hx
    · cases hx
    · rw [code?, words_raise] at hcode
      cases hcode
  · rcases List.mem_append.mp hi with hi | hi
    · rcases List.mem_cons.mp hi with rfl | hi
      · simp [Instruction.figures] at hx
      rcases List.mem_cons.mp hi with rfl | hi
      · simpa [Instruction.figures] using hx
      · obtain ⟨⟨origin, move⟩, -, rfl⟩ := List.mem_map.mp hi
        exact absurd hx (hcut origin move)
    · obtain rfl := List.mem_singleton.mp hi
      rw [code?, words_retract] at hcode
      cases hcode
  · simp only [List.mem_cons, List.not_mem_nil, or_false] at hi
    rcases hi with rfl | rfl
    · cases hx
    · cases hx

/-! ## What is told -/

/-- A program tells a number with a property, and nothing else, between a title and a unit. -/
def Tells (program title unit : String) (P : ℚ → Prop) : Prop :=
  (∃ number, Shows program title unit number) ∧
    ∀ number, Shows program title unit number → Denotes P number

/-- What is shown of a size above zero: never less than zero, and zero if it is too small. -/
def Visible (size shown : ℚ) : Prop := 0 ≤ shown ∧ (0 < shown ↔ 1 / 2000 < size)

theorem tells_compile (m : Machine) (d : Drawing) :
    ∀ measure ∈ measures m (totalLength (d.items.map (Plan.ofItem m.toolRadius))), ∀ P,
      Denotes P measure.number.toList → Tells (compile m d) measure.title measure.unit P := by
  intro measure hmeasure P h
  refine ⟨⟨_, (shows_emit_iff Plan.reasoned_of_mem hmeasure).mpr rfl⟩, ?_⟩
  intro number hnumber
  rw [(shows_emit_iff Plan.reasoned_of_mem hmeasure).mp hnumber]
  exact h

theorem visible_shown {x : Float} (hfinite : x.isFinite) (hx : 0 ≤ Double.value x) :
    Visible (Double.value x) (Double.shown 3 x) := by
  refine ⟨Double.shown_nonneg 3 hfinite hx, ?_⟩
  rw [Double.shown_pos_iff 3 hfinite]
  norm_num

theorem visible_coordinateText {x : Float} (hfinite : x.isFinite) (hx : 0 ≤ Double.value x) :
    Denotes (Visible (Double.value x)) (coordinateText x).toList :=
  ⟨_, value?_coordinateText hfinite, visible_shown hfinite hx⟩

/-- Below the surface the same is shown with a minus sign. -/
theorem visible_coordinateText_neg {x : Float} (hfinite : x.isFinite) (hx : 0 ≤ Double.value x) :
    Denotes (fun q => Visible (Double.value x) (-q)) (coordinateText (-x)).toList := by
  refine ⟨_, value?_coordinateText (Double.isFinite_neg hfinite), ?_⟩
  dsimp only
  rw [Double.shown_neg 3 hfinite, neg_neg]
  exact visible_shown hfinite hx

theorem visible_feedText {x : Float} (hfinite : x.isFinite) (hx : 0 ≤ Double.value x) :
    Denotes (Visible (Double.value x)) (feedText x).toList :=
  ⟨_, value?_feedText hfinite, Double.shown_nonneg _ hfinite hx, shown_feed_pos_iff hfinite⟩

theorem feed_of_word {d : Drawing} {line number : List Char}
    (hline : line ∈ splitLines (compile m d).toList) (hword : 'F' :: number ∈ words line) :
    number = (feedText m.feedRate).toList := by
  obtain ⟨i, hi, -, x, hfigure, hspelled⟩ := exists_figure_of_word hline (by decide) hword
  rcases figure_of_program_cases hi hfigure with ⟨hother, -⟩ | hmachine
  · exact absurd hother (by simp)
  · obtain rfl : x = m.feedRate := by simpa using hmachine
    exact (List.cons.inj hspelled).2.symm

theorem depth_of_word {d : Drawing} {line number : List Char}
    (hline : line ∈ splitLines (compile m d).toList) (hcode : code? line = some ['G', '0', '1'])
    (hword : 'Z' :: number ∈ words line) : number = (coordinateText (-m.cutDepth)).toList := by
  obtain ⟨i, hi, rfl, x, hfigure, hspelled⟩ := exists_figure_of_word hline (by decide) hword
  obtain rfl := depth_of_plunge hi hcode hfigure
  exact (List.cons.inj hspelled).2.symm

/--
**What is shown of a checked machine.** Its feed, its depth and its tool are above zero. A
program shows them so, in its comments and in every word, as far as they are more than half
a thousandth; a size that is not is shown as zero. The height is never shown below zero.
-/
theorem compile_tells (m : Machine) (h : m.check = .ok ()) (d : Drawing) :
    (0 < Double.value m.feedRate ∧ 0 < Double.value m.cutDepth ∧
      0 < Double.value m.toolDiameter) ∧
    Tells (compile m d) "Feed rate: " " mm/min" (Visible (Double.value m.feedRate)) ∧
    Tells (compile m d) "Cut depth: " "mm" (Visible (Double.value m.cutDepth)) ∧
    Tells (compile m d) "Tool diameter: " "mm" (Visible (Double.value m.toolDiameter)) ∧
    Tells (compile m d) "Safe height: " "mm" (0 ≤ ·) ∧
    ∀ line ∈ splitLines (compile m d).toList,
      (∀ number, 'F' :: number ∈ words line →
        Denotes (Visible (Double.value m.feedRate)) number) ∧
      (code? line = some ['G', '0', '1'] → ∀ number, 'Z' :: number ∈ words line →
        Denotes (fun q => Visible (Double.value m.cutDepth) (-q)) number) := by
  obtain ⟨⟨hfeed, hfeedLt⟩, ⟨hheight, hheightLe⟩, ⟨hdepth, hdepthLt⟩, hdiameter, hdiameterLt⟩ :=
    Machine.sizes_of_check h
  have hfeedPos := Double.value_pos_of_lt hfeed hfeedLt
  have hheightNonneg := Double.value_nonneg_of_le hheight hheightLe
  have hdepthPos := Double.value_pos_of_lt hdepth hdepthLt
  have hdiameterPos := Double.value_pos_of_lt hdiameter hdiameterLt
  have hmeasures := tells_compile m d
  simp only [measures, List.forall_mem_cons] at hmeasures
  obtain ⟨htool, hcut, hrate, hsafe, -⟩ := hmeasures
  refine ⟨⟨hfeedPos, hdepthPos, hdiameterPos⟩, hrate _ (visible_feedText hfeed hfeedPos.le),
    hcut _ (visible_coordinateText hdepth hdepthPos.le),
    htool _ (visible_coordinateText hdiameter hdiameterPos.le),
    hsafe _ ⟨_, value?_coordinateText hheight, Double.shown_nonneg 3 hheight hheightNonneg⟩, ?_⟩
  intro line hline
  constructor
  · intro number hword
    rw [feed_of_word hline hword]
    exact visible_feedText hfeed hfeedPos.le
  · intro hcode number hword
    rw [depth_of_word hline hcode hword]
    exact visible_coordinateText_neg hdepth hdepthPos.le

/-- A machine whose feed is four ten-thousandths. -/
def creeping : Machine := { Machine.standard with feedRate := Double.ofDecimal false 4 (-4) }

/-- It passes the check, and its feed is shown as zero. -/
theorem compile_tells_creeping :
    creeping.check = .ok () ∧ 0 < Double.value creeping.feedRate ∧
      Tells (compile creeping ⟨[⟨"c", .circle ⟨0, 0⟩ 5⟩]⟩) "Feed rate: " " mm/min" (· = 0) := by
  have hcheck : creeping.check = .ok () := by decide +kernel
  have hsmall : ¬ 1 / 2000 < Double.value creeping.feedRate := by decide +kernel
  obtain ⟨⟨hfeed, -⟩, ⟨hshown, htells⟩, -⟩ :=
    compile_tells creeping hcheck ⟨[⟨"c", .circle ⟨0, 0⟩ 5⟩]⟩
  refine ⟨hcheck, hfeed, hshown, ?_⟩
  intro number hnumber
  obtain ⟨q, hq, hnonneg, hvisible⟩ := htells number hnumber
  exact ⟨q, hq, le_antisymm (not_lt.mp fun hpos => hsmall (hvisible.mp hpos)) hnonneg⟩

end Program

end Milling
