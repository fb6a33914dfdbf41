import Milling.Proofs.Markers
import Milling.Proofs.Sums

/-!
# Items that are left out

An item that cannot be planned leaves one comment in the program and a blank line behind
it, and nothing else: no instruction, and nothing in the length that the program shows for
all cuts. Whoever takes these two lines out of the text for every such item has the program
of the drawing without them, to the last character.

Which lines these are is read from the text alone, as `Caption.read?` reads it, so a name
that imitates the comment of an item that is left out does not count as one.
-/

namespace Milling

open Text (joinLines joinLines_splitLines splitLines)

/-- Whether an item can be cut with a tool of the given radius. -/
def Item.cuttable (radius : Float) (item : Item Float) : Bool :=
  !(Plan.ofItem radius item).caption.skipped

/-- What is left of a drawing without the items that cannot be cut. -/
def Drawing.cuttable (radius : Float) (d : Drawing) : Drawing :=
  ⟨d.items.filter (Item.cuttable radius)⟩

namespace Program

/-! ## Taking lines out of a program -/

/-- Whether a line tells of an item that is left out. -/
def omits (line : List Char) : Bool := introduces line && (Caption.read? line).any Caption.skipped

/-- Lines without those that tell of an item that is left out, and the blank line behind each. -/
def pruned : List (List Char) → List (List Char)
  | [] => []
  | [line] => [line]
  | line :: next :: rest =>
    if omits line && next.isEmpty then pruned rest else line :: pruned (next :: rest)

theorem pruned_cons {line : List Char} (h : omits line = false) (rest : List (List Char)) :
    pruned (line :: rest) = line :: pruned rest := by
  cases rest with
  | nil => rfl
  | cons next rest => rw [pruned, h, Bool.false_and, if_neg Bool.false_ne_true]

theorem pruned_append {before : List (List Char)} (h : ∀ line ∈ before, omits line = false)
    (after : List (List Char)) : pruned (before ++ after) = before ++ pruned after := by
  induction before with
  | nil => rfl
  | cons line before ih =>
      obtain ⟨hline, hbefore⟩ := List.forall_mem_cons.mp h
      rw [List.cons_append, pruned_cons hline, ih hbefore, List.cons_append]

theorem pruned_omitted {line : List Char} (h : omits line = true) (rest : List (List Char)) :
    pruned (line :: [] :: rest) = pruned rest := by
  rw [pruned, h, Bool.true_and, List.isEmpty_nil, if_pos rfl]

theorem instructs_of_omits {line : List Char} (h : omits line = true) :
    instructs line = false := by
  cases hline : instructs line with
  | false => rfl
  | true =>
      rw [omits, introduces_of_instructs hline] at h
      cases h

/-- What is taken out holds no instruction, whatever the lines are. -/
theorem filter_instructs_pruned (lines : List (List Char)) :
    (pruned lines).filter instructs = lines.filter instructs := by
  induction lines using pruned.induct with
  | case1 => rfl
  | case2 line => rfl
  | case3 line next rest h ih =>
      obtain ⟨homits, hempty⟩ := Bool.and_eq_true_iff.mp h
      have hline := instructs_of_omits homits
      obtain rfl := List.isEmpty_iff.mp hempty
      rw [pruned, if_pos h, ih, List.filter_cons_of_neg (by simp [hline])]
      rfl
  | case4 line next rest h ih =>
      rw [pruned, if_neg h]
      cases hline : instructs line with
      | true => rw [List.filter_cons_of_pos hline, List.filter_cons_of_pos hline, ih]
      | false =>
          rw [List.filter_cons_of_neg (by simp [hline]), List.filter_cons_of_neg (by simp [hline]),
            ih]

/-! ## The lines of a plan -/

variable {m : Machine} {plan : Plan Float} {plans : List (Plan Float)}

/-- Some lines as they stand in the text of a program. -/
def spelledOut (lines : List Line) : List (List Char) := lines.map fun line => line.text.toList

theorem omits_of_not_introduces {line : List Char} (h : introduces line = false) :
    omits line = false := by
  rw [omits, h, Bool.false_and]

/-- The comment in front of a plan tells whether it is left out. -/
theorem omits_marker (h : plan.Reasoned) :
    omits (Line.comment (marker plan)).text.toList = plan.caption.skipped := by
  have hread : Caption.read? (Line.comment (marker plan)).text.toList =
      some { plan.caption with id := commentText plan.id } := read?_marker h
  have hintroduces : introduces (Line.comment (marker plan)).text.toList = true := by
    simp [introduces_comment, marker, String.toList_append]
  rw [omits, hintroduces, hread]
  rfl

theorem omits_instruction (i : Instruction) : omits i.text.toList = false :=
  omits_of_not_introduces (introduces_instruction i)

theorem omits_blank : omits Line.blank.text.toList = false :=
  omits_of_not_introduces (by decide)

/-- The instructions of an item tell of nothing, and neither does the blank line behind them. -/
theorem omits_instructions (is : List Instruction) :
    ∀ line ∈ spelledOut (is.map .instruction ++ [.blank]), omits line = false := by
  intro line hline
  obtain ⟨l, hl, rfl⟩ := List.mem_map.mp hline
  rcases List.mem_append.mp hl with hl | hl
  · obtain ⟨i, -, rfl⟩ := List.mem_map.mp hl
    exact omits_instruction i
  · obtain rfl := List.mem_singleton.mp hl
    exact omits_blank

/-- **An item that is left out has its comment and a blank line**, and no instruction. -/
theorem ofPlan_of_skipped (m : Machine) (h : plan.caption.skipped = true) :
    ofPlan m plan = [.comment (marker plan), .blank] := by
  rw [ofPlan, Plan.paths]
  cases houtcome : plan.outcome with
  | error fault => rfl
  | ok paths =>
      rw [Plan.caption, houtcome] at h
      cases h

theorem spelledOut_ofPlan (m : Machine) (plan : Plan Float) :
    spelledOut (ofPlan m plan) = (Line.comment (marker plan)).text.toList ::
      spelledOut ((plan.paths.flatMap (ofPath m)).map .instruction ++ [.blank]) := rfl

/-! ## The lines of a program -/

theorem pruned_ofPlans (m : Machine) (hplans : ∀ plan ∈ plans, plan.Reasoned)
    (rest : List (List Char)) :
    pruned (spelledOut (plans.flatMap (ofPlan m)) ++ rest) =
      spelledOut ((plans.filter (!·.caption.skipped)).flatMap (ofPlan m)) ++ pruned rest := by
  induction plans with
  | nil => rfl
  | cons plan plans ih =>
      obtain ⟨hplan, hplans⟩ := List.forall_mem_cons.mp hplans
      have ih := ih hplans
      rw [List.flatMap_cons, spelledOut, List.map_append, List.append_assoc]
      cases hskipped : plan.caption.skipped with
      | true =>
          rw [List.filter_cons_of_neg (by simp [hskipped]), ofPlan_of_skipped m hskipped]
          exact (pruned_omitted ((omits_marker hplan).trans hskipped) _).trans ih
      | false =>
          rw [List.filter_cons_of_pos (by simp [hskipped]), List.flatMap_cons, spelledOut,
            List.map_append, List.append_assoc]
          have hlines : ∀ line ∈ spelledOut (ofPlan m plan), omits line = false := by
            rw [spelledOut_ofPlan]
            exact List.forall_mem_cons.mpr
              ⟨(omits_marker hplan).trans hskipped, omits_instructions _⟩
          rw [← spelledOut, pruned_append hlines]
          exact congrArg (spelledOut (ofPlan m plan) ++ ·) ih

theorem omits_header (m : Machine) (totalLength : Float) :
    ∀ line ∈ spelledOut (header m totalLength), omits line = false := by
  have hnone := filter_introduces_header m totalLength
  rw [List.filter_eq_nil_iff] at hnone
  exact fun line hline => omits_of_not_introduces (by simpa using hnone line hline)

theorem omits_footer : ∀ line ∈ spelledOut footer ++ [[]], omits line = false := by
  decide

/-- What is left out adds nothing to the length that is shown. -/
theorem header_cuttable (m : Machine) (plans : List (Plan Float)) :
    header m (totalLength plans) =
      header m (totalLength (plans.filter (!·.caption.skipped))) := by
  have hzero : ∀ plan ∈ plans, (!plan.caption.skipped) = false →
      plan.length .double = Scalar.zero := by
    intro plan _ hskipped
    rw [Plan.length, Plan.paths]
    cases houtcome : plan.outcome with
    | error fault => rfl
    | ok paths =>
        rw [Plan.caption, houtcome] at hskipped
        cases hskipped
  have hshown : coordinateText (totalLength plans) =
      coordinateText (totalLength (plans.filter (!·.caption.skipped))) :=
    coordinateText_of_agree (Plan.agree_sum_filter hzero)
  rw [header, header, hshown]

/-- To take out what is left out of a program is to leave it out of the plans. -/
theorem pruned_emit (m : Machine) (hplans : ∀ plan ∈ plans, plan.Reasoned) :
    pruned (splitLines (emit m plans).toList) =
      splitLines (emit m (plans.filter (!·.caption.skipped))).toList := by
  have hkept : ∀ plan ∈ plans.filter (!·.caption.skipped), plan.Reasoned :=
    fun plan hplan => hplans plan (List.mem_of_mem_filter hplan)
  rw [splitLines_emit m hplans, splitLines_emit m hkept, ofPlans, ofPlans, ← header_cuttable,
    List.map_append, List.map_append, List.map_append, List.map_append, List.append_assoc,
    List.append_assoc, List.append_assoc, List.append_assoc]
  refine (pruned_append (omits_header m _) _).trans (congrArg _ ?_)
  refine (pruned_ofPlans m hplans _).trans (congrArg _ ?_)
  have hfooter := pruned_append omits_footer []
  rw [List.append_nil] at hfooter
  exact hfooter.trans (List.append_nil _)

/-- The lines that tell of items that are left out are the comments of these items, in order. -/
theorem filter_omits_emit (m : Machine) (hplans : ∀ plan ∈ plans, plan.Reasoned) :
    (splitLines (emit m plans).toList).filter omits =
      (plans.filter (·.caption.skipped)).map fun plan => ("; " ++ marker plan).toList := by
  have hmarkers : ∀ plan ∈ plans,
      (Caption.read? ("; " ++ marker plan).toList).any Caption.skipped = plan.caption.skipped := by
    intro plan hplan
    rw [read?_marker (hplans plan hplan)]
    rfl
  have hkept : plans.filter ((fun line => (Caption.read? line).any Caption.skipped) ∘
      fun plan => ("; " ++ marker plan).toList) = plans.filter (·.caption.skipped) := by
    refine List.filter_congr fun plan hplan => ?_
    rw [Function.comp_apply, hmarkers plan hplan]
  have hboth : ∀ lines : List (List Char), lines.filter omits =
      (lines.filter introduces).filter fun line => (Caption.read? line).any Caption.skipped := by
    intro lines
    rw [List.filter_filter]
    exact List.filter_congr fun line _ => Bool.and_comm _ _
  rw [hboth, filter_introduces_emit m hplans, List.filter_map, hkept]

/-! ## Compiled programs -/

theorem plans_cuttable (radius : Float) (d : Drawing) :
    (d.cuttable radius).items.map (Plan.ofItem radius) =
      (d.items.map (Plan.ofItem radius)).filter (!·.caption.skipped) := by
  rw [List.filter_map]
  rfl

/--
**An item that is left out leaves nothing else behind.** Without the comments of the items
that are left out, and the blank line behind each, a compiled program is that of the drawing
without these items, to the last character and with the same length of all cuts. The
comments that are taken out are one for each such item, in order, and the instructions of
the program are all those of the items that are cut.
-/
theorem compile_cuttable (m : Machine) (d : Drawing) :
    String.ofList (joinLines (pruned (splitLines (compile m d).toList))) =
        compile m (d.cuttable m.toolRadius) ∧
      (splitLines (compile m d).toList).filter omits =
        (d.items.filter (!·.cuttable m.toolRadius)).map
          (fun item => ("; " ++ marker (Plan.ofItem m.toolRadius item)).toList) ∧
      (splitLines (compile m d).toList).filter instructs =
        (splitLines (compile m (d.cuttable m.toolRadius)).toList).filter instructs := by
  have hreasoned : ∀ plan ∈ d.items.map (Plan.ofItem m.toolRadius), plan.Reasoned :=
    Plan.reasoned_of_mem
  have hpruned : pruned (splitLines (compile m d).toList) =
      splitLines (compile m (d.cuttable m.toolRadius)).toList := by
    rw [compile, pruned_emit m hreasoned, ← plans_cuttable]
    rfl
  have homitted : d.items.filter ((fun plan => plan.caption.skipped) ∘ Plan.ofItem m.toolRadius) =
      d.items.filter (!·.cuttable m.toolRadius) :=
    List.filter_congr fun item _ => (Bool.not_not _).symm
  refine ⟨?_, ?_, ?_⟩
  · rw [hpruned, joinLines_splitLines, String.ofList_toList]
  · rw [compile, filter_omits_emit m hreasoned, List.filter_map, homitted, List.map_map]
    rfl
  · rw [← filter_instructs_pruned, hpruned]

end Program

end Milling
