import Milling.Proofs.Emission

/-!
# Reading a program for what it introduces

The comment in front of the lines of an item gives its name, its kind and, where the item
is left out, a reason. Names are free to hold what looks like the rest of such a comment:
a kind in parentheses, the words for an item that is left out, another semicolon. Read from
the left a comment is therefore ambiguous. Read from the right it is not, since neither a
reason nor a kind holds a parenthesis: the last closing one ends the kind, and the last
opening one before it begins the kind.
-/

namespace Milling

open Text (Unbroken splitLines)

/-- What the comment in front of an item tells of it. -/
structure Caption where
  id : String
  kind : Shape.Kind
  skipped : Bool
deriving DecidableEq, Repr

/-- What is to be told of an item that is planned. -/
def Plan.caption {α : Type} (plan : Plan α) : Caption :=
  { id := plan.id, kind := plan.kind
    skipped := match plan.outcome with | .ok _ => false | .error _ => true }

namespace Caption

/-- What stands before the last place of a character, and what stands behind it. -/
def cutLast (c : Char) : List Char → Option (List Char × List Char)
  | [] => none
  | d :: rest =>
    match cutLast c rest with
    | some (before, after) => some (d :: before, after)
    | none => if d = c then some ([], rest) else none

/-- Reads the comment in front of an item, from its end. -/
def read? (line : List Char) : Option Caption := do
  let (named, reason) ← cutLast ')' line
  let (name, kind) ← cutLast '(' named
  let kind ← Shape.Kind.ofName? (String.ofList kind)
  return ⟨String.ofList ((name.drop "; Shape ".toList.length).dropLast), kind, !reason.isEmpty⟩

theorem cutLast_eq_none {c : Char} {s : List Char} (h : c ∉ s) : cutLast c s = none := by
  induction s with
  | nil => rfl
  | cons d rest ih =>
      rw [List.mem_cons, not_or] at h
      rw [cutLast, ih h.2]
      exact if_neg (Ne.symm h.1)

theorem cutLast_append {c : Char} {after : List Char} (h : c ∉ after) (before : List Char) :
    cutLast c (before ++ c :: after) = some (before, after) := by
  induction before with
  | nil =>
      rw [List.nil_append, cutLast, cutLast_eq_none h]
      exact if_pos rfl
  | cons d before ih => rw [List.cons_append, cutLast, ih]

end Caption

namespace Program

open Caption (cutLast cutLast_append)

/-! ## One comment -/

/-- What follows the kind of an item in its comment. -/
def reasonText (plan : Plan Float) : String :=
  match plan.outcome with
  | .ok _ => ""
  | .error fault => " skipped: " ++ fault.message

theorem marker_eq (plan : Plan Float) :
    marker plan = "Shape " ++ commentText plan.id ++ " (" ++ plan.kind.name ++ ")" ++
      reasonText plan := by
  unfold marker reasonText
  cases plan.outcome with
  | ok paths => rfl
  | error fault => rfl

/-- No reason holds a closing parenthesis. -/
theorem parenthesis_not_mem_reasonText {plan : Plan Float} (h : plan.Reasoned) :
    ')' ∉ (reasonText plan).toList := by
  rw [reasonText]
  cases houtcome : plan.outcome with
  | ok paths => exact List.not_mem_nil
  | error fault =>
      intro hmem
      rcases List.mem_append.mp (String.toList_append ▸ hmem) with hmem | hmem
      · exact absurd hmem (by decide)
      · exact absurd (prose_message (h fault houtcome) _ hmem) (by decide)

/-- There is a reason exactly if the item is left out. -/
theorem isEmpty_reasonText (plan : Plan Float) :
    (!(reasonText plan).toList.isEmpty) = plan.caption.skipped := by
  rw [reasonText, Plan.caption]
  cases plan.outcome with
  | ok paths => rfl
  | error fault =>
      rw [String.toList_append]
      rfl

theorem parenthesis_not_mem_name (kind : Shape.Kind) : '(' ∉ kind.name.toList := by
  cases kind with
  | rectangle => decide
  | circle => decide
  | text => decide

theorem ofName?_name (kind : Shape.Kind) : Shape.Kind.ofName? kind.name = some kind := by
  cases kind with
  | rectangle => decide
  | circle => decide
  | text => decide

/-- **The comment in front of an item can be read.** The name is the one that it shows. -/
theorem read?_marker {plan : Plan Float} (h : plan.Reasoned) :
    Caption.read? ("; " ++ marker plan).toList =
      some { plan.caption with id := commentText plan.id } := by
  have hline : ("; " ++ marker plan).toList =
      ("; Shape ".toList ++ ((commentText plan.id).toList ++ [' ']) ++
        '(' :: plan.kind.name.toList) ++ ')' :: (reasonText plan).toList := by
    rw [marker_eq]
    simp [String.toList_append]
  rw [Caption.read?, hline, cutLast_append (parenthesis_not_mem_reasonText h), Option.bind_eq_bind,
    Option.bind_some]
  dsimp only
  rw [cutLast_append (parenthesis_not_mem_name plan.kind), Option.bind_eq_bind, Option.bind_some]
  dsimp only
  rw [String.ofList_toList, ofName?_name, Option.bind_some, isEmpty_reasonText,
    List.drop_left, List.dropLast_concat, String.ofList_toList]
  rfl

/-! ## All comments of a program -/

/-- What a program tells of its items. -/
def captions (program : String) : List Caption :=
  ((splitLines program.toList).filter introduces).filterMap Caption.read?

theorem filter_introduces_emit (m : Machine) {plans : List (Plan Float)}
    (h : ∀ plan ∈ plans, plan.Reasoned) :
    (splitLines (emit m plans).toList).filter introduces =
      plans.map fun plan => ("; " ++ marker plan).toList := by
  rw [splitLines_emit m h, List.filter_append, filter_introduces_ofPlans]
  simp [introduces]

/-- **A program tells of every item, in order, and of nothing else.** -/
theorem captions_emit (m : Machine) {plans : List (Plan Float)}
    (h : ∀ plan ∈ plans, plan.Reasoned) :
    captions (emit m plans) =
      plans.map fun plan => { plan.caption with id := commentText plan.id } := by
  rw [captions, filter_introduces_emit m h, List.filterMap_map]
  clear m
  induction plans with
  | nil => rfl
  | cons plan plans ih =>
      obtain ⟨hplan, hplans⟩ := List.forall_mem_cons.mp h
      rw [List.filterMap_cons, Function.comp_apply, read?_marker hplan, ih hplans]
      rfl

/-- A comment shows a name that may stand in a drawing as it is. -/
theorem commentText_of_valid {id : String} (h : Item.validId id = true) : commentText id = id := by
  have hcontrol : ∀ c ∈ id.toList, Text.isControl c = false := by
    simpa using (Bool.and_eq_true_iff.mp h).2
  have hsame : id.toList.map (fun c => if Text.isControl c then '?' else c) = id.toList := by
    rw [List.map_congr_left fun c hc => if_neg (by rw [hcontrol c hc]; decide)]
    exact List.map_id' _
  rw [commentText, hsame, String.ofList_toList]

variable {d d₁ d₂ : Drawing}

/-- A drawing's plans, as a program is written from them. -/
theorem captions_emit_ofItem (m : Machine) (r : Float)
    (h : ∀ item ∈ d.items, Item.validId item.id = true) :
    captions (emit m (d.items.map (Plan.ofItem r))) =
      (d.items.map (Plan.ofItem r)).map Plan.caption := by
  rw [captions_emit m Plan.reasoned_of_mem]
  refine List.map_congr_left fun plan hplan => ?_
  obtain ⟨item, hitem, rfl⟩ := List.mem_map.mp hplan
  have hname : commentText (Plan.ofItem r item).id = (Plan.ofItem r item).id :=
    commentText_of_valid (h item hitem)
  rw [hname]
  rfl

/--
**A program identifies what it was written for.** If the plans of two drawings give the same
program, with any two tools and on any two machines, then the plans are of items of the same
names and kinds in the same order, and the same items are left out. Every name that may stand
in a drawing is shown as it is.
-/
theorem emit_identifies (m₁ m₂ : Machine) (r₁ r₂ : Float)
    (h₁ : ∀ item ∈ d₁.items, Item.validId item.id = true)
    (h₂ : ∀ item ∈ d₂.items, Item.validId item.id = true) :
    (emit m₁ (d₁.items.map (Plan.ofItem r₁)) = emit m₂ (d₂.items.map (Plan.ofItem r₂)) →
      (d₁.items.map (Plan.ofItem r₁)).map Plan.caption =
        (d₂.items.map (Plan.ofItem r₂)).map Plan.caption) ∧
    ∀ plan ∈ d₁.items.map (Plan.ofItem r₁),
      marker plan = "Shape " ++ plan.id ++ " (" ++ plan.kind.name ++ ")" ++ reasonText plan := by
  constructor
  · intro heq
    rw [← captions_emit_ofItem m₁ r₁ h₁, heq, captions_emit_ofItem m₂ r₂ h₂]
  · intro plan hplan
    obtain ⟨item, hitem, rfl⟩ := List.mem_map.mp hplan
    have hname : commentText (Plan.ofItem r₁ item).id = (Plan.ofItem r₁ item).id :=
      commentText_of_valid (h₁ item hitem)
    rw [marker_eq, hname]

/-- A circle without a radius whose name looks like the comment of a lettering left out. -/
def imitating : Drawing := ⟨[⟨"a (Text) skipped: b", .circle ⟨0, 0⟩ 0⟩]⟩

/-- A lettering with the name that is imitated. -/
def imitated : Drawing := ⟨[⟨"a", .text ⟨0, 0⟩ "b" 0⟩]⟩

/-- Its marker is told apart, and is the same again for another tool and a machine that
differs by less than a program shows. -/
theorem emit_identifies_imitating :
    ((∀ item ∈ imitating.items, Item.validId item.id = true) ∧
      ∀ item ∈ imitated.items, Item.validId item.id = true) ∧
    emit Machine.standard (imitating.items.map (Plan.ofItem 1)) ≠
      emit Machine.standard (imitated.items.map (Plan.ofItem 1)) ∧
    emit Machine.standard (imitating.items.map (Plan.ofItem 1)) =
      emit { Machine.standard with safeHeight := 5.0001 } (imitating.items.map (Plan.ofItem 2)) ∧
    (imitating.items.map (Plan.ofItem 1)).map Plan.caption =
      (imitating.items.map (Plan.ofItem 2)).map Plan.caption := by
  have h₁ : ∀ item ∈ imitating.items, Item.validId item.id = true := by decide +kernel
  have h₂ : ∀ item ∈ imitated.items, Item.validId item.id = true := by decide +kernel
  have hsame : emit Machine.standard (imitating.items.map (Plan.ofItem 1)) =
      emit { Machine.standard with safeHeight := 5.0001 }
        (imitating.items.map (Plan.ofItem 2)) := by decide +kernel
  refine ⟨⟨h₁, h₂⟩, ?_, hsame, (emit_identifies _ _ 1 2 h₁ h₁).1 hsame⟩
  intro heq
  have hcaptions := (emit_identifies _ _ 1 1 h₁ h₂).1 heq
  exact absurd hcaptions (by decide +kernel)

end Program

end Milling
