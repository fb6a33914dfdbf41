import Milling.Proofs.Edits
import Milling.Proofs.History

/-!
# Operations of a session, taken in another order

A session is fed by two hands. One changes the drawing and the machine, the other
writes, explains and regenerates the text. The first hand never notices the second:
whatever is done to the text in between, every change is answered as before and
leads to the same drawing, and a request to derive the text shows nothing of what
was written before it.

Changes notice each other only where they concern the same thing. What a change
answers is read off one place of the drawing, and what it does is done at that
place, so two changes that concern different things can be made in either order.
Nothing of this rests on names that differ or on a text in step with the drawing: a
change searches for its name from the front, and no other change puts that name in
front or takes it away.
-/

namespace Milling.Session

open Drawing (replaceFirst)

/-! ## What a change does -/

/-- Whether an operation is about the drawing or the machine; events are about the text. -/
def Operation.isChange : Operation → Bool
  | .event _ => false
  | _ => true

/-- Whether an operation was not performed. -/
def Answer.isRefusal : Answer → Bool
  | .refused _ => true
  | _ => false

namespace Operation

/-- What an operation answers, read off the drawing. -/
def answer (d : Drawing) : Operation → Answer
  | .add id _ => .added id
  | .update item => if (d.get? item.id).isSome then .done else .refused (.unknown item.id)
  | .remove id =>
    match d.get? id with
    | some item => .removed item
    | none => .refused (.unknown id)
  | _ => .done

/-- The drawing that an operation makes of one. A name that is not there is not put there. -/
def redraw (d : Drawing) : Operation → Drawing
  | .add id shape => d.push id shape
  | .update item => ⟨replaceFirst item d.items⟩
  | .remove id => ⟨d.items.eraseP (·.id = id)⟩
  | .replace drawing => drawing
  | _ => d

/-- The machine after an operation. -/
def retool (m : Machine) : Operation → Machine
  | .setMachine machine => machine
  | _ => m

end Operation

/-- The session with another drawing and another machine, told of the change once. -/
def settle (s : Session) (d : Drawing) (m : Machine) : Session :=
  { s with drawing := d, machine := m }.dispatch .drawingChanged

theorem settle_parts (s : Session) (d : Drawing) (m : Machine) :
    (s.settle d m).drawing = d ∧ (s.settle d m).machine = m ∧ (s.settle d m).mode = s.mode := by
  unfold settle dispatch
  cases s.mode with
  | derived => exact ⟨rfl, rfl, rfl⟩
  | manual => exact ⟨rfl, rfl, rfl⟩

/-- Only the last change shows. -/
theorem settle_settle (s : Session) (d d' : Drawing) (m m' : Machine) :
    (s.settle d m).settle d' m' = s.settle d' m' := by
  unfold settle dispatch
  cases hmode : s.mode with
  | derived => simp only [derivedProgram]
  | manual => simp only

/-- **A change is answered by the drawing and made to it**, in one step, unless it is refused. -/
theorem perform_eq (s : Session) {o : Operation} (h : o.isChange) :
    s.perform o =
      (o.answer s.drawing,
        if (o.answer s.drawing).isRefusal then s
        else s.settle (o.redraw s.drawing) (o.retool s.machine)) := by
  cases o with
  | add id shape => rfl
  | update item =>
      rw [perform, Drawing.update, Operation.answer]
      by_cases hid : (s.drawing.get? item.id).isSome
      · simp only [if_pos hid]
        rfl
      · simp only [if_neg hid]
        rfl
  | remove id =>
      rw [perform, Drawing.remove, Operation.answer]
      cases s.drawing.get? id with
      | none => rfl
      | some item => rfl
  | replace drawing => rfl
  | setMachine machine => rfl
  | event e => exact absurd h Bool.false_ne_true

/-! ## Changes do not notice the text -/

/-- The changes in a history. -/
def changes (ops : List Operation) : List Operation := ops.filter Operation.isChange

/-- A history with what each operation of it answered. -/
def log (s : Session) : List Operation → List (Operation × Answer)
  | [] => []
  | o :: ops => (o, (s.perform o).1) :: log (s.perform o).2 ops

/-- Two sessions with the same drawing and the same machine, whatever their texts are. -/
structure Alike (s t : Session) : Prop where
  drawing : s.drawing = t.drawing
  machine : s.machine = t.machine

theorem Alike.refl (s : Session) : Alike s s := ⟨rfl, rfl⟩

/-- An event changes nothing that a change could notice. -/
theorem dispatch_alike (s : Session) (e : Event) : Alike (s.dispatch e) s := by
  cases e with
  | drawingChanged =>
      rw [dispatch]
      cases s.mode with
      | derived => exact ⟨rfl, rfl⟩
      | manual => exact ⟨rfl, rfl⟩
  | edited text => exact ⟨rfl, rfl⟩
  | regenerate => exact ⟨rfl, rfl⟩
  | annotated explanation => exact ⟨rfl, rfl⟩

/-- A change gives alike sessions the same answer, and they stay alike. -/
theorem perform_alike {s t : Session} (h : Alike s t) {o : Operation} (ho : o.isChange) :
    (s.perform o).1 = (t.perform o).1 ∧ Alike (s.perform o).2 (t.perform o).2 := by
  rw [perform_eq s ho, perform_eq t ho, h.drawing, h.machine]
  refine ⟨rfl, ?_⟩
  by_cases hrefused : (o.answer t.drawing).isRefusal
  · rw [if_pos hrefused, if_pos hrefused]
    exact h
  · obtain ⟨hd, hm, -⟩ := settle_parts s (o.redraw t.drawing) (o.retool t.machine)
    obtain ⟨hd', hm', -⟩ := settle_parts t (o.redraw t.drawing) (o.retool t.machine)
    rw [if_neg hrefused, if_neg hrefused]
    exact ⟨hd.trans hd'.symm, hm.trans hm'.symm⟩

/-- **A history and its changes alone** are answered alike and lead to alike sessions. -/
theorem run_changes_alike {s t : Session} (h : Alike s t) (ops : List Operation) :
    (log s ops).filter (·.1.isChange) = log t (changes ops) ∧
      Alike (s.run ops) (t.run (changes ops)) := by
  induction ops generalizing s t with
  | nil => exact ⟨rfl, h⟩
  | cons o ops ih =>
      cases ho : o.isChange with
      | true =>
          obtain ⟨hanswer, halike⟩ := perform_alike h ho
          obtain ⟨hlog, hrun⟩ := ih halike
          simp only [changes, log, List.filter_cons, ho, if_true]
          exact ⟨by rw [hanswer, hlog, changes], hrun⟩
      | false =>
          -- an event, which the session that makes the changes alone does not see
          have hskip : ¬ o.isChange = true := by simp [ho]
          have halike : Alike (s.perform o).2 t := by
            cases o with
            | event e =>
                obtain ⟨hd, hm⟩ := dispatch_alike s e
                exact ⟨hd.trans h.drawing, hm.trans h.machine⟩
            | _ => exact absurd rfl hskip
          simp only [changes, log, List.filter_cons, ho, if_neg Bool.false_ne_true]
          exact ih halike

/-- A derived text is the one that the drawing compiles to. -/
def InStep (s : Session) : Prop := s.mode = .derived → s.program = s.derivedProgram

theorem inStep_start (d : Drawing) (m : Machine) : InStep (start d m) := by
  intro _
  rw [start, derivedProgram]

theorem inStep_perform {s : Session} (h : InStep s) (o : Operation) :
    InStep (s.perform o).2 := by
  intro hmode
  by_cases hquiet : o.fixesText = false ∧ o.explanation? = none
  · obtain ⟨hsame, -, hderived⟩ := perform_quiet s hquiet.1 hquiet.2
    rw [hsame] at hmode
    exact hderived hmode (h hmode)
  · -- of the others, only a request to derive leaves the text derived
    cases o with
    | event e =>
        cases e with
        | regenerate => rw [perform, dispatch, derivedProgram, derivedProgram]
        | edited text => simp [perform, dispatch] at hmode
        | annotated explanation => simp [perform, dispatch] at hmode
        | drawingChanged => exact absurd ⟨rfl, rfl⟩ hquiet
    | _ => exact absurd ⟨rfl, rfl⟩ hquiet

theorem inStep_run {s : Session} (h : InStep s) (ops : List Operation) : InStep (s.run ops) := by
  induction ops generalizing s with
  | nil => exact h
  | cons o ops ih => exact ih (inStep_perform h o)

theorem program_regenerate (s : Session) (ops : List Operation) :
    (s.run (ops ++ [.event .regenerate])).program = (s.run ops).derivedProgram := by
  rw [run_concat, perform, dispatch]

/-- Changes alone never touch the mode. -/
theorem mode_run_changes (s : Session) (ops : List Operation) (h : ∀ o ∈ ops, o.isChange) :
    (s.run ops).mode = s.mode := by
  induction ops generalizing s with
  | nil => rfl
  | cons o ops ih =>
      obtain ⟨ho, hops⟩ := List.forall_mem_cons.mp h
      have hmode : (s.perform o).2.mode = s.mode := by
        rw [perform_eq s ho]
        dsimp only
        split
        · rfl
        · exact (settle_parts s _ _).2.2
      exact (ih (s.perform o).2 hops).trans hmode

/--
**The text leaves no trace in the drawing or the machine.** Without the events, the
changes of a history are answered as they were, refusals included, and lead to the
same drawing and the same machine, in a session whose text is derived throughout.
So two histories with the same changes have the same text once it is derived again,
and it is the text of every session with these changes that was never written in.
-/
theorem run_changes (d : Drawing) (m : Machine) (ops : List Operation) :
    (log (start d m) ops).filter (·.1.isChange) = log (start d m) (changes ops) ∧
      ((start d m).run ops).drawing = ((start d m).run (changes ops)).drawing ∧
      ((start d m).run ops).machine = ((start d m).run (changes ops)).machine ∧
      (∀ before, before <+: changes ops → ((start d m).run before).mode = .derived) ∧
      ∀ others, changes others = changes ops →
        ((start d m).run (others ++ [.event .regenerate])).program =
            ((start d m).run (ops ++ [.event .regenerate])).program ∧
          ((∀ before, before <+: others → ((start d m).run before).mode = .derived) →
            ((start d m).run others).program =
              ((start d m).run (ops ++ [.event .regenerate])).program) := by
  obtain ⟨hlog, halike⟩ := run_changes_alike (.refl (start d m)) ops
  refine ⟨hlog, halike.drawing, halike.machine, ?_, ?_⟩
  · intro before hbefore
    refine mode_run_changes (start d m) before fun o ho => ?_
    exact (List.mem_filter.mp (hbefore.subset ho)).2
  · intro others hothers
    obtain ⟨-, halike'⟩ := run_changes_alike (.refl (start d m)) others
    rw [hothers] at halike'
    -- a derived text is compiled from the drawing and the machine, and these agree
    have hcompiled : ((start d m).run others).derivedProgram =
        ((start d m).run ops).derivedProgram := by
      rw [derivedProgram, derivedProgram, halike.drawing, halike.machine, halike'.drawing,
        halike'.machine]
    rw [program_regenerate, program_regenerate]
    refine ⟨hcompiled, fun hderived => ?_⟩
    exact (inStep_run (inStep_start d m) others
      (hderived others (List.prefix_refl others))).trans hcompiled

/-- A circle comes and goes, and two changes to what is not there are refused. -/
def undisturbed : List Operation :=
  [.add "a" (.circle ⟨0, 0⟩ 5), .update ⟨"b", .circle ⟨0, 0⟩ 1⟩, .remove "a", .remove "a",
    .add "c" (.circle ⟨9, 9⟩ 2)]

/-- The same between all that can be done to the text. -/
def disturbed : List Operation :=
  [.event (.edited "G00 X0"), .add "a" (.circle ⟨0, 0⟩ 5), .event .drawingChanged,
    .update ⟨"b", .circle ⟨0, 0⟩ 1⟩, .event (.annotated "Goes home."), .remove "a",
    .event .regenerate, .event (.edited ""), .remove "a", .add "c" (.circle ⟨9, 9⟩ 2)]

/-- The disturbed history is answered as the quiet one is, and ends in its text. -/
theorem run_changes_disturbed :
    changes undisturbed = changes disturbed ∧
      ((log (start .empty .standard) disturbed).filter (·.1.isChange)).map Prod.snd =
        [.added "a", .refused (.unknown "b"), .removed ⟨"a", .circle ⟨0, 0⟩ 5⟩,
          .refused (.unknown "a"), .added "c"] ∧
      ((start .empty .standard).run disturbed).program = "" ∧
      ((start .empty .standard).run undisturbed).program =
        ((start .empty .standard).run (disturbed ++ [.event .regenerate])).program := by
  have hsame : changes undisturbed = changes disturbed := rfl
  obtain ⟨hlog, -, -, hderived, htext⟩ := run_changes .empty .standard disturbed
  refine ⟨hsame, ?_, by decide +kernel, ?_⟩
  · rw [hlog]
    decide +kernel
  · refine (htext undisturbed hsame).2 fun before hbefore => hderived before ?_
    exact hsame ▸ hbefore

/-! ## Changes that do not notice each other -/

/-- What a change concerns. -/
inductive Subject where
  | item (id : String)
  | machine
deriving DecidableEq, Repr

namespace Operation

/-- The one thing that an operation concerns, if it is one thing. -/
def subject? : Operation → Option Subject
  | .add id _ => some (.item id)
  | .update item => some (.item item.id)
  | .remove id => some (.item id)
  | .setMachine _ => some .machine
  | .replace _ => none
  | .event _ => none

/-- Whether an operation puts an item behind all others. -/
def adds : Operation → Bool
  | .add _ _ => true
  | _ => false

end Operation

/-- Two changes of single things, and not of the same one. -/
structure Independent (o p : Operation) : Prop where
  first : o.subject?.isSome
  second : p.subject?.isSome
  apart : o.subject? ≠ p.subject?
  /-- Of two new items, the one that is added later comes later. -/
  order : o.adds = false ∨ p.adds = false

theorem Independent.symm {o p : Operation} (h : Independent o p) : Independent p o :=
  ⟨h.second, h.first, h.apart.symm, h.order.symm⟩

theorem isChange_of_subject? {o : Operation} (h : o.subject?.isSome) : o.isChange := by
  cases o with
  | event e => exact absurd h Bool.false_ne_true
  | _ => rfl

section Items

variable {items : List (Item Float)} {item new : Item Float} {id : String}

theorem find?_replaceFirst (h : item.id ≠ id) :
    (replaceFirst item items).find? (·.id = id) = items.find? (·.id = id) := by
  induction items with
  | nil => rfl
  | cons head rest ih =>
      rw [replaceFirst]
      by_cases hhead : head.id = item.id
      · have hother : head.id ≠ id := hhead ▸ h
        rw [if_pos hhead, List.find?_cons_of_neg (by simpa using h),
          List.find?_cons_of_neg (by simpa using hother)]
      · rw [if_neg hhead, List.find?_cons, List.find?_cons, ih]

theorem find?_eraseP {other : String} (h : other ≠ id) :
    (items.eraseP (·.id = other)).find? (·.id = id) = items.find? (·.id = id) := by
  induction items with
  | nil => rfl
  | cons head rest ih =>
      by_cases hhead : head.id = other
      · have hne : head.id ≠ id := hhead ▸ h
        rw [List.eraseP_cons_of_pos (by simpa using hhead),
          List.find?_cons_of_neg (by simpa using hne)]
      · rw [List.eraseP_cons_of_neg (by simpa using hhead), List.find?_cons, List.find?_cons, ih]

theorem replaceFirst_append (h : new.id ≠ item.id) :
    replaceFirst item (items ++ [new]) = replaceFirst item items ++ [new] := by
  induction items with
  | nil => simp only [List.nil_append, replaceFirst, if_neg h]
  | cons head rest ih =>
      rw [List.cons_append, replaceFirst, replaceFirst, ih]
      split
      · rfl
      · rfl

theorem eraseP_append (h : new.id ≠ id) :
    (items ++ [new]).eraseP (·.id = id) = items.eraseP (·.id = id) ++ [new] := by
  induction items with
  | nil => exact List.eraseP_cons_of_neg (by simpa using h)
  | cons head rest ih =>
      by_cases hhead : head.id = id
      · rw [List.cons_append, List.eraseP_cons_of_pos (by simpa using hhead),
          List.eraseP_cons_of_pos (by simpa using hhead)]
      · rw [List.cons_append, List.eraseP_cons_of_neg (by simpa using hhead),
          List.eraseP_cons_of_neg (by simpa using hhead), ih, List.cons_append]

theorem replaceFirst_comm (h : item.id ≠ new.id) :
    replaceFirst item (replaceFirst new items) = replaceFirst new (replaceFirst item items) := by
  induction items with
  | nil => rfl
  | cons head rest ih =>
      by_cases hitem : head.id = item.id
      · have hnew : head.id ≠ new.id := hitem ▸ h
        simp only [replaceFirst, if_pos hitem, if_neg hnew, if_neg h]
      · by_cases hnew : head.id = new.id
        · simp only [replaceFirst, if_pos hnew, if_neg hitem, if_neg h.symm]
        · simp only [replaceFirst, if_neg hitem, if_neg hnew, ih]

theorem eraseP_replaceFirst (h : item.id ≠ id) :
    (replaceFirst item items).eraseP (·.id = id) =
      replaceFirst item (items.eraseP (·.id = id)) := by
  induction items with
  | nil => rfl
  | cons head rest ih =>
      by_cases hitem : head.id = item.id
      · have hid : head.id ≠ id := hitem ▸ h
        rw [replaceFirst, if_pos hitem, List.eraseP_cons_of_neg (by simpa using h),
          List.eraseP_cons_of_neg (by simpa using hid), replaceFirst, if_pos hitem]
      · rw [replaceFirst, if_neg hitem]
        by_cases hid : head.id = id
        · rw [List.eraseP_cons_of_pos (by simpa using hid),
            List.eraseP_cons_of_pos (by simpa using hid)]
        · rw [List.eraseP_cons_of_neg (by simpa using hid),
            List.eraseP_cons_of_neg (by simpa using hid), replaceFirst, if_neg hitem, ih]

end Items

variable {o p : Operation}

/-- A change does not touch what is found under a name that it does not concern. -/
theorem get?_redraw (ho : o.subject?.isSome) {id : String} (h : o.subject? ≠ some (.item id))
    (d : Drawing) : (o.redraw d).get? id = d.get? id := by
  have hne : ∀ other, o.subject? = some (.item other) → other ≠ id := by
    intro other hother heq
    exact h (heq ▸ hother)
  cases o with
  | add new shape =>
      rw [Operation.redraw, Drawing.get?_push, if_neg (hne new rfl), Option.or_none]
  | update item => exact find?_replaceFirst (hne item.id rfl)
  | remove other => exact find?_eraseP (hne other rfl)
  | setMachine machine => rfl
  | replace drawing => exact absurd ho Bool.false_ne_true
  | event e => exact absurd ho Bool.false_ne_true

/-- A change is answered the same before and after one that concerns something else. -/
theorem answer_redraw (h : Independent o p) (d : Drawing) :
    p.answer (o.redraw d) = p.answer d := by
  have hfind : ∀ id, p.subject? = some (.item id) → (o.redraw d).get? id = d.get? id := by
    intro id hp
    exact get?_redraw h.first (hp ▸ h.apart) d
  cases p with
  | update item => rw [Operation.answer, hfind item.id rfl, Operation.answer]
  | remove id => rw [Operation.answer, hfind id rfl, Operation.answer]
  | _ => rfl

/-- **Changes at different places of a drawing can be made in either order.** -/
theorem redraw_comm (h : Independent o p) (d : Drawing) :
    o.redraw (p.redraw d) = p.redraw (o.redraw d) := by
  have hne : ∀ id other, o.subject? = some (.item id) → p.subject? = some (.item other) →
      id ≠ other := by
    intro id other hid hother heq
    exact h.apart (by rw [hid, hother, heq])
  cases o with
  | add new shape =>
      cases p with
      | add other shape' => exact absurd h.order (by simp [Operation.adds])
      | update item => exact congrArg Drawing.mk (replaceFirst_append (hne _ _ rfl rfl)).symm
      | remove id => exact congrArg Drawing.mk (eraseP_append (hne _ _ rfl rfl)).symm
      | setMachine machine => rfl
      | _ => exact absurd h.second Bool.false_ne_true
  | update item =>
      cases p with
      | add new shape => exact congrArg Drawing.mk (replaceFirst_append (hne _ _ rfl rfl).symm)
      | update item' => exact congrArg Drawing.mk (replaceFirst_comm (hne _ _ rfl rfl))
      | remove id => exact congrArg Drawing.mk (eraseP_replaceFirst (hne _ _ rfl rfl)).symm
      | setMachine machine => rfl
      | _ => exact absurd h.second Bool.false_ne_true
  | remove id =>
      cases p with
      | add new shape => exact congrArg Drawing.mk (eraseP_append (hne _ _ rfl rfl).symm)
      | update item => exact congrArg Drawing.mk (eraseP_replaceFirst (hne _ _ rfl rfl).symm)
      | remove other =>
          refine congrArg Drawing.mk (List.eraseP_comm fun item _ => ?_)
          by_cases hid : item.id = id
          · exact .inl (by simpa [hid] using hne _ _ rfl rfl)
          · exact .inr (by simpa using hid)
      | setMachine machine => rfl
      | _ => exact absurd h.second Bool.false_ne_true
  | setMachine machine =>
      cases p with
      | replace drawing => exact absurd h.second Bool.false_ne_true
      | _ => rfl
  | _ => exact absurd h.first Bool.false_ne_true

theorem retool_comm (h : Independent o p) (m : Machine) :
    o.retool (p.retool m) = p.retool (o.retool m) := by
  cases o with
  | setMachine machine =>
      cases p with
      | setMachine machine' => exact absurd rfl h.apart
      | _ => rfl
  | _ => rfl

/-- One change after another: each is answered by the drawing that both of them start from. -/
theorem perform_perform (h : Independent o p) (s : Session) :
    (s.perform o).2.perform p =
      (p.answer s.drawing,
        if (p.answer s.drawing).isRefusal then (s.perform o).2
        else if (o.answer s.drawing).isRefusal then
          s.settle (p.redraw s.drawing) (p.retool s.machine)
        else
          s.settle (p.redraw (o.redraw s.drawing)) (p.retool (o.retool s.machine))) := by
  rw [perform_eq _ (isChange_of_subject? h.second), perform_eq s (isChange_of_subject? h.first)]
  dsimp only
  by_cases ho : (o.answer s.drawing).isRefusal
  · simp only [if_pos ho]
  · obtain ⟨hd, hm, -⟩ := settle_parts s (o.redraw s.drawing) (o.retool s.machine)
    simp only [if_neg ho, hd, hm, settle_settle, answer_redraw h]

/--
**Independent changes commute.** Two changes of different things, the machine and the
items of a drawing being such things, give the same answers in either order and lead
to the same session: the same drawing, in the same order, the same machine, mode and
text. It does not matter which of them are refused, or what the session was.
-/
theorem perform_comm (s : Session) (h : Independent o p) :
    ((s.perform o).2.perform p).1 = (s.perform p).1 ∧
      ((s.perform p).2.perform o).1 = (s.perform o).1 ∧
      ((s.perform o).2.perform p).2 = ((s.perform p).2.perform o).2 := by
  rw [perform_perform h, perform_perform h.symm, perform_eq s (isChange_of_subject? h.first),
    perform_eq s (isChange_of_subject? h.second)]
  refine ⟨rfl, rfl, ?_⟩
  dsimp only
  by_cases ho : (o.answer s.drawing).isRefusal
  · by_cases hp : (p.answer s.drawing).isRefusal
    · simp only [if_pos ho, if_pos hp]
    · simp only [if_pos ho, if_neg hp]
  · by_cases hp : (p.answer s.drawing).isRefusal
    · simp only [if_neg ho, if_pos hp]
    · simp only [if_neg ho, if_neg hp, redraw_comm h, retool_comm h]

/-- A session with two circles, written in by hand. -/
def twoCircles : Session :=
  ⟨⟨[⟨"a", .circle ⟨0, 0⟩ 5⟩, ⟨"b", .circle ⟨9, 9⟩ 2⟩]⟩, .standard, "G00 X0", .manual⟩

/-- Taking out the first item moves the second, which is found all the same. -/
theorem perform_comm_twoCircles :
    Independent (.remove "a") (.update ⟨"b", .circle ⟨0, 0⟩ 1⟩) ∧
      ((twoCircles.perform (.remove "a")).2.perform (.update ⟨"b", .circle ⟨0, 0⟩ 1⟩)).1 = .done ∧
      ((twoCircles.perform (.update ⟨"b", .circle ⟨0, 0⟩ 1⟩)).2.perform (.remove "a")).1 =
        .removed ⟨"a", .circle ⟨0, 0⟩ 5⟩ ∧
      ((twoCircles.perform (.update ⟨"b", .circle ⟨0, 0⟩ 1⟩)).2.perform (.remove "a")).2 =
        ⟨⟨[⟨"b", .circle ⟨0, 0⟩ 1⟩]⟩, .standard, "G00 X0", .manual⟩ := by
  have h : Independent (.remove "a") (.update ⟨"b", .circle ⟨0, 0⟩ 1⟩) :=
    ⟨rfl, rfl, by decide, .inl rfl⟩
  obtain ⟨hupdate, hremove, hsame⟩ := perform_comm twoCircles h
  refine ⟨h, ?_, ?_, ?_⟩
  · rw [hupdate]
    decide +kernel
  · rw [hremove]
    decide +kernel
  · rw [← hsame]
    decide +kernel

end Milling.Session
