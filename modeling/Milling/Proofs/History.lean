import Mathlib.Data.List.DropRight
import Milling.Proofs.Lines
import Milling.Session.Basic

/-!
# What a history says about the text of a program

The text of a session is an accumulation: every event puts something in its place
or in front of it, and in between the drawing changes under it. Still nothing of
that has to be replayed to know the text. The last event that fixed it is enough,
with the explanations given since, and, where the text was derived, the drawing
and the machine as they stood when the first of those explanations came.

`Told` says so of one history and one session. An operation either fixes the text,
puts an explanation in front of it, or is quiet, and `told_concat` takes these
three apart.
-/

namespace Milling.Session

/-! ## Reading a history -/

/-- An operation after which the text no longer depends on what it was. -/
def Operation.fixesText : Operation → Bool
  | .event (.edited _) => true
  | .event .regenerate => true
  | _ => false

/-- The explanation that an operation puts in front of the text. -/
def Operation.explanation? : Operation → Option String
  | .event (.annotated explanation) => some explanation
  | _ => none

/-- Where the text came from before anything was put in front of it. -/
inductive Anchor where
  /-- It was written by hand. -/
  | hand (text : String)
  /-- It was derived from the drawing. -/
  | drawing
deriving DecidableEq, Repr

/-- The last operation that fixed the text decides; a session starts with a derived one. -/
def anchor (ops : List Operation) : Anchor :=
  match (ops.filter Operation.fixesText).getLast? with
  | some (.event (.edited text)) => .hand text
  | _ => .drawing

/-- The operations up to the one that last fixed the text. -/
def settled (ops : List Operation) : List Operation := ops.rdropWhile (!·.fixesText)

/-- The operations since the text was last fixed. -/
def since (ops : List Operation) : List Operation := ops.rtakeWhile (!·.fixesText)

/-- The explanations given since the text was last fixed, in the order in which they came. -/
def explanations (ops : List Operation) : List String :=
  (since ops).filterMap Operation.explanation?

/-- The operations before the first explanation given since the text was last fixed. -/
def unexplained (ops : List Operation) : List Operation :=
  settled ops ++ (since ops).takeWhile (·.explanation?.isNone)

/-- An explanation in front of a text: each of its lines behind a semicolon and a blank, and then
an empty line. -/
def block (explanation : String) : String :=
  let lines := (explanation.toList.splitOn '\n').map ("; ".toList ++ ·)
  String.ofList ("\n".toList.intercalate lines ++ "\n\n".toList)

/-- Explanations in front of a text: the last one given stands first. -/
def preamble (explanations : List String) : String :=
  String.join (explanations.reverse.map block)

/--
What a history that began with `first` tells about the mode and the text of the
session `s` it led to.
-/
def Told (first : Session) (ops : List Operation) (s : Session) : Prop :=
  match anchor ops, explanations ops with
  | .hand text, given => s.mode = .manual ∧ s.program = preamble given ++ text
  | .drawing, [] => s.mode = .derived ∧ s.program = Program.compile s.machine s.drawing
  | .drawing, given =>
    s.mode = .manual ∧
      s.program = preamble given ++
        Program.compile (first.run (unexplained ops)).machine (first.run (unexplained ops)).drawing

theorem run_concat (s : Session) (ops : List Operation) (o : Operation) :
    s.run (ops ++ [o]) = ((s.run ops).perform o).2 := by
  simp [run, List.foldl_append]

/-- What a session puts in front of its text for an explanation is its block. -/
theorem commentBlock_eq_block (explanation : String) :
    commentBlock explanation = block explanation := by
  rw [commentBlock, Text.splitLines_eq_splitOn, Text.joinLines_eq_intercalate]
  rfl

example : block "Goes out.\n\nGoes home." = "; Goes out.\n; \n; Goes home.\n\n" := by decide

theorem preamble_concat (given : List String) (explanation : String) :
    preamble (given ++ [explanation]) = commentBlock explanation ++ preamble given := by
  rw [commentBlock_eq_block]
  simp [preamble, String.join_cons]

/-! ## A history with one more operation -/

section Concat

variable {ops : List Operation} {o : Operation}

theorem explanations_of_fixesText (h : o.fixesText = true) : explanations (ops ++ [o]) = [] := by
  simp [explanations, since, h]

theorem since_concat (h : o.fixesText = false) : since (ops ++ [o]) = since ops ++ [o] := by
  simp [since, h]

theorem settled_concat (h : o.fixesText = false) : settled (ops ++ [o]) = settled ops := by
  simp [settled, h]

theorem anchor_concat (h : o.fixesText = false) : anchor (ops ++ [o]) = anchor ops := by
  simp [anchor, List.filter_append, h]

theorem explanations_concat (h : o.fixesText = false) :
    explanations (ops ++ [o]) = explanations ops ++ o.explanation?.toList := by
  rw [explanations, since_concat h, List.filterMap_append]
  cases he : o.explanation? <;> simp [explanations, he]

/-- As long as nothing was explained, no operation comes after an explanation. -/
theorem unexplained_of_nil (h : explanations ops = []) : unexplained ops = ops := by
  have hnone : ∀ o ∈ since ops, o.explanation?.isNone := by
    intro o ho
    have := List.filterMap_eq_nil_iff.mp h o ho
    simp [this]
  rw [unexplained, List.takeWhile_eq_self_iff.mpr hnone, settled, since,
    List.rdropWhile_append_rtakeWhile]

theorem unexplained_of_first (h : o.fixesText = false) (he : o.explanation?.isSome)
    (hnil : explanations ops = []) : unexplained (ops ++ [o]) = ops := by
  have hno : o.explanation?.isNone = false := by simp [he]
  have hops := unexplained_of_nil hnil
  rw [unexplained] at hops
  rw [unexplained, settled_concat h, since_concat h, List.takeWhile_append]
  split
  · simp [hno, settled, since]
  · exact hops

/-- Once something was explained, what comes later is not looked at. -/
theorem unexplained_concat (h : o.fixesText = false) (hne : explanations ops ≠ []) :
    unexplained (ops ++ [o]) = unexplained ops := by
  rw [unexplained, settled_concat h, since_concat h, unexplained]
  -- the prefix without explanations ends inside `ops`, before the new operation
  have hsome : ¬ ∀ o ∈ since ops, o.explanation?.isNone := by
    intro hall
    refine hne (List.filterMap_eq_nil_iff.mpr fun o ho => ?_)
    simpa using hall o ho
  rw [List.takeWhile_append, if_neg]
  intro hlen
  exact hsome (List.takeWhile_eq_self_iff.mp
    ((List.takeWhile_prefix _).eq_of_length hlen))

end Concat

/-! ## What an operation does to the text -/

/-- A change of the drawing shows in a derived text and in no other. -/
theorem dispatch_drawingChanged (s : Session) :
    (s.dispatch .drawingChanged).mode = s.mode ∧
      (s.mode = .manual → (s.dispatch .drawingChanged).program = s.program) ∧
      (s.mode = .derived → (s.dispatch .drawingChanged).program =
        (s.dispatch .drawingChanged).derivedProgram) := by
  cases hm : s.mode with
  | derived => simp [dispatch, hm, derivedProgram]
  | manual => simp [dispatch, hm]

/--
**An operation that is neither an edit, a request to derive nor an explanation**
leaves the mode alone, keeps a text written by hand, and keeps a derived text in
step with the drawing. Refused ones are among them.
-/
theorem perform_quiet (s : Session) {o : Operation} (hf : o.fixesText = false)
    (he : o.explanation? = none) :
    (s.perform o).2.mode = s.mode ∧
      (s.mode = .manual → (s.perform o).2.program = s.program) ∧
      (s.mode = .derived → s.program = s.derivedProgram →
        (s.perform o).2.program = (s.perform o).2.derivedProgram) := by
  -- whatever was done to the drawing or the machine, the session is told of a change after it
  have key : ∀ t : Session, t.mode = s.mode → t.program = s.program →
      (t.dispatch .drawingChanged).mode = s.mode ∧
        (s.mode = .manual → (t.dispatch .drawingChanged).program = s.program) ∧
        (s.mode = .derived → s.program = s.derivedProgram →
          (t.dispatch .drawingChanged).program = (t.dispatch .drawingChanged).derivedProgram) := by
    intro t hm hp
    obtain ⟨h1, h2, h3⟩ := dispatch_drawingChanged t
    rw [hm] at h1 h2 h3
    rw [hp] at h2
    exact ⟨h1, h2, fun hd _ => h3 hd⟩
  cases o with
  | add id shape => exact key _ rfl rfl
  | update item =>
      rw [perform]
      split
      · exact key _ rfl rfl
      · exact ⟨rfl, fun _ => rfl, fun _ h => h⟩
  | remove id =>
      rw [perform]
      split
      · exact key _ rfl rfl
      · exact ⟨rfl, fun _ => rfl, fun _ h => h⟩
  | replace drawing => exact key _ rfl rfl
  | setMachine machine => exact key _ rfl rfl
  | event e =>
      cases e with
      | drawingChanged => exact key s rfl rfl
      | edited text => simp [Operation.fixesText] at hf
      | regenerate => simp [Operation.fixesText] at hf
      | annotated explanation => simp [Operation.explanation?] at he

/-! ## Every history tells its text -/

theorem told_nil (d : Drawing) (m : Machine) : Told (start d m) [] (start d m) := by
  simp [Told, anchor, explanations, since, start]

theorem told_annotated {first s : Session} {ops : List Operation} (h : Told first ops s)
    (hs : s = first.run ops) (explanation : String) :
    Told first (ops ++ [.event (.annotated explanation)])
      (s.dispatch (.annotated explanation)) := by
  have hf : (Operation.event (.annotated explanation)).fixesText = false := rfl
  have hgiven : explanations (ops ++ [.event (.annotated explanation)]) =
      explanations ops ++ [explanation] := explanations_concat hf
  unfold Told at h ⊢
  rw [anchor_concat hf, hgiven]
  cases ha : anchor ops with
  | hand text =>
      rw [ha] at h
      refine ⟨rfl, ?_⟩
      rw [dispatch, h.2, preamble_concat, String.append_assoc]
  | drawing =>
      cases hg : explanations ops with
      | nil =>
          -- the first explanation: the text was derived from the session as it is
          rw [ha, hg] at h
          refine ⟨rfl, ?_⟩
          rw [unexplained_of_first hf rfl hg, ← hs, preamble_concat]
          simp only [dispatch, h.2, preamble, List.reverse_nil, List.map_nil, String.join_nil,
            String.append_empty]
      | cons g gs =>
          -- a later one: what the text was derived from is settled already
          rw [ha, hg] at h
          refine ⟨rfl, ?_⟩
          rw [unexplained_concat hf (by simp [hg]), dispatch, h.2, preamble_concat,
            String.append_assoc]

theorem told_quiet {first s : Session} {ops : List Operation} {o : Operation}
    (h : Told first ops s) (hf : o.fixesText = false) (he : o.explanation? = none) :
    Told first (ops ++ [o]) (s.perform o).2 := by
  obtain ⟨hmode, hmanual, hderived⟩ := perform_quiet s hf he
  have hgiven : explanations (ops ++ [o]) = explanations ops := by
    rw [explanations_concat hf, he]; simp
  unfold Told at h ⊢
  rw [anchor_concat hf, hgiven]
  cases ha : anchor ops with
  | hand text =>
      rw [ha] at h
      exact ⟨by rw [hmode, h.1], by rw [hmanual h.1, h.2]⟩
  | drawing =>
      cases hg : explanations ops with
      | nil =>
          rw [ha, hg] at h
          exact ⟨by rw [hmode, h.1], hderived h.1 h.2⟩
      | cons g gs =>
          rw [ha, hg] at h
          refine ⟨by rw [hmode, h.1], ?_⟩
          rw [hmanual h.1, unexplained_concat hf (by simp [hg]), h.2]

/-- **One more operation is told by one more entry.** -/
theorem told_concat {first s : Session} {ops : List Operation} (h : Told first ops s)
    (hs : s = first.run ops) (o : Operation) : Told first (ops ++ [o]) (s.perform o).2 := by
  cases hf : o.fixesText with
  | false =>
      cases he : o.explanation? with
      | none => exact told_quiet h hf he
      | some explanation =>
          obtain rfl : o = .event (.annotated explanation) := by
            cases o <;> simp_all [Operation.explanation?]
            split at he <;> simp_all
          exact told_annotated h hs explanation
  | true =>
      -- what fixes the text makes everything before it irrelevant
      unfold Told
      rw [explanations_of_fixesText hf]
      cases o with
      | event e =>
          cases e with
          | edited text => simp [anchor, Operation.fixesText, perform, dispatch, preamble]
          | regenerate =>
              simp [anchor, Operation.fixesText, perform, dispatch, derivedProgram]
          | drawingChanged => simp [Operation.fixesText] at hf
          | annotated explanation => simp [Operation.fixesText] at hf
      | _ => simp [Operation.fixesText] at hf

/--
**The text of a session is told by its history.** Whatever was done to a session
since it started, refused operations among it, its mode and its text are the ones
that `Told` reads off the list of what was done.
-/
theorem told_run (d : Drawing) (m : Machine) (ops : List Operation) :
    Told (start d m) ops ((start d m).run ops) := by
  induction ops using List.reverseRecOn with
  | nil => exact told_nil d m
  | append_singleton ops o ih =>
      rw [run_concat]
      exact told_concat ih rfl o

end Milling.Session
