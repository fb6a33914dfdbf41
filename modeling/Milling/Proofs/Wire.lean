import Milling.Proofs.Outcomes
import Milling.Proofs.Reading
import Milling.Session.Wire

/-!
# Events survive the wire

An event is written on one line, with its name before its text, and its reader goes from member
to member as they come. A text that comes behind the name is read as what the name says. One
that comes before it is read as a value of any kind and looked at again once the name is known;
so the same event comes out of two different readings.

Names are known words, and texts are read back as they were. Hence every event is read back from
what was written for it, in either order, and a session that is told of the events by wire
ends where one ends that is told of them directly.
-/

namespace Milling

namespace Json

/-- The value with its members in reverse, if it is an object. -/
def Value.reversed : Value → Value
  | .object members => .object members.reverse
  | other => other

namespace Reader

open Value (compact compactMembers)

variable {σ : Type} {step : σ → String → Reader σ} {draft next last : σ} {key : String}
  {value : Value} {fields : List (String × Value)}

/-! ## Objects on one line -/

theorem stopped_brace (rest : List Char) : Stopped ('\x7d' :: rest) := by
  rintro c ⟨⟩
  decide

/-- A step that goes from one draft to the next over a member that is written on one line. -/
def Passes (step : σ → String → Reader σ) (draft : σ) (key : String) (value : Value)
    (next : σ) : Prop :=
  ∀ levels, 0 < levels → ∀ rest, Stopped rest →
    step draft key levels (':' :: (compact value ++ rest)) = .ok (next, rest)

/-- A step that goes over all members of an object, from the first draft to the last. -/
inductive PassesAll (step : σ → String → Reader σ) : σ → List (String × Value) → σ → Prop
  | nil (draft : σ) : PassesAll step draft [] draft
  | cons {draft next last : σ} {key : String} {value : Value} {fields : List (String × Value)}
      (hfirst : Passes step draft key value next) (hrest : PassesAll step next fields last) :
      PassesAll step draft ((key, value) :: fields) last

/-- Members that are written on one line are read up to the brace behind them. -/
theorem members_compact (h : PassesAll step draft fields last) {levels : ℕ} (hlevels : 0 < levels)
    (rest : List Char) : ∀ first fuel, fields.length < fuel →
      members step fuel first draft levels
          ((compactMembers fields).drop (if first then 1 else 0) ++ '\x7d' :: rest) =
        .ok (last, '\x7d' :: rest) := by
  induction h with
  | nil draft =>
      intro first fuel hfuel
      obtain ⟨fuel, rfl⟩ := Nat.exists_eq_succ_of_ne_zero (Nat.ne_of_gt hfuel)
      rw [compactMembers, List.drop_nil, List.nil_append, members]
      rfl
  | @cons draft next last key value fields hfirst hrest ih =>
      intro first fuel hfuel
      obtain ⟨fuel, rfl⟩ := Nat.exists_eq_succ_of_ne_zero (Nat.ne_zero_of_lt hfuel)
      have htext : (compactMembers ((key, value) :: fields)).drop (if first then 1 else 0) ++
          '\x7d' :: rest = (if first then [] else [',']) ++ ([] ++ (writeText key ++
            (':' :: (compact value ++ (compactMembers fields ++ '\x7d' :: rest))))) := by
        rw [compactMembers]
        cases first <;> simp
      have hfirst := hfirst levels hlevels (compactMembers fields ++ '\x7d' :: rest) (by
        cases fields with
        | nil =>
            rw [compactMembers]
            exact stopped_brace _
        | cons =>
            rw [compactMembers]
            exact stopped_comma _)
      rw [htext, members_written first key fuel levels (List.forall_mem_nil _), hfirst]
      have hrest := ih false fuel (Nat.lt_of_succ_lt_succ hfuel)
      rw [if_neg Bool.false_ne_true, List.drop_zero] at hrest
      exact hrest

theorem length_le_compactMembers (fields : List (String × Value)) :
    fields.length ≤ (compactMembers fields).length := by
  induction fields with
  | nil => exact Nat.zero_le _
  | cons field fields ih =>
      simp only [compactMembers, List.length_append, List.length_cons]
      omega

/-- Between its braces, an object has its members with the first comma left out. -/
theorem compact_object (field : String × Value) (fields : List (String × Value)) :
    compact (.object (field :: fields)) =
      '\x7b' :: ((compactMembers (field :: fields)).drop 1 ++ ['\x7d']) := by
  obtain ⟨key, value⟩ := field
  simp only [compact, compactMembers, List.drop_one, List.tail_cons, List.cons_append,
    List.append_assoc]

/-- A text is read as a value of any kind, too. -/
theorem value_writeText (text : String) (levels : ℕ) (rest : List Char) :
    Reader.value levels (writeText text ++ rest) = .ok (.text text, rest) := by
  have hglance : glance ('"' :: (text.toList.flatMap escapeChar ++ '"' :: rest)) =
      .ok (.text text, rest) := by
    show (readText (text.toList.flatMap escapeChar ++ '"' :: rest) >>= fun p =>
      .ok (Found.text p.1, p.2)) = _
    rw [readText_flatMap]
    rfl
  rw [writeText_append, Reader.value, valueWithin]
  refine (toValue_cons _ levels rfl _).trans ?_
  split
  · rename_i heq
    exact absurd (List.cons.inj heq).1 (by decide)
  · rename_i heq
    exact absurd (List.cons.inj heq).1 (by decide)
  · rw [hglance]

/-- The value of a member stands behind its colon. -/
theorem colon_bind {α β : Type} {r : Reader α} {f : α → Reader β} {levels : ℕ}
    {s rest : List Char} {a : α} (h : r levels s = .ok (a, rest)) :
    (do colon; f (← r)) levels (':' :: s) = f a levels rest :=
  (bind_apply r f levels s).trans (by rw [h]; rfl)

end Reader

end Json

namespace Event

open Json (Reader Value)
open Json.Reader (Passes PassesAll)

/-! ## The members of an event -/

/-- A known name is read as what it stands for. -/
theorem tag_writeText {name : String} (hname : name ∈ names) (levels : ℕ) (rest : List Char) :
    tag levels (Json.writeText name ++ rest) = .ok (Tag.ofName name, rest) := by
  have hknown : Reader.known names name = pure () := if_pos (List.contains_iff_mem.mpr hname)
  rw [Reader.writeText_append, tag, Reader.variant]
  refine (Reader.toValue_cons _ levels rfl _).trans ?_
  show (Json.readText (name.toList.flatMap Json.escapeChar ++ '"' :: rest) >>= fun p =>
    Reader.known names p.1 levels p.2 >>= fun q => .ok (Tag.ofName p.1, q.2)) = _
  rw [Json.readText_flatMap]
  show (Reader.known names name levels rest >>= fun q => .ok (Tag.ofName name, q.2)) = _
  rw [hknown]
  rfl

variable {name text : String} {make : String → Event}

/-- Until there is a text, the name tells what is to come. -/
theorem passes_name (hname : name ∈ names) :
    Passes step .nothing "event" (.text name) (.tagged (Tag.ofName name)) := by
  intro levels hlevels rest hrest
  unfold step
  rw [if_pos rfl]
  exact Reader.colon_bind (tag_writeText hname levels rest)

/-- A text behind the name is read as the text of the event. -/
theorem passes_text :
    Passes step (.tagged (.needsText make)) "text" (.text text) (.finished (make text)) := by
  intro levels hlevels rest hrest
  have hread := Reader.reads_text text levels hlevels [] rest (List.forall_mem_nil _) hrest
  have hcontent : content (.needsText make) levels (Json.writeText text ++ rest) =
      .ok (make text, rest) := by
    rw [content, Reader.bind_apply]
    exact congrArg (· >>= _) hread
  unfold step
  rw [if_neg (by decide), if_pos rfl]
  exact Reader.colon_bind hcontent

/-- A text before the name is kept as it is. -/
theorem passes_kept : Passes step .nothing "text" (.text text) (.kept (.text text)) := by
  intro levels hlevels rest hrest
  unfold step
  rw [if_neg (by decide), if_pos rfl]
  exact Reader.colon_bind (Reader.value_writeText text levels rest)

/-- The name tells what the text was that has been kept. -/
theorem passes_complete (hname : name ∈ names) (htag : Tag.ofName name = .needsText make) :
    Passes step (.kept (.text text)) "event" (.text name) (.finished (make text)) := by
  intro levels hlevels rest hrest
  unfold step
  rw [if_pos rfl]
  refine (Reader.colon_bind (tag_writeText hname levels rest)).trans ?_
  rw [htag]
  rfl

/-! ## Whole events -/

/-- **An object is the event** that its members make, one after the other. -/
theorem ofJson_compact {field : String × Value} {fields : List (String × Value)}
    {last : Progress} {event : Event} (h : PassesAll step .nothing (field :: fields) last)
    (hfinish : finish last = pure event) :
    ofJson (Value.object (field :: fields)).toLine = .ok event := by
  -- every member takes a character at least, so the reader has turns enough for all
  have hlength := Reader.length_le_compactMembers (field :: fields)
  have hturns : (field :: fields).length <
      ((Value.compactMembers (field :: fields)).drop 1 ++ ['\x7d']).length + 1 := by
    rw [List.length_append, List.length_drop, List.length_singleton]
    rw [List.length_cons] at hlength ⊢
    omega
  have hmembers := Reader.members_compact h (by decide : 0 < Reader.levelLimit - 1) [] true
  rw [if_pos rfl] at hmembers
  have hread : read Reader.levelLimit ('\x7b' ::
      ((Value.compactMembers (field :: fields)).drop 1 ++ ['\x7d'])) = .ok (event, []) := by
    refine (Reader.toValue_cons _ _ rfl _).trans ?_
    show object (Reader.levelLimit - 1) _ = _
    rw [object, hmembers _ hturns]
    dsimp only
    rw [hfinish]
    rfl
  rw [ofJson, Reader.run, Value.toLine, String.toList_ofList, Reader.compact_object, hread]
  rfl

/-- **An event is read back from what was written for it.** -/
theorem ofJson_toLine (e : Event) : ofJson e.toJson.toLine = .ok e := by
  cases e with
  | drawingChanged => exact ofJson_compact (.cons (passes_name (by decide)) (.nil _)) rfl
  | edited text =>
      exact ofJson_compact (.cons (passes_name (by decide)) (.cons passes_text (.nil _))) rfl
  | regenerate => exact ofJson_compact (.cons (passes_name (by decide)) (.nil _)) rfl
  | annotated explanation =>
      exact ofJson_compact (.cons (passes_name (by decide)) (.cons passes_text (.nil _))) rfl

/-- **So it is with the text before the name.** -/
theorem ofJson_reversed (e : Event) : ofJson e.toJson.reversed.toLine = .ok e := by
  cases e with
  | drawingChanged => exact ofJson_toLine .drawingChanged
  | edited text =>
      exact ofJson_compact (.cons passes_kept (.cons (passes_complete (by decide) rfl) (.nil _)))
        rfl
  | regenerate => exact ofJson_toLine .regenerate
  | annotated explanation =>
      exact ofJson_compact (.cons passes_kept (.cons (passes_complete (by decide) rfl) (.nil _)))
        rfl

/-- A list of events is read back event by event. -/
theorem mapM_ofJson (events : List Event) :
    (events.map fun e => e.toJson.toLine).mapM ofJson = .ok events := by
  induction events with
  | nil => rfl
  | cons e events ih =>
      rw [List.map_cons, List.mapM_cons, ofJson_toLine, ih]
      rfl

end Event

/--
**Events survive the wire.** Whatever its text is made of, an event is read back from the line
that was written for it, and also if its members are written in the other order. So a list of
events is read back event by event, and a session that is told what was read ends with the
same drawing, machine, program and mode as one that is told of the events themselves.
-/
theorem Session.dispatch_decoded (s : Session) (events : List Event) :
    (∀ e : Event, Event.ofJson e.toJson.toLine = .ok e ∧
      Event.ofJson e.toJson.reversed.toLine = .ok e) ∧
    let decoded := (events.map fun e => e.toJson.toLine).mapM Event.ofJson
    decoded = .ok events ∧
      decoded.map (List.foldl dispatch s) = .ok (events.foldl dispatch s) := by
  refine ⟨fun e => ⟨Event.ofJson_toLine e, Event.ofJson_reversed e⟩, ?_⟩
  intro decoded
  have hdecoded : decoded = .ok events := Event.mapM_ofJson events
  refine ⟨hdecoded, ?_⟩
  rw [hdecoded]
  rfl

example : (Event.edited "M30").toJson.reversed.toLine =
    "\x7b\"text\":\"M30\",\"event\":\"manual_edit\"\x7d" := by decide

end Milling
