import Milling.Drawing.Record
import Milling.Program.Emit
import Milling.Proofs.Edits
import Milling.Proofs.Reading

/-!
# Saving a drawing and loading it again

What a drawing becomes when it is written as JSON and read back: the same items,
in the same order, under the same names, with every number replaced by what the
reader's arithmetic makes of its digits. Nothing else can happen to a drawing with
valid and distinct names and finite numbers, so it comes back unchanged exactly
when that arithmetic leaves each of its numbers alone. It does not always do so.

The proof goes from the inside out: one member, one record, the list of records,
and then the two stages that make items of records and a drawing of items.
-/

namespace Milling

open Json (Reader Value reread)
open Json.Reader (Reads Takes Fills rereadSpare fieldStep)
open Outcome (ok_of_bind forall₂_of_mapM mapM_eq_ok)

namespace Record

variable {α σ : Type} {depth level : ℕ}

/-! ## Members -/

/-- A known field that has not been read takes its value from behind the colon. -/
theorem takes_field {known : List (Field Reader σ)} {f : Field Reader σ} {draft : σ}
    {key : String} {text : List Char} {read : Reader α} {set : α → σ}
    {out : Except Json.Fault α} (hf : known.find? (·.answersTo key) = some f)
    (hfresh : f.filled draft = false) (hfill : f.fill draft = do return set (← read))
    (hread : Reads depth read text out) :
    Takes depth (fieldStep known) draft key text (out.map set) := by
  intro levels hlevels rest hrest
  have hcolon : Reader.colon levels (':' :: ' ' :: (text ++ rest)) =
      .ok ((), ' ' :: (text ++ rest)) := by
    unfold Reader.colon
    rw [Reader.skipSpace_cons rfl]
    rfl
  -- the value stands behind one blank, and what comes after it ends it
  have hvalue : f.fill draft levels (' ' :: (text ++ rest)) = (out.map set).map (·, rest) := by
    rw [hfill]
    refine (hread.bind (g := fun a => .ok (set a)) (fun _ _ _ => rfl) levels hlevels [' '] rest
      (List.forall_mem_singleton.mpr rfl) hrest).trans ?_
    cases out with
    | ok a => rfl
    | error fault => rfl
  unfold fieldStep
  rw [hf]
  dsimp only
  rw [hfresh, if_neg Bool.false_ne_true]
  refine (Reader.bind_apply _ _ levels _).trans ?_
  rw [hcolon]
  exact hvalue

/-- A member that may be left out: without it, the draft is as if it had never been asked for. -/
theorem fills_member {γ : Type} {step : σ → String → Reader σ} {draft : σ}
    {fields : List (String × Value)} {name : String} {make : α → Value} {o : Option α}
    {a : α → Except Json.Fault γ} {f : Option γ → σ} {next : Option γ → Except Json.Fault σ}
    (hnone : f none = draft)
    (htake : ∀ value, Takes depth step draft name (Value.pretty level (make value))
      ((a value).map (fun c => f (some c))))
    (hnext : ∀ c, Fills depth step level (f c) fields (next c)) :
    Fills depth step level draft (member name make o ++ fields) (o.mapM a >>= next) := by
  cases o with
  | none =>
      rw [← hnone]
      exact hnext none
  | some value =>
      have hfills := Fills.cons (htake value) (fun c => hnext (some c))
      have hout : (some value).mapM a >>= next = a value >>= fun c => next (some c) := by
        show (some <$> a value) >>= next = _
        cases a value with
        | error fault => rfl
        | ok c => rfl
      rw [hout]
      exact hfills

/-! ## Records -/

/-- The record that a written record is read as. -/
def reread (r : Record) : Except Json.Fault Record := do
  let x ← Json.reread r.x
  let y ← Json.reread r.y
  let width ← r.width.mapM rereadSpare
  let height ← r.height.mapM rereadSpare
  let radius ← r.radius.mapM rereadSpare
  let text ← r.text.mapM fun text => .ok (some text)
  let size ← r.size.mapM rereadSpare
  return {
    r with
    x, y, width := width.join, height := height.join, radius := radius.join
    text := text.join, size := size.join }

/-- The members that may be missing from a written record. -/
def spareMembers (r : Record) : List (String × Value) :=
  member "width" .number r.width ++ (member "height" .number r.height ++
    (member "radius" .number r.radius ++ (member "text" .text r.text ++
      (member "fontSize" .number r.size ++ []))))

theorem toJson_eq (r : Record) :
    r.toJson = .object (("id", .text r.id) :: ("type", .text r.kind) :: ("x", .number r.x) ::
      ("y", .number r.y) :: r.spareMembers) := by
  simp only [toJson, spareMembers, List.append_assoc, List.cons_append, List.nil_append,
    List.append_nil]

/-- The draft that the members of a written record leave behind. -/
def redraft (r : Record) : Except Json.Fault Draft := do
  let id ← .ok r.id
  let kind ← .ok r.kind
  let x ← Json.reread r.x
  let y ← Json.reread r.y
  let width ← r.width.mapM rereadSpare
  let height ← r.height.mapM rereadSpare
  let radius ← r.radius.mapM rereadSpare
  let text ← r.text.mapM fun text => .ok (some text)
  let size ← r.size.mapM rereadSpare
  .ok {
    id := some id, kind := some kind, x := some x, y := some y
    width, height, radius, text, size }

/-- The members of a record fill the draft field by field, in the order of the record. -/
theorem fills_fields (r : Record) (level : ℕ) :
    Fills 0 (fieldStep fields) level {}
      (("id", .text r.id) :: ("type", .text r.kind) :: ("x", .number r.x) :: ("y", .number r.y) ::
        r.spareMembers) r.redraft := by
  have hnumber : ∀ x, Reads 0 Reader.number (Value.pretty level (.number x)) (Json.reread x) :=
    fun x => Reader.reads_number x
  have htext : ∀ s, Reads 0 Reader.text (Value.pretty level (.text s)) (.ok s) :=
    fun s => Reader.reads_text s
  have hspare : ∀ x, Reads 0 (Reader.optional Reader.number) (Value.pretty level (.number x))
      (rereadSpare x) := fun x => Reader.reads_spare_number x
  have hspareText : ∀ s, Reads 0 (Reader.optional Reader.text) (Value.pretty level (.text s))
      (.ok (some s)) := fun s => Reader.reads_spare_text s
  have hid : ∀ d : Draft, d.id = none → Takes 0 (fieldStep fields) d "id"
      (Value.pretty level (.text r.id)) ((Except.ok r.id).map fun id => { d with id := some id }) :=
    fun d hd => takes_field rfl (congrArg Option.isSome hd) rfl (htext r.id)
  have hkind : ∀ d : Draft, d.kind = none → Takes 0 (fieldStep fields) d "type"
      (Value.pretty level (.text r.kind))
      ((Except.ok r.kind).map fun kind => { d with kind := some kind }) :=
    fun d hd => takes_field rfl (congrArg Option.isSome hd) rfl (htext r.kind)
  have hx : ∀ d : Draft, d.x = none → Takes 0 (fieldStep fields) d "x"
      (Value.pretty level (.number r.x)) ((Json.reread r.x).map fun x => { d with x := some x }) :=
    fun d hd => takes_field rfl (congrArg Option.isSome hd) rfl (hnumber r.x)
  have hy : ∀ d : Draft, d.y = none → Takes 0 (fieldStep fields) d "y"
      (Value.pretty level (.number r.y)) ((Json.reread r.y).map fun y => { d with y := some y }) :=
    fun d hd => takes_field rfl (congrArg Option.isSome hd) rfl (hnumber r.y)
  have hwidth : ∀ d : Draft, d.width = none → ∀ v, Takes 0 (fieldStep fields) d "width"
      (Value.pretty level (.number v)) ((rereadSpare v).map fun w => { d with width := some w }) :=
    fun d hd v => takes_field rfl (congrArg Option.isSome hd) rfl (hspare v)
  have hheight : ∀ d : Draft, d.height = none → ∀ v, Takes 0 (fieldStep fields) d "height"
      (Value.pretty level (.number v)) ((rereadSpare v).map fun w => { d with height := some w }) :=
    fun d hd v => takes_field rfl (congrArg Option.isSome hd) rfl (hspare v)
  have hradius : ∀ d : Draft, d.radius = none → ∀ v, Takes 0 (fieldStep fields) d "radius"
      (Value.pretty level (.number v)) ((rereadSpare v).map fun w => { d with radius := some w }) :=
    fun d hd v => takes_field rfl (congrArg Option.isSome hd) rfl (hspare v)
  have hcontent : ∀ d : Draft, d.text = none → ∀ s, Takes 0 (fieldStep fields) d "text"
      (Value.pretty level (.text s))
      ((Except.ok (some s)).map fun text => { d with text := some text }) :=
    fun d hd s => takes_field rfl (congrArg Option.isSome hd) rfl (hspareText s)
  have hsize : ∀ d : Draft, d.size = none → ∀ v, Takes 0 (fieldStep fields) d "fontSize"
      (Value.pretty level (.number v)) ((rereadSpare v).map fun w => { d with size := some w }) :=
    fun d hd v => takes_field rfl (congrArg Option.isSome hd) rfl (hspare v)
  refine Fills.cons (hid _ rfl) fun id => ?_
  refine Fills.cons (hkind _ rfl) fun kind => ?_
  refine Fills.cons (hx _ rfl) fun x => ?_
  refine Fills.cons (hy _ rfl) fun y => ?_
  -- from here on a member may be missing, and the draft then stays as it is
  let d : Draft := { id := some id, kind := some kind, x := some x, y := some y }
  refine fills_member (f := fun width => { d with width }) rfl (hwidth d rfl) fun width => ?_
  refine fills_member (f := fun height => { d with width, height }) rfl
    (hheight { d with width } rfl) fun height => ?_
  refine fills_member (f := fun radius => { d with width, height, radius }) rfl
    (hradius { d with width, height } rfl) fun radius => ?_
  refine fills_member (f := fun text => { d with width, height, radius, text }) rfl
    (hcontent { d with width, height, radius } rfl) fun text => ?_
  refine fills_member (f := fun size => { d with width, height, radius, text, size }) rfl
    (hsize { d with width, height, radius, text } rfl) fun size => ?_
  exact Fills.nil

/-- The record that a draft makes: what is required has to be there. -/
def Draft.finish (d : Draft) : Except Json.Fault Record := do
  let need {α : Type} (name : String) : Option α → Except Json.Fault α
    | some value => .ok value
    | none => .error (.mismatch (.missingField name))
  let id ← need "id" d.id
  let kind ← need "type" d.kind
  let x ← need "x" d.x
  let y ← need "y" d.y
  return {
    id, kind, x, y, width := d.width.join, height := d.height.join, radius := d.radius.join
    text := d.text.join, size := d.size.join }

/-- What is required was written, so no draft of a written record lacks it. -/
theorem finish_redraft (r : Record) : r.redraft >>= Draft.finish = r.reread := by
  simp only [redraft, bind_assoc]
  rfl

/-- **A written record is read as a record**, its numbers as their digits make them. -/
theorem reads_record (r : Record) (level : ℕ) :
    Reads 1 Record.read (Value.pretty level r.toJson) r.reread := by
  have hfinish : ∀ (d : Draft) levels rest, (do
      let id ← Decoding.require "id" d.id
      let kind ← Decoding.require "type" d.kind
      let x ← Decoding.require "x" d.x
      let y ← Decoding.require "y" d.y
      return {
        id, kind, x, y, width := d.width.join, height := d.height.join, radius := d.radius.join
        text := d.text.join, size := d.size.join } : Reader Record) levels rest =
      d.finish.map (·, rest) := by
    intro d levels rest
    obtain ⟨id, kind, x, y, width, height, radius, text, size⟩ := d
    -- what is missing first is what both of them name
    cases id with
    | none => rfl
    | some id => cases kind with
      | none => rfl
      | some kind => cases x with
        | none => rfl
        | some x => cases y with
          | none => rfl
          | some y => rfl
  rw [toJson_eq, ← finish_redraft]
  exact (Reader.reads_record "struct ShapeData" (r.fills_fields (level + 1))).bind hfinish

end Record

namespace Drawing

/-- What the first stage of reading makes of any drawing: its records, in order. -/
theorem run_toJson (d : Drawing) :
    Reader.run (Reader.list Record.read) d.toJson =
      d.items.mapM fun item => (Record.ofItem item).reread := by
  have hread := Reader.reads_list (fun item : Item Float => (Record.ofItem item).toJson)
    (fun item => (Record.ofItem item).reads_record 1)
    (fun item => ⟨'\x7b', _, rfl, rfl, by decide⟩) d.items
    Reader.levelLimit (by decide) [] [] (by simp) (by simp [Json.Stopped])
  rw [List.nil_append, List.append_nil] at hread
  unfold Reader.run toJson Value.toLines
  rw [String.toList_ofList, hread]
  cases d.items.mapM fun item => (Record.ofItem item).reread with
  | error fault => rfl
  | ok records => rfl

end Drawing

/-! ## Items and drawings -/

/-- The numbers of a shape, in the order in which a record holds them. -/
def Shape.numbers : Shape Float → List Float
  | .rectangle corner width height => [corner.x, corner.y, width, height]
  | .circle center radius => [center.x, center.y, radius]
  | .text origin _ size => [origin.x, origin.y, size]

/-- A shape with every number as its digits make it, unless one of them is refused. -/
def Shape.reread : Shape Float → Except Json.Fault (Shape Float)
  | .rectangle corner width height => do
    let x ← Json.reread corner.x
    let y ← Json.reread corner.y
    let width ← Json.reread width
    let height ← Json.reread height
    return .rectangle ⟨x, y⟩ width height
  | .circle center radius => do
    let x ← Json.reread center.x
    let y ← Json.reread center.y
    let radius ← Json.reread radius
    return .circle ⟨x, y⟩ radius
  | .text origin content size => do
    let x ← Json.reread origin.x
    let y ← Json.reread origin.y
    let size ← Json.reread size
    return .text ⟨x, y⟩ content size

/-- An item with every number as its digits make it. Its name is not touched. -/
def Item.reread (item : Item Float) : Except Json.Fault (Item Float) := do
  return { item with shape := ← item.shape.reread }

namespace Drawing

/-- The numbers of a drawing, item by item. -/
def numbers (d : Drawing) : List Float := d.items.flatMap (·.shape.numbers)

/-- A drawing with every number as its digits make it, unless one of them is refused. -/
def reread (d : Drawing) : Except Json.Fault Drawing := do
  return ⟨← d.items.mapM Item.reread⟩

end Drawing

theorem mapM_rereadSpare {x : Float} (h : x.isFinite) :
    (some x).mapM rereadSpare = (Json.reread x).map fun y => some (some y) := by
  show some <$> rereadSpare x = _
  rw [rereadSpare, if_pos h]
  cases Json.reread x with
  | ok y => rfl
  | error fault => rfl

/-- With finite numbers, the record of an item is read as the record of the reread item. -/
theorem Record.reread_ofItem (item : Item Float) (h : ∀ x ∈ item.shape.numbers, x.isFinite) :
    (Record.ofItem item).reread = item.reread.map Record.ofItem := by
  obtain ⟨id, shape⟩ := item
  cases shape with
  | rectangle corner width height =>
      have hwidth := mapM_rereadSpare (h width (by simp [Shape.numbers]))
      have hheight := mapM_rereadSpare (h height (by simp [Shape.numbers]))
      simp only [Record.ofItem, Record.reread, hwidth, hheight, Item.reread, Shape.reread]
      cases Json.reread corner.x with
      | error fault => rfl
      | ok x => cases Json.reread corner.y with
        | error fault => rfl
        | ok y => cases Json.reread width with
          | error fault => rfl
          | ok w => cases Json.reread height with
            | error fault => rfl
            | ok h => rfl
  | circle center radius =>
      have hradius := mapM_rereadSpare (h radius (by simp [Shape.numbers]))
      simp only [Record.ofItem, Record.reread, hradius, Item.reread, Shape.reread]
      cases Json.reread center.x with
      | error fault => rfl
      | ok x => cases Json.reread center.y with
        | error fault => rfl
        | ok y => cases Json.reread radius with
          | error fault => rfl
          | ok r => rfl
  | text origin content size =>
      have hsize := mapM_rereadSpare (h size (by simp [Shape.numbers]))
      simp only [Record.ofItem, Record.reread, hsize, Item.reread, Shape.reread]
      cases Json.reread origin.x with
      | error fault => rfl
      | ok x => cases Json.reread origin.y with
        | error fault => rfl
        | ok y => cases Json.reread size with
          | error fault => rfl
          | ok s => rfl

theorem Record.id_ofItem (item : Item Float) : (Record.ofItem item).id = item.id := by
  obtain ⟨id, shape⟩ := item
  cases shape <;> rfl

theorem Record.toShape_ofItem (item : Item Float) :
    (Record.ofItem item).toShape = .ok item.shape := by
  obtain ⟨id, shape⟩ := item
  cases shape <;> rfl

theorem Record.toItem_ofItem (item : Item Float) (h : Item.validId item.id) :
    (Record.ofItem item).toItem = .ok item := by
  have hid : item.id ≠ "" ∧ ¬ item.id.toList.any Text.isControl = true := by
    simpa [Item.validId] using h
  rw [Record.toItem, Record.id_ofItem, if_neg hid.1, if_neg hid.2, Record.toShape_ofItem]
  rfl

theorem Item.id_of_reread {item item' : Item Float} (h : item.reread = .ok item') :
    item'.id = item.id := by
  rw [Item.reread] at h
  obtain ⟨shape, -, h⟩ := ok_of_bind h
  obtain rfl := Except.ok.inj h
  rfl

theorem Item.ids_of_mapM_reread {items items' : List (Item Float)}
    (h : items.mapM Item.reread = .ok items') : items'.map Item.id = items.map Item.id := by
  have hitems := forall₂_of_mapM h
  clear h
  induction hitems with
  | nil => rfl
  | cons hitem _ ih => rw [List.map_cons, List.map_cons, Item.id_of_reread hitem, ih]

namespace Drawing

/-- Valid and distinct names are all that a drawing asks of its items. -/
theorem ofItems_eq (items : List (Item Float)) (hvalid : ∀ item ∈ items, Item.validId item.id)
    (hdistinct : (items.map Item.id).Nodup) : ofItems items = .ok ⟨items⟩ :=
  (ofItems_eq_ok_iff items ⟨items⟩).mpr ⟨hvalid, hdistinct, rfl⟩

theorem mapM_reread_ofItem : ∀ (items : List (Item Float)),
    (∀ x ∈ items.flatMap (·.shape.numbers), x.isFinite) →
    items.mapM (fun item => (Record.ofItem item).reread) =
      (items.mapM Item.reread).map (·.map Record.ofItem)
  | [], _ => rfl
  | item :: items, h => by
      rw [List.flatMap_cons] at h
      rw [List.mapM_cons, List.mapM_cons,
        Record.reread_ofItem item (fun x hx => h x (List.mem_append_left _ hx)),
        mapM_reread_ofItem items (fun x hx => h x (List.mem_append_right _ hx))]
      cases item.reread with
      | error fault => rfl
      | ok head => cases items.mapM Item.reread with
        | error fault => rfl
        | ok tail => rfl

theorem ofJson_toJson_eq (d : Drawing) (hvalid : ∀ item ∈ d.items, Item.validId item.id)
    (hdistinct : d.ids.Nodup) (hfinite : ∀ x ∈ d.numbers, x.isFinite) :
    ofJson d.toJson = d.reread.mapError .text := by
  rw [ofJson, run_toJson, mapM_reread_ofItem d.items hfinite, reread]
  cases hitems : d.items.mapM Item.reread with
  | error fault => rfl
  | ok items =>
      have hids := Item.ids_of_mapM_reread hitems
      -- names are not numbers: they are still valid and distinct
      have hvalid : ∀ item ∈ items, Item.validId item.id := by
        intro item hitem
        have hmem : item.id ∈ d.items.map Item.id := hids ▸ List.mem_map_of_mem hitem
        obtain ⟨before, hbefore, heq⟩ := List.mem_map.mp hmem
        exact heq ▸ hvalid before hbefore
      -- the text has been read; items are made of the records, and a drawing of the items
      show ofRecords (items.map Record.ofItem) = .ok ⟨items⟩
      have hrecords : (items.map Record.ofItem).mapM Record.toItem = .ok items := by
        rw [List.mapM_map]
        exact (mapM_eq_ok fun item hitem => Record.toItem_ofItem item (hvalid item hitem)).trans
          (by rw [List.map_id'])
      rw [ofRecords, hrecords]
      show (ofItems items).mapError DocumentFault.drawing = _
      rw [ofItems_eq items hvalid (hids ▸ hdistinct)]
      rfl

end Drawing

/-! ## When nothing moves -/

/-- A number that is read as it was written. -/
def Json.Steady (x : Float) : Prop := Json.reread x = .ok x

instance (x : Float) : Decidable (Json.Steady x) := inferInstanceAs (Decidable (_ = _))

theorem Shape.numbers_of_reread {shape shape' : Shape Float} (h : shape.reread = .ok shape') :
    shape.numbers.map Json.reread = shape'.numbers.map .ok := by
  cases shape with
  | rectangle corner width height =>
      rw [Shape.reread] at h
      obtain ⟨x, hx, h⟩ := ok_of_bind h
      obtain ⟨y, hy, h⟩ := ok_of_bind h
      obtain ⟨w, hw, h⟩ := ok_of_bind h
      obtain ⟨v, hv, h⟩ := ok_of_bind h
      obtain rfl := Except.ok.inj h
      simp only [Shape.numbers, List.map_cons, List.map_nil, hx, hy, hw, hv]
  | circle center radius =>
      rw [Shape.reread] at h
      obtain ⟨x, hx, h⟩ := ok_of_bind h
      obtain ⟨y, hy, h⟩ := ok_of_bind h
      obtain ⟨r, hr, h⟩ := ok_of_bind h
      obtain rfl := Except.ok.inj h
      simp only [Shape.numbers, List.map_cons, List.map_nil, hx, hy, hr]
  | text origin content size =>
      rw [Shape.reread] at h
      obtain ⟨x, hx, h⟩ := ok_of_bind h
      obtain ⟨y, hy, h⟩ := ok_of_bind h
      obtain ⟨s, hs, h⟩ := ok_of_bind h
      obtain rfl := Except.ok.inj h
      simp only [Shape.numbers, List.map_cons, List.map_nil, hx, hy, hs]

theorem Shape.reread_of_steady {shape : Shape Float} (h : ∀ x ∈ shape.numbers, Json.Steady x) :
    shape.reread = .ok shape := by
  unfold Json.Steady at h
  cases shape with
  | rectangle corner width height =>
      simp only [Shape.numbers, List.mem_cons, List.not_mem_nil, or_false, forall_eq_or_imp,
        forall_eq] at h
      rw [Shape.reread, h.1, h.2.1, h.2.2.1, h.2.2.2]
      rfl
  | circle center radius =>
      simp only [Shape.numbers, List.mem_cons, List.not_mem_nil, or_false, forall_eq_or_imp,
        forall_eq] at h
      rw [Shape.reread, h.1, h.2.1, h.2.2]
      rfl
  | text origin content size =>
      simp only [Shape.numbers, List.mem_cons, List.not_mem_nil, or_false, forall_eq_or_imp,
        forall_eq] at h
      rw [Shape.reread, h.1, h.2.1, h.2.2]
      rfl

namespace Drawing

theorem numbers_of_mapM_reread {items items' : List (Item Float)}
    (h : items.mapM Item.reread = .ok items') :
    (items.flatMap (·.shape.numbers)).map Json.reread =
      (items'.flatMap (·.shape.numbers)).map .ok := by
  have hitems := forall₂_of_mapM h
  clear h
  induction hitems with
  | nil => rfl
  | cons hitem _ ih =>
      obtain ⟨shape, hshape, hitem⟩ := ok_of_bind hitem
      obtain rfl := Except.ok.inj hitem
      rw [List.flatMap_cons, List.flatMap_cons, List.map_append, List.map_append, ih,
        Shape.numbers_of_reread hshape]

theorem numbers_of_reread {d d' : Drawing} (h : d.reread = .ok d') :
    d.numbers.map Json.reread = d'.numbers.map .ok := by
  obtain ⟨items, hitems, h⟩ := ok_of_bind h
  obtain rfl := Except.ok.inj h
  exact numbers_of_mapM_reread hitems

theorem reread_of_steady {d : Drawing} (h : ∀ x ∈ d.numbers, Json.Steady x) :
    d.reread = .ok d := by
  have hitems : d.items.mapM Item.reread = .ok (d.items.map id) := by
    refine mapM_eq_ok fun item hitem => ?_
    have hshape : ∀ x ∈ item.shape.numbers, Json.Steady x :=
      fun x hx => h x (List.mem_flatMap.mpr ⟨item, hitem, hx⟩)
    rw [Item.reread, Shape.reread_of_steady hshape]
    rfl
  rw [reread, hitems, List.map_id]
  rfl

/--
**A drawing comes back with its numbers reread and nothing else changed.** It has
the numbers that it had exactly when every one of them is steady; it is then the
same drawing, and every machine is given the same program for it.
-/
theorem ofJson_toJson (d : Drawing) (hvalid : ∀ item ∈ d.items, Item.validId item.id)
    (hdistinct : d.ids.Nodup) (hfinite : ∀ x ∈ d.numbers, x.isFinite) :
    ofJson d.toJson = d.reread.mapError .text ∧
      ((∃ d', ofJson d.toJson = .ok d' ∧ d'.numbers = d.numbers) ↔
        ∀ x ∈ d.numbers, Json.Steady x) ∧
      ((∀ x ∈ d.numbers, Json.Steady x) →
        ofJson d.toJson = .ok d ∧
          ∀ m, (ofJson d.toJson).map (Program.compile m) = .ok (Program.compile m d)) := by
  have hload := ofJson_toJson_eq d hvalid hdistinct hfinite
  have hsteady : (∀ x ∈ d.numbers, Json.Steady x) → ofJson d.toJson = .ok d := by
    intro h
    rw [hload, reread_of_steady h]
    rfl
  refine ⟨hload, ⟨?_, fun h => ⟨d, hsteady h, rfl⟩⟩, fun h => ⟨hsteady h, fun m => ?_⟩⟩
  · -- a drawing that came back with the old numbers came back with each number reread
    rintro ⟨d', hd', hnumbers⟩ x hx
    rw [hload] at hd'
    cases hreread : d.reread with
    | error fault =>
        rw [hreread] at hd'
        exact absurd hd' (by rintro ⟨⟩)
    | ok again =>
        rw [hreread] at hd'
        obtain rfl := Except.ok.inj hd'
        have hmap := numbers_of_reread hreread
        rw [hnumbers] at hmap
        exact List.map_inj_left.mp hmap x hx
  · rw [hsteady h]
    rfl

-- Ordinary sizes are steady, but one number in ten of those that need all their digits is not.
example : (∀ x ∈ [(50 : Float), 3.175, -0.0, 0.1, 1e22, 5e-324], Json.Steady x) ∧
    ¬ Json.Steady 90.33333333333333 := by decide +kernel

/-- A circle far out, whose distance needs seventeen digits. -/
def farCircle (x : Float) : Drawing := ⟨[⟨"c", .circle ⟨x, 0⟩ 5⟩]⟩

/-- The circle is read one place of the last digit further out than it was written. -/
theorem ofJson_toJson_farCircle :
    ((∀ item ∈ (farCircle 123456789012345.67).items, Item.validId item.id) ∧
      (farCircle 123456789012345.67).ids.Nodup ∧
      ∀ x ∈ (farCircle 123456789012345.67).numbers, x.isFinite) ∧
    ofJson (farCircle 123456789012345.67).toJson = .ok (farCircle 123456789012345.69) ∧
    ¬ ∃ d', ofJson (farCircle 123456789012345.67).toJson = .ok d' ∧
      d'.numbers = (farCircle 123456789012345.67).numbers := by
  have hvalid : ∀ item ∈ (farCircle 123456789012345.67).items, Item.validId item.id := by
    decide +kernel
  have hdistinct : (farCircle 123456789012345.67).ids.Nodup := by decide +kernel
  have hfinite : ∀ x ∈ (farCircle 123456789012345.67).numbers, x.isFinite := by decide +kernel
  obtain ⟨hload, hsame, -⟩ := ofJson_toJson _ hvalid hdistinct hfinite
  refine ⟨⟨hvalid, hdistinct, hfinite⟩, ?_, ?_⟩
  · rw [hload]
    have hreread : (farCircle 123456789012345.67).reread = .ok (farCircle 123456789012345.69) := by
      decide +kernel
    rw [hreread]
    rfl
  · rw [hsame]
    decide +kernel

end Drawing

end Milling
