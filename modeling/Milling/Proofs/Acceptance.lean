import Milling.Drawing.Record
import Milling.Proofs.Edits

/-!
# Which records make a drawing

Records become a drawing in two stages. The first looks at one record at a time: at its
name, at its kind, and at the sizes that the kind requires. The second puts the items
into a drawing and looks at the names again, this time at how they go together.

Because a stage ends before the next one begins, a record that is no item is reported
even behind one that repeats a name. And because both stages ask the same of a single
name, the second never finds a name that it calls invalid: what is left for it to
refuse is a name that stands in the drawing already.
-/

namespace Milling

open Json (Reader)
open Outcome (ok_of_bind forall₂_of_mapM exists_mapM_eq_ok_iff map_eq_error_iff
  mapError_eq_error_iff mapM_eq_error_iff)

namespace Record

/-! ## What a record says -/

/-- The kinds that a record can name. -/
def kinds : List String := ["RECTANGLE", "CIRCLE", "TEXT"]

/-- The sizes that the kind of a record requires, under the names that they travel by. -/
def required (r : Record) : List (String × Option Float) :=
  if r.kind = "RECTANGLE" then [("width", r.width), ("height", r.height)]
  else if r.kind = "CIRCLE" then [("radius", r.radius)]
  else if r.kind = "TEXT" then [("fontSize", r.size)]
  else []

/-- A record that says all that an item needs. -/
structure Complete (r : Record) : Prop where
  named : r.id ≠ ""
  unbroken : ∀ c ∈ r.id.toList, Text.isControl c = false
  kind : r.kind ∈ kinds
  sizes : ∀ size ∈ r.required, size.2.isSome

/-- The shape that a record describes. Sizes of other kinds have no part in it. -/
inductive Describes (r : Record) : Shape Float → Prop where
  | rectangle {width height : Float} : r.kind = "RECTANGLE" → r.width = some width →
      r.height = some height → Describes r (.rectangle ⟨r.x, r.y⟩ width height)
  | circle {radius : Float} : r.kind = "CIRCLE" → r.radius = some radius →
      Describes r (.circle ⟨r.x, r.y⟩ radius)
  | text {size : Float} : r.kind = "TEXT" → r.size = some size →
      Describes r (.text ⟨r.x, r.y⟩ (r.text.getD "") size)

/-- What is wrong with a record on its own. The name is looked at first, and the kind next. -/
inductive Flawed (r : Record) : Fault → Prop where
  | unnamed : r.id = "" → Flawed r .emptyId
  | broken {c : Char} : c ∈ r.id.toList → Text.isControl c = true → Flawed r (.controlInId r.id)
  | unknown : Item.validId r.id = true → r.kind ∉ kinds → Flawed r (.unknownKind r.kind r.id)
  | missing {before after : List (String × Option Float)} {field : String} :
      Item.validId r.id = true → r.required = before ++ (field, none) :: after →
      (∀ size ∈ before, size.2.isSome) → Flawed r (.missing r.kind r.id field)

variable {r : Record}

theorem validId_iff {id : String} :
    Item.validId id = true ↔ id ≠ "" ∧ ∀ c ∈ id.toList, Text.isControl c = false := by
  simp [Item.validId]

/-! ## Kinds and sizes -/

theorem kind_cases (h : r.kind ∈ kinds) :
    r.kind = "RECTANGLE" ∨ r.kind = "CIRCLE" ∨ r.kind = "TEXT" := by
  simpa [kinds] using h

theorem kind_of_required (h : r.required ≠ []) : r.kind ∈ kinds := by
  by_contra hkind
  simp only [kinds, List.mem_cons, List.not_mem_nil, or_false, not_or] at hkind
  rw [required, if_neg hkind.1, if_neg hkind.2.1, if_neg hkind.2.2] at h
  exact h rfl

theorem need_eq_ok_iff {field : String} {size : Option Float} {value : Float} :
    r.need field size = .ok value ↔ size = some value := by
  cases size with
  | none => simp [need]
  | some found => simp [need]

theorem need_eq_error_iff {field : String} {size : Option Float} {fault : Fault} :
    r.need field size = .error fault ↔ size = none ∧ fault = .missing r.kind r.id field := by
  cases size with
  | none => simp [need, eq_comm]
  | some found => simp [need]

theorem toShape_of_unknown (h : r.kind ∉ kinds) :
    r.toShape = .error (.unknownKind r.kind r.id) := by
  simp only [kinds, List.mem_cons, List.not_mem_nil, or_false, not_or] at h
  rw [toShape, if_neg h.1, if_neg h.2.1, if_neg h.2.2]

section Kinds

variable (r)

/-- What a kind asks for, and what it is made into. Only the first kind that fits counts. -/
theorem kind_rectangle (h : r.kind = "RECTANGLE") :
    r.required = [("width", r.width), ("height", r.height)] ∧
      r.toShape = (do
        let width ← r.need "width" r.width
        let height ← r.need "height" r.height
        .ok (.rectangle ⟨r.x, r.y⟩ width height)) := by
  rw [required, toShape, if_pos h, if_pos h]
  exact ⟨rfl, rfl⟩

theorem kind_circle (h : r.kind = "CIRCLE") :
    r.required = [("radius", r.radius)] ∧
      r.toShape = (do .ok (.circle ⟨r.x, r.y⟩ (← r.need "radius" r.radius))) := by
  have hrectangle : r.kind ≠ "RECTANGLE" := by rw [h]; decide
  rw [required, toShape, if_neg hrectangle, if_neg hrectangle, if_pos h, if_pos h]
  exact ⟨rfl, rfl⟩

theorem kind_text (h : r.kind = "TEXT") :
    r.required = [("fontSize", r.size)] ∧
      r.toShape = (do .ok (.text ⟨r.x, r.y⟩ (r.text.getD "") (← r.need "fontSize" r.size))) := by
  have hrectangle : r.kind ≠ "RECTANGLE" := by rw [h]; decide
  have hcircle : r.kind ≠ "CIRCLE" := by rw [h]; decide
  rw [required, toShape, if_neg hrectangle, if_neg hrectangle, if_neg hcircle, if_neg hcircle,
    if_pos h, if_pos h]
  exact ⟨rfl, rfl⟩

end Kinds

/-- **A record is made into the shape that it describes.** -/
theorem toShape_eq_ok_iff {shape : Shape Float} : r.toShape = .ok shape ↔ r.Describes shape := by
  constructor
  · intro h
    by_cases hkind : r.kind ∈ kinds
    · rcases kind_cases hkind with hkind | hkind | hkind
      · rw [(r.kind_rectangle hkind).2] at h
        obtain ⟨width, hwidth, h⟩ := ok_of_bind h
        obtain ⟨height, hheight, h⟩ := ok_of_bind h
        obtain rfl := Except.ok.inj h
        exact .rectangle hkind (need_eq_ok_iff.mp hwidth) (need_eq_ok_iff.mp hheight)
      · rw [(r.kind_circle hkind).2] at h
        obtain ⟨radius, hradius, h⟩ := ok_of_bind h
        obtain rfl := Except.ok.inj h
        exact .circle hkind (need_eq_ok_iff.mp hradius)
      · rw [(r.kind_text hkind).2] at h
        obtain ⟨size, hsize, h⟩ := ok_of_bind h
        obtain rfl := Except.ok.inj h
        exact .text hkind (need_eq_ok_iff.mp hsize)
    · rw [toShape_of_unknown hkind] at h
      cases h
  · rintro (⟨hkind, hwidth, hheight⟩ | ⟨hkind, hradius⟩ | ⟨hkind, hsize⟩)
    · rw [(r.kind_rectangle hkind).2, hwidth, hheight]
      rfl
    · rw [(r.kind_circle hkind).2, hradius]
      rfl
    · rw [(r.kind_text hkind).2, hsize]
      rfl

/-- With a known kind, a record fails where one of the required sizes does. -/
theorem map_toShape (h : r.kind ∈ kinds) :
    r.toShape.map (fun _ => ()) =
      (r.required.mapM fun size => r.need size.1 size.2).map fun _ => () := by
  rcases kind_cases h with hkind | hkind | hkind
  · obtain ⟨hrequired, hshape⟩ := r.kind_rectangle hkind
    rw [hrequired, hshape]
    cases r.width with
    | none => rfl
    | some width => cases r.height with
      | none => rfl
      | some height => rfl
  · obtain ⟨hrequired, hshape⟩ := r.kind_circle hkind
    rw [hrequired, hshape]
    cases r.radius with
    | none => rfl
    | some radius => rfl
  · obtain ⟨hrequired, hshape⟩ := r.kind_text hkind
    rw [hrequired, hshape]
    cases r.size with
    | none => rfl
    | some size => rfl

theorem toShape_eq_error_iff_of_kind (h : r.kind ∈ kinds) {fault : Fault} :
    r.toShape = .error fault ↔ ∃ before field after,
      r.required = before ++ (field, none) :: after ∧ (∀ size ∈ before, size.2.isSome) ∧
        fault = .missing r.kind r.id field := by
  rw [← map_eq_error_iff, map_toShape h, map_eq_error_iff, mapM_eq_error_iff]
  constructor
  · rintro ⟨before, ⟨field, size⟩, after, hsplit, hbefore, hneed⟩
    obtain ⟨rfl, rfl⟩ := need_eq_error_iff.mp hneed
    refine ⟨before, field, after, hsplit, ?_, rfl⟩
    intro other hother
    obtain ⟨value, hvalue⟩ := hbefore other hother
    rw [need_eq_ok_iff.mp hvalue]
    rfl
  · rintro ⟨before, field, after, hsplit, hbefore, rfl⟩
    refine ⟨before, (field, none), after, hsplit, ?_, rfl⟩
    intro other hother
    obtain ⟨value, hvalue⟩ := Option.isSome_iff_exists.mp (hbefore other hother)
    exact ⟨value, need_eq_ok_iff.mpr hvalue⟩

/-- **A record describes a shape exactly if it has the sizes of a known kind.** -/
theorem exists_describes_iff :
    (∃ shape, r.Describes shape) ↔ r.kind ∈ kinds ∧ ∀ size ∈ r.required, size.2.isSome := by
  constructor
  · rintro ⟨_, ⟨hkind, hwidth, hheight⟩ | ⟨hkind, hradius⟩ | ⟨hkind, hsize⟩⟩
    · refine ⟨by simp [kinds, hkind], ?_⟩
      rw [(r.kind_rectangle hkind).1, hwidth, hheight]
      simp
    · refine ⟨by simp [kinds, hkind], ?_⟩
      rw [(r.kind_circle hkind).1, hradius]
      simp
    · refine ⟨by simp [kinds, hkind], ?_⟩
      rw [(r.kind_text hkind).1, hsize]
      simp
  · rintro ⟨hkind, hsizes⟩
    cases hshape : r.toShape with
    | ok shape => exact ⟨shape, toShape_eq_ok_iff.mp hshape⟩
    | error fault =>
        obtain ⟨before, field, after, hsplit, -, -⟩ :=
          (toShape_eq_error_iff_of_kind hkind).mp hshape
        have hsome := hsizes (field, none) (by rw [hsplit]; simp)
        cases hsome

/-! ## Items -/

theorem complete_iff :
    r.Complete ↔ Item.validId r.id = true ∧ ∃ shape, r.Describes shape := by
  rw [exists_describes_iff]
  constructor
  · rintro ⟨hnamed, hunbroken, hkind, hsizes⟩
    exact ⟨validId_iff.mpr ⟨hnamed, hunbroken⟩, hkind, hsizes⟩
  · rintro ⟨hvalid, hkind, hsizes⟩
    obtain ⟨hnamed, hunbroken⟩ := validId_iff.mp hvalid
    exact ⟨hnamed, hunbroken, hkind, hsizes⟩

/-- What is found wrong with a name. -/
theorem toItem_of_invalid (h : Item.validId r.id = false) :
    r.id = "" ∧ r.toItem = .error .emptyId ∨
      (∃ c ∈ r.id.toList, Text.isControl c = true) ∧ r.toItem = .error (.controlInId r.id) := by
  by_cases hnamed : r.id = ""
  · exact .inl ⟨hnamed, by rw [toItem, if_pos hnamed]⟩
  · have hbroken : r.id.toList.any Text.isControl = true := by
      by_contra hunbroken
      rw [validId_iff.mpr ⟨hnamed, by simpa using hunbroken⟩] at h
      cases h
    refine .inr ⟨List.any_eq_true.mp hbroken, ?_⟩
    rw [toItem, if_neg hnamed, if_pos hbroken]

theorem toItem_of_valid (h : Item.validId r.id = true) :
    r.toItem = r.toShape.map fun shape => ⟨r.id, shape⟩ := by
  obtain ⟨hnamed, hunbroken⟩ := validId_iff.mp h
  have hnone : ¬ r.id.toList.any Text.isControl = true := by simpa using hunbroken
  rw [toItem, if_neg hnamed, if_neg hnone]
  cases r.toShape with
  | ok shape => rfl
  | error fault => rfl

/-- **A record is made into the item that it describes**, under its own name. -/
theorem toItem_eq_ok_iff {item : Item Float} :
    r.toItem = .ok item ↔
      Item.validId r.id = true ∧ item.id = r.id ∧ r.Describes item.shape := by
  cases hvalid : Item.validId r.id with
  | false =>
      rcases toItem_of_invalid hvalid with ⟨-, hitem⟩ | ⟨-, hitem⟩
      · simp [hitem]
      · simp [hitem]
  | true =>
      rw [toItem_of_valid hvalid, ← toShape_eq_ok_iff]
      cases r.toShape with
      | error fault => simp [Except.map]
      | ok shape =>
          obtain ⟨id, other⟩ := item
          simp [Except.map, eq_comm]

/-- **A record that is no item is refused for what is wrong with it first.** -/
theorem toItem_eq_error_iff {fault : Fault} : r.toItem = .error fault ↔ r.Flawed fault := by
  constructor
  · intro h
    cases hvalid : Item.validId r.id with
    | false =>
        rcases toItem_of_invalid hvalid with ⟨hnamed, hitem⟩ | ⟨⟨c, hc, hcontrol⟩, hitem⟩
        · rw [hitem] at h
          obtain rfl := Except.error.inj h
          exact .unnamed hnamed
        · rw [hitem] at h
          obtain rfl := Except.error.inj h
          exact .broken hc hcontrol
    | true =>
        rw [toItem_of_valid hvalid, map_eq_error_iff] at h
        by_cases hkind : r.kind ∈ kinds
        · obtain ⟨before, field, after, hsplit, hbefore, rfl⟩ :=
            (toShape_eq_error_iff_of_kind hkind).mp h
          exact .missing hvalid hsplit hbefore
        · rw [toShape_of_unknown hkind] at h
          obtain rfl := Except.error.inj h
          exact .unknown hvalid hkind
  · rintro (hnamed | ⟨hc, hcontrol⟩ | ⟨hvalid, hkind⟩ | ⟨hvalid, hsplit, hbefore⟩)
    · rw [toItem, if_pos hnamed]
    · have hnamed : r.id ≠ "" := by
        intro hempty
        rw [hempty] at hc
        exact absurd hc List.not_mem_nil
      rw [toItem, if_neg hnamed, if_pos (List.any_eq_true.mpr ⟨_, hc, hcontrol⟩)]
    · rw [toItem_of_valid hvalid, toShape_of_unknown hkind]
      rfl
    · have hkind : r.kind ∈ kinds := kind_of_required (by rw [hsplit]; simp)
      rw [toItem_of_valid hvalid, map_eq_error_iff, toShape_eq_error_iff_of_kind hkind]
      exact ⟨_, _, _, hsplit, hbefore, rfl⟩

theorem complete_iff_exists_item : r.Complete ↔ ∃ item, r.toItem = .ok item := by
  rw [complete_iff]
  constructor
  · rintro ⟨hvalid, shape, hshape⟩
    exact ⟨⟨r.id, shape⟩, toItem_eq_ok_iff.mpr ⟨hvalid, rfl, hshape⟩⟩
  · rintro ⟨item, hitem⟩
    obtain ⟨hvalid, -, hshape⟩ := toItem_eq_ok_iff.mp hitem
    exact ⟨hvalid, item.shape, hshape⟩

/-- The test of a record's name and that of a drawing refuse the same names. -/
theorem validId_eq_false_iff :
    Item.validId r.id = false ↔
      r.toItem = .error .emptyId ∨ r.toItem = .error (.controlInId r.id) := by
  constructor
  · intro h
    rcases toItem_of_invalid h with ⟨-, hitem⟩ | ⟨-, hitem⟩
    · exact .inl hitem
    · exact .inr hitem
  · intro h
    by_contra hvalid
    rw [Bool.not_eq_false] at hvalid
    rw [toItem_of_valid hvalid, map_eq_error_iff, map_eq_error_iff] at h
    by_cases hkind : r.kind ∈ kinds
    · rw [toShape_eq_error_iff_of_kind hkind, toShape_eq_error_iff_of_kind hkind] at h
      simp at h
    · rw [toShape_of_unknown hkind] at h
      simp at h

end Record

namespace Drawing

variable {records : List Record}

/-! ## Drawings -/

/-- Items keep the names of their records, and bring no name that is not valid. -/
theorem ids_of_mapM_toItem {items : List (Item Float)}
    (h : records.mapM Record.toItem = .ok items) :
    items.map Item.id = records.map Record.id ∧ ∀ item ∈ items, Item.validId item.id = true := by
  have hitems := forall₂_of_mapM h
  clear h
  induction hitems with
  | nil => exact ⟨rfl, by simp⟩
  | cons hitem _ ih =>
      obtain ⟨hvalid, hid, -⟩ := Record.toItem_eq_ok_iff.mp hitem
      refine ⟨?_, List.forall_mem_cons.mpr ⟨hid ▸ hvalid, ih.2⟩⟩
      rw [List.map_cons, List.map_cons, hid, ih.1]

/-- Once every record is an item, only the names can keep the items from being a drawing. -/
theorem ofRecords_of_mapM {items : List (Item Float)}
    (h : records.mapM Record.toItem = .ok items) :
    ofRecords records = (ofItems items).mapError .drawing := by
  rw [ofRecords, h]
  rfl

theorem ofRecords_of_error {fault : Record.Fault} (h : records.mapM Record.toItem = .error fault) :
    ofRecords records = .error (.record fault) := by
  rw [ofRecords, h]
  rfl

theorem ofRecords_eq_ok_iff {d : Drawing} :
    ofRecords records = .ok d ↔
      records.mapM Record.toItem = .ok d.items ∧ (records.map Record.id).Nodup := by
  cases hitems : records.mapM Record.toItem with
  | error fault =>
      rw [ofRecords_of_error hitems]
      simp
  | ok items =>
      obtain ⟨hids, hvalid⟩ := ids_of_mapM_toItem hitems
      rw [ofRecords_of_mapM hitems, ← hids]
      constructor
      · intro h
        cases hof : ofItems items with
        | error fault =>
            rw [hof] at h
            cases h
        | ok d' =>
            rw [hof] at h
            obtain rfl : d' = d := Except.ok.inj h
            obtain ⟨-, hdistinct, rfl⟩ := (ofItems_eq_ok_iff items d').mp hof
            exact ⟨rfl, hdistinct⟩
      · rintro ⟨hsame, hdistinct⟩
        obtain rfl := Except.ok.inj hsame
        rw [(ofItems_eq_ok_iff d.items d).mpr ⟨hvalid, hdistinct, rfl⟩]
        rfl

/-- A name that is repeated, told by the records. -/
theorem ofItems_eq_error_iff_of_mapM {items : List (Item Float)}
    (h : records.mapM Record.toItem = .ok items) {fault : Fault} :
    ofItems items = .error fault ↔ ∃ before r after, records = before ++ r :: after ∧
      (before.map Record.id).Nodup ∧ r.id ∈ before.map Record.id ∧ fault = .duplicate r.id := by
  obtain ⟨hids, hvalid⟩ := ids_of_mapM_toItem h
  rw [ofItems_eq_error_iff]
  constructor
  · rintro ⟨before, item, after, rfl, -, hdistinct, hrefused⟩
    rw [List.map_append, List.map_cons, eq_comm, List.map_eq_append_iff] at hids
    obtain ⟨before', rest, rfl, hbefore, hrest⟩ := hids
    obtain ⟨r, after', rfl, hr, -⟩ := List.map_eq_cons_iff.mp hrest
    rw [← hbefore] at hdistinct hrefused
    rcases hrefused with ⟨hinvalid, -⟩ | ⟨-, hmem, hfault⟩
    · rw [hvalid item (by simp)] at hinvalid
      cases hinvalid
    · exact ⟨before', r, after', rfl, hdistinct, hr ▸ hmem, hr ▸ hfault⟩
  · rintro ⟨before, r, after, rfl, hdistinct, hmem, hfault⟩
    rw [List.map_append, List.map_cons, List.map_eq_append_iff] at hids
    obtain ⟨before', rest, rfl, hbefore, hrest⟩ := hids
    obtain ⟨item, after', rfl, hr, -⟩ := List.map_eq_cons_iff.mp hrest
    rw [← hbefore] at hdistinct hmem
    refine ⟨before', item, after', rfl, ?_, hdistinct, .inr ⟨hvalid item (by simp), ?_, ?_⟩⟩
    · intro other hother
      exact hvalid other (List.mem_append_left _ hother)
    · rwa [hr]
    · rwa [hr]

/-- Why some records are no drawing. A flaw in one of them comes before a repeated name. -/
theorem ofRecords_eq_error_iff {f : DocumentFault} :
    ofRecords records = .error f ↔
      (∃ before r after fault, records = before ++ r :: after ∧
        (∀ other ∈ before, other.Complete) ∧ r.Flawed fault ∧ f = .record fault) ∨
      (∀ r ∈ records, r.Complete) ∧ ∃ before r after, records = before ++ r :: after ∧
        (before.map Record.id).Nodup ∧ r.id ∈ before.map Record.id ∧
          f = .drawing (.duplicate r.id) := by
  constructor
  · intro h
    cases hitems : records.mapM Record.toItem with
    | error fault =>
        rw [ofRecords_of_error hitems] at h
        obtain rfl := Except.error.inj h
        obtain ⟨before, r, after, hsplit, hbefore, hr⟩ := mapM_eq_error_iff.mp hitems
        refine .inl ⟨before, r, after, fault, hsplit, ?_, Record.toItem_eq_error_iff.mp hr, rfl⟩
        intro other hother
        exact Record.complete_iff_exists_item.mpr (hbefore other hother)
    | ok items =>
        have hcomplete : ∀ r ∈ records, r.Complete := by
          intro r hr
          exact Record.complete_iff_exists_item.mpr (exists_mapM_eq_ok_iff.mp ⟨items, hitems⟩ r hr)
        rw [ofRecords_of_mapM hitems, mapError_eq_error_iff] at h
        obtain ⟨fault, hfault, rfl⟩ := h
        obtain ⟨before, r, after, hsplit, hdistinct, hmem, rfl⟩ :=
          (ofItems_eq_error_iff_of_mapM hitems).mp hfault
        exact .inr ⟨hcomplete, before, r, after, hsplit, hdistinct, hmem, rfl⟩
  · rintro (⟨before, r, after, fault, hsplit, hbefore, hr, rfl⟩ |
      ⟨hcomplete, before, r, after, hsplit, hdistinct, hmem, rfl⟩)
    · refine ofRecords_of_error (mapM_eq_error_iff.mpr ⟨before, r, after, hsplit, ?_, ?_⟩)
      · intro other hother
        exact Record.complete_iff_exists_item.mp (hbefore other hother)
      · exact Record.toItem_eq_error_iff.mpr hr
    · obtain ⟨items, hitems⟩ := exists_mapM_eq_ok_iff.mpr fun r hr =>
        Record.complete_iff_exists_item.mp (hcomplete r hr)
      rw [ofRecords_of_mapM hitems, mapError_eq_error_iff]
      exact ⟨_, (ofItems_eq_error_iff_of_mapM hitems).mpr
        ⟨before, r, after, hsplit, hdistinct, hmem, rfl⟩, rfl⟩

/-- Some records make a drawing exactly if all of them are complete and no name is repeated. -/
theorem exists_ofRecords_iff :
    (∃ d, ofRecords records = .ok d) ↔
      (∀ r ∈ records, r.Complete) ∧ (records.map Record.id).Nodup := by
  have hall : (∃ items, records.mapM Record.toItem = .ok items) ↔ ∀ r ∈ records, r.Complete := by
    rw [exists_mapM_eq_ok_iff]
    exact forall₂_congr fun r _ => Record.complete_iff_exists_item.symm
  rw [← hall]
  constructor
  · rintro ⟨d, hd⟩
    obtain ⟨hitems, hdistinct⟩ := ofRecords_eq_ok_iff.mp hd
    exact ⟨⟨d.items, hitems⟩, hdistinct⟩
  · rintro ⟨⟨items, hitems⟩, hdistinct⟩
    exact ⟨⟨items⟩, ofRecords_eq_ok_iff.mpr ⟨hitems, hdistinct⟩⟩

/-- The items of a drawing are those that the records describe, one by one. -/
theorem items_of_ofRecords {d : Drawing} (h : ofRecords records = .ok d) :
    List.Forall₂ (fun r item => item.id = r.id ∧ r.Describes item.shape) records d.items := by
  refine (forall₂_of_mapM (ofRecords_eq_ok_iff.mp h).1).imp ?_
  intro r item hitem
  exact (Record.toItem_eq_ok_iff.mp hitem).2

theorem ofJson_of_read {document : String}
    (h : Reader.run (Reader.list Record.read) document = .ok records) :
    ofJson document = ofRecords records := by
  rw [ofJson, h]
  rfl

/--
**Which documents are read as drawings, and why the others are not.** Of the records in a
document, all have to be complete and no two may have the same name. What they describe is
then put into the drawing, one item for each record. Otherwise the fault is that of the
first record that is no item, wherever names may be repeated; and only if all records are
items it is the first repeated name. A name that is not valid is always found in a record.
-/
theorem ofJson_accepts (document : String) (records : List Record)
    (h : Reader.run (Reader.list Record.read) document = .ok records) :
    ((∃ d, ofJson document = .ok d) ↔
      (∀ r ∈ records, r.Complete) ∧ (records.map Record.id).Nodup) ∧
    (∀ d, ofJson document = .ok d →
      List.Forall₂ (fun r item => item.id = r.id ∧ r.Describes item.shape) records d.items) ∧
    (∀ f, ofJson document = .error f ↔
      (∃ before r after fault, records = before ++ r :: after ∧
        (∀ other ∈ before, other.Complete) ∧ r.Flawed fault ∧ f = .record fault) ∨
      (∀ r ∈ records, r.Complete) ∧ ∃ before r after, records = before ++ r :: after ∧
        (before.map Record.id).Nodup ∧ r.id ∈ before.map Record.id ∧
          f = .drawing (.duplicate r.id)) ∧
    (∀ id, ofJson document ≠ .error (.drawing (.invalid id))) ∧
    (∀ r : Record, Item.validId r.id = false ↔
      r.toItem = .error .emptyId ∨ r.toItem = .error (.controlInId r.id)) := by
  rw [ofJson_of_read h]
  refine ⟨exists_ofRecords_iff, fun d => items_of_ofRecords, fun f => ofRecords_eq_error_iff, ?_,
    fun r => Record.validId_eq_false_iff⟩
  intro id hinvalid
  rcases ofRecords_eq_error_iff.mp hinvalid with
    ⟨_, _, _, _, _, _, _, hfault⟩ | ⟨_, _, _, _, _, _, _, hfault⟩
  · cases hfault
  · cases hfault

/-- Three records, of which the second repeats a name and the third has no height. -/
def repeated : List Record :=
  [ { id := "a", kind := "CIRCLE", x := 0, y := 0, radius := some 5, text := some "" },
    { id := "a", kind := "TEXT", x := 1, y := 1, size := some 2 },
    { id := "b", kind := "RECTANGLE", x := 0, y := 0, width := some 3 } ]

/-- A document in which they stand. -/
def repeatedDocument : String :=
  "[\x7b\"id\":\"a\",\"type\":\"CIRCLE\",\"x\":0,\"y\":0,\"radius\":5,\"text\":\"\"\x7d," ++
  "\x7b\"id\":\"a\",\"type\":\"TEXT\",\"x\":1,\"y\":1,\"fontSize\":2\x7d," ++
  "\x7b\"id\":\"b\",\"type\":\"RECTANGLE\",\"x\":0,\"y\":0,\"width\":3\x7d]"

/-- A size that is missing is reported before a name that is repeated. -/
theorem ofJson_repeated :
    Reader.run (Reader.list Record.read) repeatedDocument = .ok repeated ∧
    ¬ (repeated.map Record.id).Nodup ∧
    ofJson repeatedDocument = .error (.record (.missing "RECTANGLE" "b" "height")) := by
  have hread : Reader.run (Reader.list Record.read) repeatedDocument = .ok repeated := by
    decide +kernel
  refine ⟨hread, by decide, ?_⟩
  obtain ⟨-, -, hfault, -⟩ := ofJson_accepts repeatedDocument repeated hread
  refine (hfault _).mpr (.inl ⟨repeated.take 2, _, [], _, rfl, ?_, ?_, rfl⟩)
  · intro r hr
    simp only [repeated, List.take_succ_cons, List.take_zero, List.mem_cons, List.not_mem_nil,
      or_false] at hr
    rcases hr with rfl | rfl
    · exact Record.complete_iff_exists_item.mpr ⟨_, rfl⟩
    · exact Record.complete_iff_exists_item.mpr ⟨_, rfl⟩
  · have hrequired : (repeated[2]).required = [("width", some 3)] ++ ("height", none) :: [] := rfl
    exact .missing (by decide) hrequired (by decide)

end Drawing

end Milling
