import Mathlib.Data.List.DropRight
import Mathlib.Data.List.Nodup
import Milling.Drawing.Basic
import Milling.Proofs.Outcomes

/-!
# What a drawing holds, told by its edits

A drawing is a list that is searched from the front, and nothing in the list itself
keeps a name from standing in it twice. What makes it a map from names to shapes, with
an order, is that every way to change it keeps the names apart.

`Kept` says what a history of edits tells about the drawing that it led to: which
names are in it, in which order, and which shape stands under each. A step lemma for
each kind of edit shows that it goes on telling the truth, and `Answers` says which
edits a drawing refuses and what the others do to its list.
-/

namespace Milling.Drawing

open Outcome (ok_of_bind foldlM_eq_error_iff)

/-! ## Edits and their history -/

/-- What can be done to a drawing. -/
inductive Edit where
  /-- Adds a shape under a name made for it. -/
  | push (id : String) (shape : Shape Float)
  /-- Adds an item that brings its own name. -/
  | insert (item : Item Float)
  /-- Puts another shape under a name that is there. -/
  | update (item : Item Float)
  | remove (id : String)
  | clear
  /-- Puts other items in the place of all that are there. -/
  | replace (items : List (Item Float))

/-- The drawing that an edit makes, unless it is refused. -/
def edit (d : Drawing) : Edit → Except Fault Drawing
  | .push id shape => .ok (d.push id shape)
  | .insert item => d.insert item
  | .update item => d.update item
  | .remove id => (d.remove id).map Prod.snd
  | .clear => .ok empty
  | .replace items => ofItems items

/-- The drawing after an edit. One that is refused changes nothing. -/
def edited (d : Drawing) (e : Edit) : Drawing :=
  match d.edit e with
  | .ok d' => d'
  | .error _ => d

/-- The drawing after some edits, one after the other. -/
def run (d : Drawing) (edits : List Edit) : Drawing := edits.foldl edited d

namespace Edit

/-- What an edit amounts to: a replacement is a fresh start and one insertion after the other. -/
def steps : Edit → List Edit
  | .replace items => .clear :: items.map .insert
  | e => [e]

/-- The name that an edit adds. -/
def added? : Edit → Option String
  | .push id _ => some id
  | .insert item => some item.id
  | _ => none

/-- The shape that an edit puts under a name. -/
def shape? (id : String) : Edit → Option (Shape Float)
  | .push new shape => if new = id then some shape else none
  | .insert item => if item.id = id then some item.shape else none
  | .update item => if item.id = id then some item.shape else none
  | _ => none

/-- Whether a name is no longer there after an edit. -/
def drops (id : String) : Edit → Bool
  | .remove old => old = id
  | .clear => true
  | _ => false

end Edit

/-- What took effect of some edits, step by step. -/
def history (d : Drawing) : List Edit → List Edit
  | [] => []
  | e :: edits =>
    (match d.edit e with
      | .ok _ => e.steps
      | .error _ => []) ++ history (d.edited e) edits

/-- The shape last put under a name since the name last went. -/
def lastShape? (history : List Edit) (id : String) : Option (Shape Float) :=
  ((history.rtakeWhile (!·.drops id)).filterMap (Edit.shape? id)).getLast?

/-- The names added that have not gone since, in the order in which they came. -/
def standing : List Edit → List String
  | [] => []
  | e :: later =>
    match e.added? with
    | some id => if later.any (·.drops id) then standing later else id :: standing later
    | none => standing later

/-- Every name that was made for a shape is valid and not in the drawing yet. -/
def FreshNames (d : Drawing) : List Edit → Prop
  | [] => True
  | e :: edits =>
    (∀ id shape, e = .push id shape → Item.validId id ∧ id ∉ d.ids) ∧ FreshNames (d.edited e) edits

theorem lastShape?_concat (h : List Edit) (e : Edit) (id : String) :
    lastShape? (h ++ [e]) id =
      if e.drops id then none else (e.shape? id).or (lastShape? h id) := by
  rw [lastShape?, List.rtakeWhile_concat]
  cases hd : e.drops id with
  | true => rfl
  | false =>
      rw [Bool.not_false, if_pos rfl, List.filterMap_append, List.getLast?_append, lastShape?]
      cases hs : e.shape? id with
      | none => simp [hs]
      | some shape => simp [hs]

theorem standing_concat (h : List Edit) (e : Edit) :
    standing (h ++ [e]) = (standing h).filter (!e.drops ·) ++ e.added?.toList := by
  induction h with
  | nil =>
      rw [List.nil_append, standing, standing]
      cases e.added? with
      | none => rfl
      | some id => rfl
  | cons f h ih =>
      rw [List.cons_append, standing, standing]
      cases hf : f.added? with
      | none => exact ih
      | some id =>
          -- a name goes if it went before, or if it goes with the last edit
          dsimp only
          rw [ih, List.any_append]
          cases hgone : h.any (·.drops id) with
          | true => simp
          | false =>
              cases hlast : e.drops id with
              | true => simp [hlast]
              | false => simp [hlast]

/-! ## Looking up a name -/

theorem isSome_get?_iff (d : Drawing) (id : String) : (d.get? id).isSome ↔ id ∈ d.ids := by
  simp [get?, ids, List.find?_isSome]

theorem get?_eq_none_iff (d : Drawing) (id : String) : d.get? id = none ↔ id ∉ d.ids := by
  rw [← isSome_get?_iff, Option.not_isSome_iff_eq_none]

theorem id_of_get? {d : Drawing} {id : String} {item : Item Float} (h : d.get? id = some item) :
    item.id = id := by
  simpa using List.find?_some h

/-- Where names differ, the name of an item does not stand again behind it. -/
theorem id_ne_of_cons {head : Item Float} {rest : List (Item Float)}
    (h : ((head :: rest).map Item.id).Nodup) : ∀ old ∈ rest, old.id ≠ head.id := by
  intro old hold heq
  rw [List.map_cons, List.nodup_cons] at h
  exact h.1 (heq ▸ List.mem_map_of_mem hold)

theorem get?_of_mem {d : Drawing} (hd : d.ids.Nodup) {item : Item Float} (hmem : item ∈ d.items) :
    d.get? item.id = some item := by
  obtain ⟨found, hfound⟩ := Option.isSome_iff_exists.mp
    ((isSome_get?_iff d item.id).mpr (List.mem_map_of_mem hmem))
  -- two items of one name are one item
  rw [hfound, List.inj_on_of_nodup_map hd (List.mem_of_find?_eq_some hfound) hmem
    (id_of_get? hfound)]

theorem get?_push (d : Drawing) (new id : String) (shape : Shape Float) :
    (d.push new shape).get? id = (d.get? id).or (if new = id then some ⟨new, shape⟩ else none) := by
  rw [get?, push, List.find?_append, get?]
  by_cases h : new = id <;> simp [h]

/-! ## What is refused, and what the rest does -/

/-- Why an item may not join items of the given names: its own name is tested first. -/
def Refused (ids : List String) (item : Item Float) (f : Fault) : Prop :=
  Item.validId item.id = false ∧ f = .invalid item.id ∨
    Item.validId item.id = true ∧ item.id ∈ ids ∧ f = .duplicate item.id

/-- What an insertion tests, told by the names in the drawing. -/
theorem insert_eq (d : Drawing) (item : Item Float) :
    d.insert item =
      if Item.validId item.id = false then .error (.invalid item.id)
      else if item.id ∈ d.ids then .error (.duplicate item.id)
      else .ok (d.push item.id item.shape) := by
  rw [insert, push]
  simp only [isSome_get?_iff, Bool.not_eq_true']

theorem insert_eq_error_iff (d : Drawing) (item : Item Float) (f : Fault) :
    d.insert item = .error f ↔ Refused d.ids item f := by
  rw [insert_eq, Refused]
  cases hvalid : Item.validId item.id with
  | false => simp [eq_comm]
  | true =>
      by_cases hmem : item.id ∈ d.ids
      · simp [hmem, eq_comm]
      · simp [hmem]

theorem insert_eq_ok_iff (d d' : Drawing) (item : Item Float) :
    d.insert item = .ok d' ↔
      Item.validId item.id = true ∧ item.id ∉ d.ids ∧ d' = d.push item.id item.shape := by
  rw [insert_eq]
  cases hvalid : Item.validId item.id with
  | false => simp
  | true =>
      by_cases hmem : item.id ∈ d.ids
      · simp [hmem]
      · simp [hmem, eq_comm]

/-- An item that has nobody's name takes nobody's place. -/
theorem map_put_eq_self {items : List (Item Float)} {item : Item Float}
    (h : ∀ old ∈ items, old.id ≠ item.id) :
    items.map (fun old => if old.id = item.id then item else old) = items := by
  rw [List.map_congr_left fun old hold => if_neg (h old hold), List.map_id']

theorem filter_ne_eq_self {items : List (Item Float)} {id : String}
    (h : ∀ old ∈ items, old.id ≠ id) : items.filter (·.id ≠ id) = items :=
  List.filter_eq_self.mpr fun old hold => decide_eq_true (h old hold)

theorem replaceFirst_eq_map (item : Item Float) : ∀ {items : List (Item Float)},
    (items.map Item.id).Nodup →
    replaceFirst item items = items.map fun old => if old.id = item.id then item else old
  | [], _ => rfl
  | head :: rest, h => by
      rw [replaceFirst, List.map_cons]
      by_cases hid : head.id = item.id
      · -- the name stands here, so it does not stand anywhere behind
        rw [if_pos hid, if_pos hid, map_put_eq_self (hid ▸ id_ne_of_cons h)]
      · rw [if_neg hid, if_neg hid, replaceFirst_eq_map item (List.nodup_cons.mp h).2]

theorem update_eq_error_iff (d : Drawing) (item : Item Float) (f : Fault) :
    d.update item = .error f ↔ item.id ∉ d.ids ∧ f = .unknown item.id := by
  rw [update, ← get?_eq_none_iff]
  cases d.get? item.id with
  | none => simp [eq_comm]
  | some old => simp

theorem update_eq_ok_iff {d : Drawing} (hd : d.ids.Nodup) (d' : Drawing) (item : Item Float) :
    d.update item = .ok d' ↔
      item.id ∈ d.ids ∧ d' = ⟨d.items.map fun old => if old.id = item.id then item else old⟩ := by
  rw [update, ← isSome_get?_iff, replaceFirst_eq_map item hd]
  cases d.get? item.id with
  | none => simp
  | some old => simp [eq_comm]

theorem eraseP_eq_filter (id : String) : ∀ {items : List (Item Float)},
    (items.map Item.id).Nodup → items.eraseP (·.id = id) = items.filter (·.id ≠ id)
  | [], _ => rfl
  | head :: rest, h => by
      by_cases hid : head.id = id
      · rw [List.eraseP_cons_of_pos (by simpa using hid),
          List.filter_cons_of_neg (by simpa using hid), filter_ne_eq_self (hid ▸ id_ne_of_cons h)]
      · rw [List.eraseP_cons_of_neg (by simpa using hid),
          List.filter_cons_of_pos (by simpa using hid),
          eraseP_eq_filter id (List.nodup_cons.mp h).2]

theorem remove_eq_error_iff (d : Drawing) (id : String) (f : Fault) :
    d.remove id = .error f ↔ id ∉ d.ids ∧ f = .unknown id := by
  rw [remove, ← get?_eq_none_iff]
  cases d.get? id with
  | none => simp [eq_comm]
  | some item => simp

theorem remove_eq_ok_iff {d : Drawing} (hd : d.ids.Nodup) (id : String) (item : Item Float)
    (d' : Drawing) :
    d.remove id = .ok (item, d') ↔
      d.get? id = some item ∧ d' = ⟨d.items.filter (·.id ≠ id)⟩ := by
  rw [remove, eraseP_eq_filter id hd]
  cases d.get? id with
  | none => simp
  | some old => simp [eq_comm]

/-- Items with valid names that differ are taken in, and no others. -/
theorem foldlM_insert_eq_ok_iff : ∀ (items : List (Item Float)) {d : Drawing} (d' : Drawing),
    d.ids.Nodup → (items.foldlM insert d = .ok d' ↔
      (∀ item ∈ items, Item.validId item.id = true) ∧ (d.ids ++ items.map Item.id).Nodup ∧
        d' = ⟨d.items ++ items⟩)
  | [], d, d', hd => by
      rw [List.foldlM_nil, List.map_nil, List.append_nil, List.append_nil]
      constructor
      · intro h
        obtain rfl := Except.ok.inj h
        exact ⟨by simp, hd, rfl⟩
      · rintro ⟨-, -, rfl⟩
        rfl
  | item :: items, d, d', hd => by
      rw [List.foldlM_cons]
      constructor
      · intro h
        obtain ⟨next, hnext, h⟩ := ok_of_bind h
        obtain ⟨hvalid, hfree, rfl⟩ := (insert_eq_ok_iff d next item).mp hnext
        have hnext : (d.push item.id item.shape).ids.Nodup := by
          rw [ids_push]
          exact (List.nodup_append_comm.mp (List.nodup_cons.mpr ⟨hfree, hd⟩))
        obtain ⟨hrest, hdistinct, rfl⟩ := (foldlM_insert_eq_ok_iff items d' hnext).mp h
        rw [ids_push, List.append_assoc] at hdistinct
        refine ⟨List.forall_mem_cons.mpr ⟨hvalid, hrest⟩, hdistinct, ?_⟩
        rw [push, List.append_assoc, List.singleton_append]
      · rintro ⟨hvalid, hdistinct, rfl⟩
        obtain ⟨hvalid, hrest⟩ := List.forall_mem_cons.mp hvalid
        have hall : ((d.push item.id item.shape).ids ++ items.map Item.id).Nodup := by
          rwa [ids_push, List.append_assoc]
        have hfree : item.id ∉ d.ids := fun hmem =>
          (List.nodup_append.mp hdistinct).2.2 _ hmem _ (by simp) rfl
        rw [(insert_eq_ok_iff d _ item).mpr ⟨hvalid, hfree, rfl⟩]
        refine (foldlM_insert_eq_ok_iff items _ hall.of_append_left).mpr ⟨hrest, hall, ?_⟩
        rw [push, List.append_assoc, List.singleton_append]

theorem ofItems_eq_ok_iff (items : List (Item Float)) (d' : Drawing) :
    ofItems items = .ok d' ↔
      (∀ item ∈ items, Item.validId item.id = true) ∧ (items.map Item.id).Nodup ∧ d' = ⟨items⟩ :=
  foldlM_insert_eq_ok_iff items d' List.nodup_nil

/-- The first item that cannot join those before it is what a list of items is refused for. -/
theorem ofItems_eq_error_iff (items : List (Item Float)) (f : Fault) :
    ofItems items = .error f ↔
      ∃ before item after, items = before ++ item :: after ∧
        (∀ other ∈ before, Item.validId other.id = true) ∧ (before.map Item.id).Nodup ∧
        Refused (before.map Item.id) item f := by
  rw [ofItems, foldlM_eq_error_iff]
  constructor
  · rintro ⟨before, item, after, d, hsplit, hbefore, hitem⟩
    obtain ⟨hvalid, hdistinct, rfl⟩ := (ofItems_eq_ok_iff before d).mp hbefore
    exact ⟨before, item, after, hsplit, hvalid, hdistinct, (insert_eq_error_iff _ item f).mp hitem⟩
  · rintro ⟨before, item, after, hsplit, hvalid, hdistinct, hrefused⟩
    exact ⟨before, item, after, ⟨before⟩, hsplit,
      (ofItems_eq_ok_iff before _).mpr ⟨hvalid, hdistinct, rfl⟩,
      (insert_eq_error_iff ⟨before⟩ item f).mpr hrefused⟩

theorem edited_of_ok {d d' : Drawing} {e : Edit} (h : d.edit e = .ok d') : d.edited e = d' := by
  rw [edited, h]

theorem edited_of_error {d : Drawing} {e : Edit} {f : Fault} (h : d.edit e = .error f) :
    d.edited e = d := by
  rw [edited, h]

/-! ## A drawing as its history tells -/

/-- What a history of edits tells about the drawing that it led to. -/
structure Kept (history : List Edit) (d : Drawing) : Prop where
  /-- No name is in the drawing twice. -/
  distinct : d.ids.Nodup
  /-- Every name is there and holds nothing that could end a line. -/
  valid : ∀ id ∈ d.ids, id ≠ "" ∧ ∀ c ∈ id.toList, Text.isControl c = false
  /-- The names are those that were added and have not gone, in the order in which they came. -/
  order : d.ids = standing history
  /-- A name finds the shape that was last put under it. -/
  finds : ∀ id, d.get? id = (lastShape? history id).map (Item.mk id)

namespace Kept

variable {h : List Edit} {d d' : Drawing}

theorem nil : Kept [] empty where
  distinct := List.nodup_nil
  valid := by simp [ids, empty]
  order := rfl
  finds := fun _ => rfl

/-- A name that is not in the drawing has no shape. -/
theorem lastShape?_eq_none (hk : Kept h d) {id : String} (hid : id ∉ d.ids) :
    lastShape? h id = none := by
  have hfind := hk.finds id
  rw [(get?_eq_none_iff d id).mpr hid] at hfind
  exact Option.map_eq_none_iff.mp hfind.symm

/-- A new name is put behind all others. -/
theorem add (hk : Kept h d) {e : Edit} {new : String} {shape : Shape Float}
    (hadded : e.added? = some new) (hdrops : ∀ id, e.drops id = false)
    (hshape : ∀ id, e.shape? id = if new = id then some shape else none)
    (hvalid : Item.validId new) (hfree : new ∉ d.ids) : Kept (h ++ [e]) (d.push new shape) where
  distinct := by
    rw [ids_push]
    exact List.nodup_append.mpr ⟨hk.distinct, List.nodup_singleton new, by
      rintro id hid _ hnew rfl
      exact hfree (List.mem_singleton.mp hnew ▸ hid)⟩
  valid := by
    intro id hid
    rw [ids_push, List.mem_append, List.mem_singleton] at hid
    rcases hid with hold | rfl
    · exact hk.valid id hold
    · simpa [Item.validId] using hvalid
  order := by
    have hkeep : (standing h).filter (!e.drops ·) = standing h :=
      List.filter_eq_self.mpr fun id _ => by rw [hdrops id, Bool.not_false]
    rw [ids_push, standing_concat, hkeep, hadded, hk.order, Option.toList_some]
  finds := by
    intro id
    rw [get?_push, lastShape?_concat, hdrops id, hshape id, hk.finds id,
      if_neg Bool.false_ne_true]
    by_cases hid : new = id
    · -- nothing was found under the new name before
      subst hid
      rw [hk.lastShape?_eq_none hfree, if_pos rfl, if_pos rfl]
      rfl
    · rw [if_neg hid, if_neg hid, Option.or_none, Option.none_or]

theorem push (hk : Kept h d) {id : String} (shape : Shape Float) (hvalid : Item.validId id)
    (hfree : id ∉ d.ids) : Kept (h ++ [.push id shape]) (d.push id shape) :=
  hk.add rfl (fun _ => rfl) (fun _ => rfl) hvalid hfree

theorem insert (hk : Kept h d) {item : Item Float} (hd : d.insert item = .ok d') :
    Kept (h ++ [.insert item]) d' := by
  obtain ⟨hvalid, hfree, rfl⟩ := (insert_eq_ok_iff d d' item).mp hd
  exact hk.add rfl (fun _ => rfl) (fun _ => rfl) hvalid hfree

/-- Another shape under a name moves nothing. -/
theorem update (hk : Kept h d) {item : Item Float} (hd : d.update item = .ok d') :
    Kept (h ++ [.update item]) d' := by
  obtain ⟨hmem, rfl⟩ := (update_eq_ok_iff hk.distinct d' item).mp hd
  let put (old : Item Float) : Item Float := if old.id = item.id then item else old
  have hname : ∀ old, (put old).id = old.id := by
    intro old
    by_cases hid : old.id = item.id
    · rw [show put old = item from if_pos hid, hid]
    · rw [show put old = old from if_neg hid]
  have hids : (Drawing.mk (d.items.map put)).ids = d.ids := by
    rw [ids, List.map_map]
    exact List.map_congr_left fun old _ => hname old
  refine ⟨hids ▸ hk.distinct, hids ▸ hk.valid, ?_, ?_⟩
  · have hkeep : (standing h).filter (fun id => !Edit.drops id (.update item)) = standing h :=
      List.filter_eq_self.mpr fun _ _ => rfl
    rw [hids, standing_concat, hkeep, hk.order]
    exact (List.append_nil _).symm
  · intro id
    have hfind : get? ⟨d.items.map put⟩ id = (d.get? id).map put := by
      rw [get?, List.find?_map, get?]
      congr 2
      funext old
      exact congrArg (fun name => decide (name = id)) (hname old)
    rw [hfind, lastShape?_concat]
    show _ = Option.map (Item.mk id) (Option.or (if item.id = id then some item.shape else none) _)
    by_cases hid : item.id = id
    · -- the name is there, and what is found under it is the item
      subst hid
      obtain ⟨old, hold⟩ := Option.isSome_iff_exists.mp ((isSome_get?_iff d item.id).mpr hmem)
      rw [hold, Option.map_some, if_pos rfl, show put old = item from if_pos (id_of_get? hold)]
      rfl
    · rw [if_neg hid, Option.none_or, hk.finds id]
      cases lastShape? h id with
      | none => rfl
      | some shape => exact congrArg some (if_neg (Ne.symm hid))

theorem remove (hk : Kept h d) {id : String} {item : Item Float}
    (hd : d.remove id = .ok (item, d')) : Kept (h ++ [.remove id]) d' := by
  obtain ⟨-, rfl⟩ := (remove_eq_ok_iff hk.distinct id item d').mp hd
  have hids : (Drawing.mk (d.items.filter (·.id ≠ id))).ids = d.ids.filter (· ≠ id) := by
    rw [ids, ids, List.filter_map]
    rfl
  refine ⟨?_, ?_, ?_, ?_⟩
  · rw [hids]
    exact hk.distinct.filter _
  · intro other hother
    rw [hids] at hother
    exact hk.valid other (List.mem_of_mem_filter hother)
  · rw [hids, standing_concat, hk.order]
    refine (List.filter_congr fun other _ => ?_).trans (List.append_nil _).symm
    simp [Edit.drops, eq_comm]
  · intro other
    rw [lastShape?_concat]
    show _ = Option.map (Item.mk other)
      (if decide (id = other) = true then none else Option.or none (lastShape? h other))
    by_cases hother : id = other
    · -- everything of this name has been left out
      subst hother
      rw [if_pos (decide_eq_true rfl), Option.map_none, get?_eq_none_iff, hids]
      simp
    · rw [if_neg (by simpa using hother), Option.none_or, ← hk.finds other, get?, get?,
        List.find?_filter]
      congr 1
      funext old
      by_cases hold : old.id = other
      · simp [hold, Ne.symm hother]
      · simp [hold]

theorem clear : Kept (h ++ [.clear]) empty where
  distinct := List.nodup_nil
  valid := by simp [ids, empty]
  order := by
    rw [standing_concat, List.filter_eq_nil_iff.mpr (by simp [Edit.drops])]
    rfl
  finds := by
    intro id
    rw [lastShape?_concat]
    rfl

theorem insertAll : ∀ (items : List (Item Float)) {h : List Edit} {d d' : Drawing}, Kept h d →
    items.foldlM Drawing.insert d = .ok d' → Kept (h ++ items.map .insert) d'
  | [], h, d, d', hk, hd => by
      obtain rfl := Except.ok.inj hd
      rwa [List.map_nil, List.append_nil]
  | item :: items, h, d, d', hk, hd => by
      rw [List.foldlM_cons] at hd
      obtain ⟨next, hnext, hd⟩ := ok_of_bind hd
      have hrest := insertAll items (hk.insert hnext) hd
      rwa [List.append_assoc] at hrest

/-- What an edit does to a drawing, it does to what its history tells. -/
theorem edit (hk : Kept h d) {e : Edit}
    (hfresh : ∀ id shape, e = .push id shape → Item.validId id ∧ id ∉ d.ids)
    (hd : d.edit e = .ok d') : Kept (h ++ e.steps) d' := by
  cases e with
  | push id shape =>
      obtain ⟨hvalid, hfree⟩ := hfresh id shape rfl
      obtain rfl := Except.ok.inj hd
      exact hk.push shape hvalid hfree
  | insert item => exact hk.insert hd
  | update item => exact hk.update hd
  | remove id =>
      cases hr : d.remove id with
      | error f =>
          rw [Drawing.edit, hr] at hd
          cases hd
      | ok removed =>
          rw [Drawing.edit, hr] at hd
          obtain rfl := Except.ok.inj hd
          exact hk.remove hr
  | clear =>
      obtain rfl := Except.ok.inj hd
      exact clear
  | replace items =>
      have hall : Kept ((h ++ [.clear]) ++ items.map .insert) d' := clear.insertAll items hd
      rwa [List.append_assoc] at hall

theorem run : ∀ (edits : List Edit) {h : List Edit} {d : Drawing}, Kept h d →
    FreshNames d edits → Kept (h ++ history d edits) (d.run edits)
  | [], h, d, hk, _ => by rwa [history, List.append_nil]
  | e :: edits, h, d, hk, hfresh => by
      rw [history, ← List.append_assoc]
      -- an edit that is refused leaves no trace in the drawing or in the history
      refine run edits ?_ hfresh.2
      cases hd : d.edit e with
      | error f => rwa [edited_of_error hd, List.append_nil]
      | ok d' =>
          rw [edited_of_ok hd]
          exact hk.edit hfresh.1 hd

end Kept

/-! ## What a drawing answers -/

section Split

variable {before after : List (Item Float)} {old : Item Float}

/-- Where names differ, an item is the only one of its name. -/
theorem id_ne_of_split (hd : ((before ++ old :: after).map Item.id).Nodup) :
    (∀ other ∈ before, other.id ≠ old.id) ∧ ∀ other ∈ after, other.id ≠ old.id := by
  rw [List.map_append, List.nodup_append] at hd
  obtain ⟨-, hafter, hbefore⟩ := hd
  refine ⟨fun other hother => ?_, id_ne_of_cons hafter⟩
  exact hbefore _ (List.mem_map_of_mem hother) _ (List.mem_map_of_mem (List.mem_cons_self ..))

theorem map_put_of_split (hd : ((before ++ old :: after).map Item.id).Nodup) {item : Item Float}
    (hid : old.id = item.id) :
    (before ++ old :: after).map (fun other => if other.id = item.id then item else other) =
      before ++ item :: after := by
  obtain ⟨hbefore, hafter⟩ := id_ne_of_split hd
  rw [hid] at hbefore hafter
  rw [List.map_append, List.map_cons, map_put_eq_self hbefore, map_put_eq_self hafter, if_pos hid]

theorem filter_ne_of_split (hd : ((before ++ old :: after).map Item.id).Nodup) :
    (before ++ old :: after).filter (·.id ≠ old.id) = before ++ after := by
  obtain ⟨hbefore, hafter⟩ := id_ne_of_split hd
  rw [List.filter_append, List.filter_cons_of_neg (by simp), filter_ne_eq_self hbefore,
    filter_ne_eq_self hafter]

end Split

/-- How a drawing answers to a name and to every edit that can be refused. -/
structure Answers (d : Drawing) : Prop where
  get_some : ∀ id, (d.get? id).isSome ↔ id ∈ d.ids
  insert_error : ∀ item f, d.insert item = .error f ↔ Refused d.ids item f
  /-- A new item comes last. -/
  insert_ok : ∀ item d', d.insert item = .ok d' ↔
    Item.validId item.id = true ∧ item.id ∉ d.ids ∧ d'.items = d.items ++ [item]
  update_error : ∀ item f, d.update item = .error f ↔ item.id ∉ d.ids ∧ f = .unknown item.id
  /-- An item takes the place of the one that had its name. -/
  update_ok : ∀ item d', d.update item = .ok d' ↔
    ∃ before old after, d.items = before ++ old :: after ∧ old.id = item.id ∧
      d'.items = before ++ item :: after
  remove_error : ∀ id f, d.remove id = .error f ↔ id ∉ d.ids ∧ f = .unknown id
  /-- One item goes, and the others stay in their order. -/
  remove_ok : ∀ id item d', d.remove id = .ok (item, d') ↔
    ∃ before after, d.items = before ++ item :: after ∧ item.id = id ∧ d'.items = before ++ after
  /-- Other items are refused for the first of them that cannot join those before it. -/
  replace_error : ∀ items f, d.edit (.replace items) = .error f ↔
    ∃ before item after, items = before ++ item :: after ∧
      (∀ other ∈ before, Item.validId other.id = true) ∧ (before.map Item.id).Nodup ∧
      Refused (before.map Item.id) item f
  replace_ok : ∀ items d', d.edit (.replace items) = .ok d' ↔
    (∀ item ∈ items, Item.validId item.id = true) ∧ (items.map Item.id).Nodup ∧ d'.items = items

/-- Names that differ are all that these answers rest on. -/
theorem answers_of_nodup {d : Drawing} (hd : d.ids.Nodup) : Answers d where
  get_some := isSome_get?_iff d
  insert_error := insert_eq_error_iff d
  insert_ok := by
    rintro item ⟨items⟩
    rw [insert_eq_ok_iff, push, mk.injEq]
  update_error := update_eq_error_iff d
  update_ok := by
    rintro item ⟨items⟩
    rw [update_eq_ok_iff hd, mk.injEq]
    constructor
    · rintro ⟨hmem, rfl⟩
      obtain ⟨old, hold, hid⟩ := List.mem_map.mp hmem
      obtain ⟨before, after, hsplit⟩ := List.append_of_mem hold
      refine ⟨before, old, after, hsplit, hid, ?_⟩
      rw [hsplit]
      exact map_put_of_split (hsplit ▸ hd) hid
    · rintro ⟨before, old, after, hsplit, hid, rfl⟩
      refine ⟨hid ▸ List.mem_map_of_mem (hsplit ▸ by simp), ?_⟩
      rw [hsplit]
      exact (map_put_of_split (hsplit ▸ hd) hid).symm
  remove_error := remove_eq_error_iff d
  remove_ok := by
    rintro id item ⟨items⟩
    rw [remove_eq_ok_iff hd, mk.injEq]
    constructor
    · rintro ⟨hfind, rfl⟩
      obtain rfl := id_of_get? hfind
      obtain ⟨before, after, hsplit⟩ := List.append_of_mem (List.mem_of_find?_eq_some hfind)
      refine ⟨before, after, hsplit, rfl, ?_⟩
      rw [hsplit]
      exact filter_ne_of_split (hsplit ▸ hd)
    · rintro ⟨before, after, hsplit, rfl, rfl⟩
      refine ⟨get?_of_mem hd (hsplit ▸ by simp), ?_⟩
      rw [hsplit]
      exact (filter_ne_of_split (hsplit ▸ hd)).symm
  replace_error := ofItems_eq_error_iff
  replace_ok := by
    rintro items ⟨items'⟩
    exact (ofItems_eq_ok_iff items _).trans (by rw [mk.injEq])

/-- The items are the shapes last put under the names that stand, in the order of the names. -/
theorem Kept.items_eq {h : List Edit} {d : Drawing} (hk : Kept h d) :
    d.items.map some = (standing h).map fun id => (lastShape? h id).map (Item.mk id) := by
  have hfound : d.items.map some = d.ids.map d.get? := by
    rw [ids, List.map_map]
    exact List.map_congr_left fun item hitem => (get?_of_mem hk.distinct hitem).symm
  rw [hfound, hk.order]
  exact List.map_congr_left fun id _ => hk.finds id

/--
**After any edits, a drawing holds what its history tells and answers accordingly.**
All that is asked of the edits is that a name made for a shape is valid and not in
the drawing when the shape is pushed; every other edit may be anything.
-/
theorem kept_run (edits : List Edit) (hfresh : FreshNames empty edits) :
    Kept (history empty edits) (empty.run edits) ∧
      (empty.run edits).items.map some =
        (standing (history empty edits)).map
          (fun id => (lastShape? (history empty edits) id).map (Item.mk id)) ∧
      Answers (empty.run edits) := by
  have hkept := Kept.nil.run edits hfresh
  exact ⟨hkept, hkept.items_eq, answers_of_nodup hkept.distinct⟩

/-- A name that goes and comes back, a shape that changes, and two edits that are refused. -/
def comings : List Edit :=
  [.push "a" (.circle ⟨0, 0⟩ 1), .insert ⟨"b", .circle ⟨5, 5⟩ 1⟩, .insert ⟨"c", .circle ⟨9, 9⟩ 1⟩,
    .insert ⟨"c", .circle ⟨0, 0⟩ 4⟩, .update ⟨"a", .circle ⟨0, 0⟩ 2⟩, .remove "b",
    .replace [⟨"d", .circle ⟨0, 0⟩ 1⟩, ⟨"", .circle ⟨0, 0⟩ 1⟩], .insert ⟨"b", .circle ⟨7, 7⟩ 3⟩]

/-- The name that came back stands behind the one that came while it was gone. -/
theorem kept_run_comings :
    FreshNames empty comings ∧
      standing (history empty comings) = ["a", "c", "b"] ∧
      Kept (history empty comings) (empty.run comings) ∧ Answers (empty.run comings) ∧
      (empty.run comings).items =
        [⟨"a", .circle ⟨0, 0⟩ 2⟩, ⟨"c", .circle ⟨9, 9⟩ 1⟩, ⟨"b", .circle ⟨7, 7⟩ 3⟩] := by
  have hfresh : FreshNames empty comings := by
    refine ⟨?_, by rintro _ _ ⟨⟩, by rintro _ _ ⟨⟩, by rintro _ _ ⟨⟩, by rintro _ _ ⟨⟩,
      by rintro _ _ ⟨⟩, by rintro _ _ ⟨⟩, by rintro _ _ ⟨⟩, trivial⟩
    rintro _ _ ⟨⟩
    decide +kernel
  obtain ⟨hkept, -, hanswers⟩ := kept_run comings hfresh
  exact ⟨hfresh, by decide +kernel, hkept, hanswers, by decide +kernel⟩

end Milling.Drawing
