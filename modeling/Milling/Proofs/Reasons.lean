import Milling.Proofs.Numerals
import Milling.Toolpath.Plan

/-!
# The reasons for leaving a shape out

A reason is shown in a comment, next to the name of its item, and it has to stay on
that line. Numbers do so in any case; the rest of a reason is fixed, up to the name
of the size or place that it complains of. The planner has seven such names, and
`named_of_ofShape` says that it complains under no other.
-/

namespace Milling

namespace Text

/-- A text that fits on a line and cannot hide there: it holds no control character. -/
def Unbroken (s : String) : Prop := ∀ c ∈ s.toList, isControl c = false

/-- What holds of the characters of two texts holds of those of the joined text. -/
theorem forall_mem_append {P : Char → Prop} {s t : String} (hs : ∀ c ∈ s.toList, P c)
    (ht : ∀ c ∈ t.toList, P c) : ∀ c ∈ (s ++ t).toList, P c := by
  intro c hc
  rw [String.toList_append] at hc
  rcases List.mem_append.mp hc with h | h
  · exact hs c h
  · exact ht c h

theorem Unbroken.append {s t : String} (hs : Unbroken s) (ht : Unbroken t) : Unbroken (s ++ t) :=
  forall_mem_append hs ht

theorem unbroken_of_isNumeral {s : String} (h : ∀ c ∈ s.toList, isNumeral c) : Unbroken s :=
  fun c hc => (inert_of_isNumeral (h c hc)).1

theorem Unbroken.newline_not_mem {s : String} (h : Unbroken s) : '\n' ∉ s.toList :=
  fun hc => absurd (h _ hc) (by decide)

instance (s : String) : Decidable (Unbroken s) :=
  List.decidableBAll (fun c => isControl c = false) s.toList

end Text

open Text (Unbroken forall_mem_append)

/-- What the planner calls the sizes and places that it tests. -/
def Contour.fieldNames : List String :=
  ["x", "y", "width", "height", "radius", "font size", "tool radius"]

/-- A fault that names, if anything, a size or a place of the planner's. -/
def GeometryFault.Named {α : Type} : GeometryFault α → Prop
  | .notPositive dimension _ => dimension ∈ Contour.fieldNames
  | .notFinite field => field ∈ Contour.fieldNames
  | .radiusLost _ => True
  | .collapsed _ _ => True

/-! ## The planner's faults -/

namespace Contour

/-- A test that fails before the rest is looked at is the one that is reported. -/
theorem named_of_bind {α β γ : Type} {test : Except (GeometryFault α) β}
    {rest : β → Except (GeometryFault α) γ} {fault : GeometryFault α}
    (htest : ∀ f, test = .error f → f.Named) (hrest : ∀ b, rest b = .error fault → fault.Named)
    (h : test >>= rest = .error fault) : fault.Named := by
  cases ht : test with
  | error f =>
      rw [ht] at h
      obtain rfl : f = fault := Except.error.inj h
      exact htest f ht
  | ok b =>
      rw [ht] at h
      exact hrest b h

variable {α : Type} [Scalar α]

theorem named_of_finite {field : String} {value : α} {fault : GeometryFault α}
    (hf : field ∈ fieldNames) (h : finite field value = .error fault) : fault.Named := by
  unfold finite at h
  split at h
  · simp at h
  · obtain rfl := Except.error.inj h
    exact hf

theorem named_of_positive {dimension : String} {value : α} {fault : GeometryFault α}
    (hd : dimension ∈ fieldNames) (h : positive dimension value = .error fault) : fault.Named := by
  unfold positive at h
  cases hfin : finite dimension value with
  | error f =>
      rw [hfin] at h
      obtain rfl : f = fault := Except.error.inj h
      exact named_of_finite hd hfin
  | ok u =>
      rw [hfin] at h
      change (if Scalar.zero < value then _ else _) = _ at h
      split at h
      · simp at h
      · obtain rfl := Except.error.inj h
        exact hd

theorem named_of_rectangle {radius : α} {corner : Point α} {width height : α}
    {fault : GeometryFault α} (h : rectangle radius corner width height = .error fault) :
    fault.Named := by
  -- one step for each test that comes before the sides are moved
  refine named_of_bind (fun f => named_of_finite (by decide)) (fun _ h => ?_) h
  refine named_of_bind (fun f => named_of_finite (by decide)) (fun _ h => ?_) h
  refine named_of_bind (fun f => named_of_positive (by decide)) (fun _ h => ?_) h
  refine named_of_bind (fun f => named_of_positive (by decide)) (fun _ h => ?_) h
  refine named_of_bind (fun f => named_of_finite (by decide)) (fun _ h => ?_) h
  dsimp only at h
  split at h
  · simp at h
  · obtain rfl := Except.error.inj h
    trivial

theorem named_of_circle {radius : α} {center : Point α} {shapeRadius : α}
    {fault : GeometryFault α} (h : circle radius center shapeRadius = .error fault) :
    fault.Named := by
  refine named_of_bind (fun f => named_of_finite (by decide)) (fun _ h => ?_) h
  refine named_of_bind (fun f => named_of_finite (by decide)) (fun _ h => ?_) h
  refine named_of_bind (fun f => named_of_positive (by decide)) (fun _ h => ?_) h
  refine named_of_bind (fun f => named_of_finite (by decide)) (fun _ h => ?_) h
  dsimp only at h
  split at h
  · simp at h
  · obtain rfl := Except.error.inj h
    trivial

theorem named_of_lettering {origin : Point α} {content : String} {size : α}
    {fault : GeometryFault α} (h : lettering origin content size = .error fault) :
    fault.Named := by
  refine named_of_bind (fun f => named_of_finite (by decide)) (fun _ h => ?_) h
  refine named_of_bind (fun f => named_of_finite (by decide)) (fun _ h => ?_) h
  refine named_of_bind (fun f => named_of_positive (by decide)) (fun _ h => ?_) h
  simp at h

/-- **The planner complains only of sizes and places that it has a name for.** -/
theorem named_of_ofShape {radius : α} {shape : Shape α} {fault : GeometryFault α}
    (h : ofShape radius shape = .error fault) : fault.Named := by
  cases shape with
  | rectangle corner width height =>
      exact named_of_bind (fun f => named_of_rectangle) (fun _ h => by simp at h) h
  | circle center shapeRadius =>
      exact named_of_bind (fun f => named_of_circle) (fun _ h => by simp at h) h
  | text origin content size => exact named_of_lettering h

end Contour

/-! ## The faults in words -/

/-- The characters that a reason is written with: those of numbers and of plain words. -/
def isProse (c : Char) : Bool := Text.isNumeral c || c.isLower || c = ' ' || c = ','

/-- A text of such characters. -/
def Prose (s : String) : Prop := ∀ c ∈ s.toList, isProse c

instance (s : String) : Decidable (Prose s) :=
  List.decidableBAll (fun c => isProse c) s.toList

theorem Prose.append {s t : String} (hs : Prose s) (ht : Prose t) : Prose (s ++ t) :=
  forall_mem_append hs ht

theorem prose_plain (x : Float) : Prose (Double.plain x) := by
  intro c hc
  simp [isProse, Double.isNumeral_of_mem_plain x c hc]

theorem prose_of_mem_fieldNames {name : String} (h : name ∈ Contour.fieldNames) : Prose name := by
  have hall : ∀ name ∈ Contour.fieldNames, Prose name := by decide
  exact hall name h

/-- Plain words stay on their line. -/
theorem Prose.unbroken {s : String} (h : Prose s) : Unbroken s := by
  intro c hc
  have hprose := h c hc
  simp only [isProse, Bool.or_eq_true, decide_eq_true_eq] at hprose
  rcases hprose with ((hnumeral | hlower) | rfl) | rfl
  · exact (Text.inert_of_isNumeral hnumeral).1
  · have hval : 97 ≤ c.val ∧ c.val ≤ 122 := by
      unfold Char.isLower at hlower
      simpa using hlower
    have h1 : 97 ≤ c.val.toNat := UInt32.le_iff_toNat_le.mp hval.1
    have h2 : c.val.toNat ≤ 122 := UInt32.le_iff_toNat_le.mp hval.2
    simp only [Text.isControl, Bool.or_eq_false_iff, Bool.and_eq_false_iff,
      decide_eq_false_iff_not, UInt32.lt_iff_toNat_lt, UInt32.le_iff_toNat_le, UInt32.toNat_ofNat]
    omega
  · rfl
  · rfl

/-- **A reason is written in plain words**, whatever it complains of. -/
theorem prose_message {fault : GeometryFault Float} (h : fault.Named) : Prose fault.message := by
  cases fault with
  | notPositive dimension value =>
      exact ((prose_of_mem_fieldNames h).append (by decide)).append (prose_plain value)
  | radiusLost effective => exact Prose.append (by decide) (prose_plain effective)
  | collapsed width height =>
      refine ((Prose.append ?_ (prose_plain width)).append ?_).append (prose_plain height)
      · decide
      · decide
  | notFinite field => exact (prose_of_mem_fieldNames h).append (by decide)

/-- A plan that was made by planning, as far as the reason it gives tells. -/
def Plan.Reasoned {α : Type} (plan : Plan α) : Prop :=
  ∀ fault, plan.outcome = .error fault → fault.Named

theorem Plan.reasoned_ofItem {α : Type} [Scalar α] (radius : α) (item : Item α) :
    (Plan.ofItem radius item).Reasoned :=
  fun _ h => Contour.named_of_ofShape h

theorem Plan.reasoned_of_mem {α : Type} [Scalar α] {radius : α} {items : List (Item α)} :
    ∀ plan ∈ items.map (Plan.ofItem radius), plan.Reasoned := by
  intro plan hplan
  obtain ⟨item, -, rfl⟩ := List.mem_map.mp hplan
  exact Plan.reasoned_ofItem radius item

end Milling
