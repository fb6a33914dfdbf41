import Milling.Json.Record
import Milling.Proofs.Escapes
import Milling.Proofs.Rereading

/-!
# Reading what was written

A reader meets a value somewhere in a document: blanks may stand before it, and
what follows it begins with something that ends a value. `Reads` says what the
reader makes of a written value under these conditions and no others, and that it
leaves what follows untouched. Values inside lists and objects meet the same
conditions, so what is true of the parts carries over to the whole.

Objects are read member by member into a draft. `Fills` is the statement about
the members from one of them on, and its rules follow the order in which the
members were written.
-/

namespace Milling.Json

open Value (pretty prettyItems prettyMembers newLine writeNumber)

namespace Reader

variable {α β σ : Type} {depth level : ℕ}

/-! ## Blanks -/

/-- Blanks before something that is none are passed over. -/
theorem skipSpace_append {blank : List Char} (hblank : ∀ c ∈ blank, isSpace c) {c : Char}
    (hc : isSpace c = false) (rest : List Char) : skipSpace (blank ++ c :: rest) = c :: rest := by
  rw [skipSpace, List.dropWhile_append_of_pos hblank,
    List.dropWhile_cons_of_neg (by rw [hc]; exact Bool.false_ne_true)]

theorem toValue_append (r : Reader α) (levels : ℕ) {blank : List Char}
    (hblank : ∀ c ∈ blank, isSpace c) {c : Char} (hc : isSpace c = false) (rest : List Char) :
    toValue r levels (blank ++ c :: rest) = r levels (c :: rest) := by
  unfold toValue
  rw [skipSpace_append hblank hc]

theorem skipSpace_cons {c : Char} (hc : isSpace c = false) (rest : List Char) :
    skipSpace (c :: rest) = c :: rest :=
  List.dropWhile_cons_of_neg (by rw [hc]; exact Bool.false_ne_true)

theorem toValue_cons (r : Reader α) (levels : ℕ) {c : Char} (hc : isSpace c = false)
    (rest : List Char) : toValue r levels (c :: rest) = r levels (c :: rest) :=
  toValue_append r levels (List.forall_mem_nil _) hc rest

theorem isSpace_of_mem_newLine {c : Char} (h : c ∈ newLine level) : isSpace c := by
  rcases List.mem_cons.mp h with rfl | h
  · rfl
  · rw [List.eq_of_mem_replicate h]
    rfl

theorem skipSpace_newLine {c : Char} (hc : isSpace c = false) (rest : List Char) :
    skipSpace (newLine level ++ c :: rest) = c :: rest :=
  skipSpace_append (fun _ h => isSpace_of_mem_newLine h) hc rest

theorem stopped_newLine (rest : List Char) : Stopped (newLine level ++ rest) := by
  rintro c ⟨⟩
  decide

theorem stopped_comma (rest : List Char) : Stopped (',' :: rest) := by
  rintro c ⟨⟩
  decide

/-! ## Single values -/

/--
A reader, given a written value with blanks before it, makes `out` of it and goes
on behind it. The value needs `depth` levels of nesting.
-/
def Reads (depth : ℕ) (r : Reader α) (text : List Char) (out : Except Fault α) : Prop :=
  ∀ levels, depth < levels → ∀ blank rest, (∀ c ∈ blank, isSpace c) → Stopped rest →
    r levels (blank ++ (text ++ rest)) = out.map (·, rest)

theorem bind_apply (r : Reader α) (f : α → Reader β) (levels : ℕ) (s : List Char) :
    (r >>= f) levels s = r levels s >>= fun p => f p.1 levels p.2 := by
  dsimp only [Bind.bind]
  cases r levels s with
  | ok p => rfl
  | error fault => rfl

/-- What comes after a value, and reads nothing more, does not change how it is read. -/
theorem Reads.bind {r : Reader α} {text : List Char} {out : Except Fault α}
    (h : Reads depth r text out) {f : α → Reader β} {g : α → Except Fault β}
    (hf : ∀ a levels rest, f a levels rest = (g a).map (·, rest)) :
    Reads depth (r >>= f) text (out >>= g) := by
  intro levels hlevels blank rest hblank hrest
  rw [bind_apply, h levels hlevels blank rest hblank hrest]
  cases out with
  | ok a => exact hf a levels rest
  | error fault => rfl

/-- A value that is there is read as itself, also by a reader that could do without. -/
theorem Reads.optional {r : Reader α} {c : Char} {tail : List Char} {out : Except Fault α}
    (h : Reads depth r (c :: tail) out) (hspace : isSpace c = false) (hnull : c ≠ 'n') :
    Reads depth (optional r) (c :: tail) (out.map some) := by
  intro levels hlevels blank rest hblank hrest
  have hread := h levels hlevels [] rest (by simp) hrest
  unfold Reader.optional
  rw [List.cons_append, skipSpace_append hblank hspace]
  split
  · rename_i heq
    exact absurd (List.cons.inj heq).1 hnull
  · show (r levels (c :: (tail ++ rest)) >>= fun p => .ok (some p.1, p.2)) = _
    rw [List.nil_append, List.cons_append] at hread
    rw [hread]
    cases out with
    | ok a => rfl
    | error fault => rfl

theorem reads_null (r : Reader α) :
    Reads depth (Reader.optional r) ['n', 'u', 'l', 'l'] (.ok none) := by
  intro levels hlevels blank rest hblank hrest
  unfold Reader.optional
  rw [List.cons_append, skipSpace_append hblank rfl]
  rfl

theorem writeText_append (s : String) (rest : List Char) :
    writeText s ++ rest = '"' :: (s.toList.flatMap escapeChar ++ '"' :: rest) := by
  rw [writeText, List.cons_append, List.append_assoc, List.singleton_append]

theorem reads_text (s : String) : Reads depth text (writeText s) (.ok s) := by
  intro levels hlevels blank rest hblank hrest
  rw [writeText_append]
  unfold text textAs
  refine (toValue_append _ levels hblank rfl _).trans ?_
  exact readText_flatMap s rest

theorem isSpace_of_isDigit {c : Char} (h : c.isDigit) : isSpace c = false := by
  rw [← Bool.not_eq_true]
  intro hspace
  have hcases : c = ' ' ∨ c = '\n' ∨ c = '\t' ∨ c = '\r' := by
    simpa [isSpace, or_assoc] using hspace
  rcases hcases with rfl | rfl | rfl | rfl <;> exact absurd h (by decide)

/-- A number begins with a digit or a minus sign, so it is neither blank nor `null`. -/
theorem writeNumber_cons {x : Float} (h : x.isFinite) : ∃ c text, writeNumber x = c :: text ∧
    isSpace c = false ∧ c ≠ 'n' := by
  obtain ⟨negative, c, text, hwritten, hc, -⟩ := read_compact h
  rw [writeNumber, if_pos h, hwritten]
  cases negative with
  | false =>
      refine ⟨c, text, rfl, isSpace_of_isDigit hc, ?_⟩
      rintro rfl
      exact absurd hc (by decide)
  | true => exact ⟨'-', c :: text, rfl, rfl, by decide⟩

/-- A number is read as its digits make it; what is not finite is refused. -/
theorem reads_number (x : Float) : Reads depth number (writeNumber x) (reread x) := by
  intro levels hlevels blank rest hblank hrest
  by_cases h : x.isFinite
  · obtain ⟨negative, c, text, hwritten, hc, hread⟩ := read_compact h
    have hread := hread rest hrest
    rw [writeNumber, if_pos h, hwritten, ← hread]
    cases negative with
    | false =>
        refine (toValue_append _ levels hblank (isSpace_of_isDigit hc) _).trans ?_
        dsimp only [List.cons_append]
        split
        · rename_i heq
          rw [(List.cons.inj heq).1] at hc
          exact absurd hc (by decide)
        · rename_i heq
          rw [(List.cons.inj heq).1] at hc
          rw [if_pos hc]
          cases Numeral.read false (c :: (text ++ rest)) with
          | ok p => rfl
          | error fault => rfl
        · exact absurd ‹_› (List.cons_ne_nil _ _)
    | true =>
        refine (toValue_append _ levels hblank rfl _).trans ?_
        show (Numeral.read true (c :: text ++ rest) >>= fun p => .ok (p.1.toFloat, p.2)) = _
        cases Numeral.read true (c :: text ++ rest) with
        | ok p => rfl
        | error fault => rfl
  · -- it was written as `null`, and a number is wanted
    rw [writeNumber, if_neg h, reread]
    refine (toValue_append _ levels hblank rfl _).trans ?_
    rcases Double.view_not_finite h with hview | ⟨negative, hview⟩
    · rw [hview]
      rfl
    · rw [hview]
      rfl

/-- What a reader that can do without makes of a number: one that is not finite is nothing. -/
def rereadSpare (x : Float) : Except Fault (Option Float) :=
  if x.isFinite then (reread x).map some else .ok none

theorem reads_spare_number (x : Float) :
    Reads depth (Reader.optional number) (writeNumber x) (rereadSpare x) := by
  by_cases h : x.isFinite
  · obtain ⟨c, text, hwritten, hspace, hnull⟩ := writeNumber_cons h
    rw [rereadSpare, if_pos h, hwritten]
    exact (hwritten ▸ reads_number x).optional hspace hnull
  · rw [rereadSpare, if_neg h, writeNumber, if_neg h]
    exact reads_null number

theorem reads_spare_text (s : String) :
    Reads depth (Reader.optional text) (writeText s) (.ok (some s)) :=
  (reads_text s).optional rfl (by decide)

/-! ## Lists -/

theorem nextElement?_end (first : Bool) (below : ℕ) (rest : List Char) :
    nextElement? first (newLine below ++ ']' :: rest) = .ok none := by
  unfold nextElement?
  rw [skipSpace_newLine rfl]
  rfl

/-- Before an element stands a new line, and before that a comma, if it is not the first. -/
theorem nextElement?_pretty (first : Bool) {c : Char} (hspace : isSpace c = false)
    (hend : c ≠ ']') (rest : List Char) :
    nextElement? first ((if first then [] else [',']) ++ (newLine level ++ c :: rest)) =
      .ok (some (c :: rest)) := by
  unfold nextElement?
  cases first with
  | true =>
      rw [if_pos rfl, List.nil_append, skipSpace_newLine hspace]
      split
      · exact absurd ‹_› (List.cons_ne_nil _ _)
      · rename_i heq
        exact absurd (List.cons.inj heq).1 hend
      · rename_i heq
        rw [if_pos rfl, heq]
  | false =>
      rw [if_neg Bool.false_ne_true, List.singleton_append, skipSpace_cons rfl]
      split
      · exact absurd ‹_› (List.cons_ne_nil _ _)
      · rename_i heq
        exact absurd (List.cons.inj heq).1 (by decide)
      · rename_i heq
        obtain ⟨hcomma, htext⟩ := List.cons.inj heq
        rw [if_neg Bool.false_ne_true, if_pos hcomma.symm, ← htext, skipSpace_newLine hspace]
        split
        · exact absurd ‹_› (List.cons_ne_nil _ _)
        · rename_i heq
          exact absurd (List.cons.inj heq).1 hend
        · rfl

theorem endList_newLine (below : ℕ) (rest : List Char) :
    endList (newLine below ++ ']' :: rest) = .ok rest := by
  unfold endList
  rw [skipSpace_newLine rfl]
  rfl

/-- The items from one of them on are read in order, until one is refused. -/
theorem elements_pretty {r : Reader β} {write : α → Value} {out : α → Except Fault β}
    (hreads : ∀ a, Reads depth r (pretty level (write a)) (out a))
    (hbegins : ∀ a, ∃ c text, pretty level (write a) = c :: text ∧ isSpace c = false ∧ c ≠ ']')
    (levels : ℕ) (hlevels : depth < levels) (below : ℕ) (rest : List Char) :
    ∀ (items : List α) (first : Bool) (read : List β) (fuel : ℕ), items.length < fuel →
      elements r fuel first read levels
          ((prettyItems level (items.map write)).drop (if first then 1 else 0) ++
            (newLine below ++ ']' :: rest)) =
        (items.mapM out).map (fun bs => (read.reverse ++ bs, rest))
  | _, _, _, 0, h => absurd h (Nat.not_lt_zero _)
  | [], first, read, fuel + 1, _ => by
      rw [List.map_nil, prettyItems, List.drop_nil, List.nil_append, elements]
      dsimp only
      rw [nextElement?_end, endList_newLine, List.mapM_nil]
      show Except.ok (read.reverse, rest) = Except.ok (read.reverse ++ [], rest)
      rw [List.append_nil]
  | item :: items, first, read, fuel + 1, h => by
      obtain ⟨c, text, hc, hspace, hend⟩ := hbegins item
      have hrest := elements_pretty hreads hbegins levels hlevels below rest items false
      -- behind the element stands the rest of a list that has begun
      have htext : (prettyItems level ((item :: items).map write)).drop (if first then 1 else 0) ++
          (newLine below ++ ']' :: rest) =
          (if first then [] else [',']) ++ (newLine level ++ c :: (text ++
            (prettyItems level (items.map write) ++ (newLine below ++ ']' :: rest)))) := by
        rw [List.map_cons, prettyItems, hc]
        cases first <;> simp
      have hitem := hreads item levels hlevels [] (prettyItems level (items.map write) ++
        (newLine below ++ ']' :: rest)) (by simp) (by
          cases items with
          | nil => exact stopped_newLine _
          | cons => exact stopped_comma _)
      rw [List.nil_append, hc, List.cons_append] at hitem
      rw [htext, elements]
      dsimp only
      rw [nextElement?_pretty first hspace hend]
      dsimp only
      rw [hitem, List.mapM_cons]
      cases out item with
      | error fault => rfl
      | ok b =>
          show elements r fuel false (b :: read) levels _ = _
          have hrest := hrest (b :: read) fuel (Nat.lt_of_succ_lt_succ h)
          rw [if_neg Bool.false_ne_true, List.drop_zero] at hrest
          rw [hrest]
          cases items.mapM out with
          | error fault => rfl
          | ok bs =>
              show Except.ok ((b :: read).reverse ++ bs, rest) =
                Except.ok (read.reverse ++ b :: bs, rest)
              rw [List.reverse_cons, List.append_assoc, List.singleton_append]

theorem length_le_prettyItems (level : ℕ) (values : List Value) :
    values.length ≤ ((prettyItems level values).drop 1).length := by
  induction values with
  | nil => exact Nat.zero_le _
  | cons value values ih =>
      rw [List.length_drop] at ih
      simp only [prettyItems, newLine, List.drop_one, List.tail_cons, List.length_append,
        List.length_cons, List.cons_append]
      omega

/-- Between its brackets, a list has its items with the first comma left out. -/
theorem pretty_list (value : Value) (values : List Value) (rest : List Char) :
    pretty level (.list (value :: values)) ++ rest =
      '[' :: ((prettyItems (level + 1) (value :: values)).drop 1 ++
        (newLine level ++ ']' :: rest)) := by
  simp only [pretty, prettyItems, List.drop_one, List.tail_cons, List.cons_append,
    List.append_assoc, List.nil_append]

/-- **A written list is read item by item**, and refused with the first item that is refused. -/
theorem reads_list {r : Reader β} (write : α → Value) {out : α → Except Fault β}
    (hreads : ∀ a, Reads depth r (pretty (level + 1) (write a)) (out a))
    (hbegins : ∀ a, ∃ c text, pretty (level + 1) (write a) = c :: text ∧ isSpace c = false ∧
      c ≠ ']') (items : List α) :
    Reads (depth + 1) (list r) (pretty level (.list (items.map write))) (items.mapM out) := by
  intro levels hlevels blank rest hblank hrest
  have hdeep : ¬ levels ≤ 1 := by omega
  cases items with
  | nil =>
      refine (toValue_append _ levels hblank rfl _).trans ?_
      show nested (elements r _ true []) levels (']' :: rest) = _
      unfold nested
      rw [if_neg hdeep]
      rfl
  | cons item items =>
      -- every item takes a character at least, so the reader has turns enough for all
      have hlength := length_le_prettyItems (level + 1) ((item :: items).map write)
      rw [List.length_map] at hlength
      have hread := elements_pretty hreads hbegins (levels - 1) (by omega) level rest
        (item :: items) true []
      rw [List.map_cons] at hread hlength ⊢
      rw [pretty_list]
      refine (toValue_append _ levels hblank rfl _).trans ?_
      show nested (elements r _ true []) levels _ = _
      unfold nested
      rw [if_neg hdeep]
      refine (hread _ ?_).trans ?_
      · rw [List.length_append]
        omega
      · cases (item :: items).mapM out with
        | ok bs => rfl
        | error fault => rfl

/-! ## Objects -/

theorem key?_end (first : Bool) (levels below : ℕ) (rest : List Char) :
    key? first levels (newLine below ++ '\x7d' :: rest) =
      .ok (none, newLine below ++ '\x7d' :: rest) := by
  have hkey : nextKey? first (newLine below ++ '\x7d' :: rest) = .ok none := by
    unfold nextKey?
    rw [skipSpace_newLine rfl]
    rfl
  unfold key?
  rw [hkey]

theorem endObject_newLine (below : ℕ) (rest : List Char) :
    endObject (newLine below ++ '\x7d' :: rest) = .ok rest := by
  unfold endObject
  rw [skipSpace_newLine rfl]
  rfl

/-- A key is found behind the blanks before it, and behind its comma, if it is not the first. -/
theorem key?_written (first : Bool) (key : String) (levels : ℕ) {blank : List Char}
    (hblank : ∀ c ∈ blank, isSpace c) (rest : List Char) :
    key? first levels ((if first then [] else [',']) ++ (blank ++ (writeText key ++ rest))) =
      .ok (some key, rest) := by
  have hkey : nextKey? first ((if first then [] else [',']) ++ (blank ++
      (writeText key ++ rest))) = .ok (some (key.toList.flatMap escapeChar ++ '"' :: rest)) := by
    unfold nextKey?
    rw [writeText_append]
    cases first with
    | true =>
        rw [if_pos rfl, List.nil_append, skipSpace_append hblank rfl]
        rfl
    | false =>
        rw [if_neg Bool.false_ne_true, List.singleton_append, skipSpace_cons rfl]
        split
        · exact absurd ‹_› (List.cons_ne_nil _ _)
        · rename_i heq
          exact absurd (List.cons.inj heq).1 (by decide)
        · rename_i heq
          obtain ⟨hcomma, htext⟩ := List.cons.inj heq
          rw [if_neg Bool.false_ne_true, if_pos hcomma.symm, ← htext,
            skipSpace_append hblank rfl]
          rfl
  unfold key?
  rw [hkey]
  dsimp only
  rw [readText_flatMap]
  rfl

/-- A step that, given a key and then the colon and the value behind it, leaves the draft `out`. -/
def Takes (depth : ℕ) (step : σ → String → Reader σ) (draft : σ) (key : String)
    (text : List Char) (out : Except Fault σ) : Prop :=
  ∀ levels, depth < levels → ∀ rest, Stopped rest →
    step draft key levels (':' :: ' ' :: (text ++ rest)) = out.map (·, rest)

/--
Members of an object that was written over several lines, taken by a step one after
the other from a draft on, leave the draft `out` at the end of the object.
-/
def Fills (depth : ℕ) (step : σ → String → Reader σ) (level : ℕ) (draft : σ)
    (fields : List (String × Value)) (out : Except Fault σ) : Prop :=
  ∀ levels, depth < levels → ∀ below rest first fuel, fields.length < fuel →
    members step fuel first draft levels
        ((prettyMembers level fields).drop (if first then 1 else 0) ++
          (newLine below ++ '\x7d' :: rest)) =
      out.map (·, newLine below ++ '\x7d' :: rest)

variable {step : σ → String → Reader σ} {draft : σ} {fields : List (String × Value)}

/-- The member that comes first is taken by the step, and the others go on from there. -/
theorem members_written (first : Bool) (key : String) (fuel levels : ℕ) {blank : List Char}
    (hblank : ∀ c ∈ blank, isSpace c) (tail : List Char) :
    members step (fuel + 1) first draft levels
        ((if first then [] else [',']) ++ (blank ++ (writeText key ++ tail))) =
      step draft key levels tail >>= fun p => members step fuel false p.1 levels p.2 := by
  rw [members]
  dsimp only
  rw [key?_written first key levels hblank]
  dsimp only
  cases step draft key levels tail with
  | ok p => rfl
  | error fault => rfl

theorem Fills.nil : Fills depth step level draft [] (.ok draft) := by
  intro levels _ below rest first fuel hfuel
  obtain ⟨fuel, rfl⟩ := Nat.exists_eq_succ_of_ne_zero (Nat.ne_of_gt hfuel)
  rw [prettyMembers, List.drop_nil, List.nil_append, members]
  dsimp only
  rw [key?_end]
  rfl

/-- The first member is taken, and the others go on from the draft that it leaves. -/
theorem Fills.cons {γ : Type} {key : String} {value : Value} {a : Except Fault γ} {set : γ → σ}
    {next : γ → Except Fault σ}
    (htake : Takes depth step draft key (pretty level value) (a.map set))
    (hnext : ∀ c, Fills depth step level (set c) fields (next c)) :
    Fills depth step level draft ((key, value) :: fields) (a >>= next) := by
  intro levels hlevels below rest first fuel hfuel
  obtain ⟨fuel, rfl⟩ := Nat.exists_eq_succ_of_ne_zero (Nat.ne_zero_of_lt hfuel)
  have htext : (prettyMembers level ((key, value) :: fields)).drop (if first then 1 else 0) ++
      (newLine below ++ '\x7d' :: rest) =
      (if first then [] else [',']) ++ (newLine level ++ (writeText key ++
        (':' :: ' ' :: (pretty level value ++ (prettyMembers level fields ++
          (newLine below ++ '\x7d' :: rest)))))) := by
    rw [prettyMembers]
    cases first <;> simp
  have htake := htake levels hlevels (prettyMembers level fields ++
    (newLine below ++ '\x7d' :: rest)) (by
      cases fields with
      | nil =>
          rw [prettyMembers]
          exact stopped_newLine _
      | cons =>
          rw [prettyMembers]
          exact stopped_comma _)
  rw [htext, members_written first key fuel levels (fun _ h => isSpace_of_mem_newLine h), htake]
  cases a with
  | error fault => rfl
  | ok c =>
      have hnext := hnext c levels hlevels below rest false fuel (Nat.lt_of_succ_lt_succ hfuel)
      rw [if_neg Bool.false_ne_true, List.drop_zero] at hnext
      exact hnext

theorem length_le_prettyMembers (level : ℕ) (fields : List (String × Value)) :
    fields.length ≤ ((prettyMembers level fields).drop 1).length := by
  induction fields with
  | nil => exact Nat.zero_le _
  | cons field fields ih =>
      rw [List.length_drop] at ih
      simp only [prettyMembers, newLine, List.drop_one, List.tail_cons, List.length_append,
        List.length_cons, List.cons_append]
      omega

/-- Between its braces, an object has its members with the first comma left out. -/
theorem pretty_object (field : String × Value) (fields : List (String × Value))
    (rest : List Char) :
    pretty level (.object (field :: fields)) ++ rest =
      '\x7b' :: ((prettyMembers (level + 1) (field :: fields)).drop 1 ++
        (newLine level ++ '\x7d' :: rest)) := by
  obtain ⟨key, value⟩ := field
  simp only [pretty, prettyMembers, List.drop_one, List.tail_cons, List.cons_append,
    List.append_assoc, List.nil_append]

theorem recordObject_apply (known : List (Field Reader σ)) (draft : σ) (levels : ℕ)
    (s : List Char) : recordObject known draft levels s =
      members (fieldStep known) (s.length + 1) true draft levels s >>= fun p =>
        endObject p.2 >>= fun rest => .ok (p.1, rest) := by
  unfold recordObject
  cases members (fieldStep known) (s.length + 1) true draft levels s with
  | ok p => rfl
  | error fault => rfl

/-- **A written object is read member by member** into the draft of a record. -/
theorem reads_record (title : String) {known : List (Field Reader σ)} {field : String × Value}
    {out : Except Fault σ}
    (h : Fills depth (fieldStep known) (level + 1) draft (field :: fields) out) :
    Reads (depth + 1) (record title known draft) (pretty level (.object (field :: fields)))
      out := by
  intro levels hlevels blank rest hblank hrest
  have hdeep : ¬ levels ≤ 1 := by omega
  have hlength := length_le_prettyMembers (level + 1) (field :: fields)
  have hread := h (levels - 1) (by omega) level rest true
  rw [pretty_object]
  refine (toValue_append _ levels hblank rfl _).trans ?_
  show nested (recordObject known draft) levels _ = _
  unfold nested
  rw [if_neg hdeep]
  rw [if_pos rfl] at hread
  rw [recordObject_apply, hread _ (by rw [List.length_append]; omega)]
  cases out with
  | error fault => rfl
  | ok draft =>
      show (endObject _ >>= fun rest => .ok (draft, rest)) = _
      rw [endObject_newLine]
      rfl

end Reader

end Milling.Json
