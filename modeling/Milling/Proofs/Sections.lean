import Milling.Proofs.Literals
import Milling.Proofs.Quoting

/-!
# Written TOML documents, read back

A written document is a sequence of lines, and the reader takes one line per turn: a
header opens a section, an entry is added to the section that is open, and an empty
line is passed over. So what a document is read as follows from what its lines are
read as, and a line is read as what was written if its value is.

That the sections then make up a table depends on the names in them. No name comes
twice, so each header opens a table of its own, and each key is given one value.
-/

namespace Milling.Toml

/-! ## Names without quotes -/

/-- A name that can be written without quotes. -/
structure Bare (name : String) : Prop where
  ne_nil : name.toList ≠ []
  isBare : ∀ c ∈ name.toList, isBare c

instance (name : String) : Decidable (Bare name) :=
  decidable_of_iff (name.toList.isEmpty = false ∧ name.toList.all isBare = true)
    ⟨fun h => ⟨fun hnil => by simp [hnil] at h, List.all_eq_true.mp h.2⟩,
      fun h => ⟨by simpa using h.ne_nil, List.all_eq_true.mpr h.isBare⟩⟩

theorem skipSpace_cons {c : Char} (hc : isSpace c = false) (s : List Char) :
    skipSpace (c :: s) = c :: s :=
  List.dropWhile_cons_of_neg (by rw [hc]; exact Bool.false_ne_true)

/-- A character of a bare name is none of those that mean something else. -/
theorem ne_of_isBare {c : Char} (h : isBare c) {d : Char} (hd : isBare d = false) : c ≠ d := by
  rintro rfl
  rw [h] at hd
  cases hd

theorem isSpace_of_isBare {c : Char} (h : isBare c) : isSpace c = false := by
  rw [isSpace, Bool.or_eq_false_iff]
  exact ⟨decide_eq_false (ne_of_isBare h rfl), decide_eq_false (ne_of_isBare h rfl)⟩

theorem readKeyPart?_bare {name : String} (h : Bare name) {c : Char} (hc : isBare c = false)
    (rest : List Char) :
    readKeyPart? (skipSpace (name.toList ++ c :: rest)) = some (name, c :: rest) := by
  obtain ⟨hne, hall⟩ := h
  have hstop : ¬isBare c = true := by rw [hc]; exact Bool.false_ne_true
  have htake : (name.toList ++ c :: rest).takeWhile isBare = name.toList := by
    rw [List.takeWhile_append_of_pos hall, List.takeWhile_cons_of_neg hstop, List.append_nil]
  have hdrop : (name.toList ++ c :: rest).dropWhile isBare = c :: rest := by
    rw [List.dropWhile_append_of_pos hall, List.dropWhile_cons_of_neg hstop]
  obtain ⟨first, more, hname⟩ := List.exists_cons_of_ne_nil hne
  have hfirst := hall first (hname ▸ List.mem_cons_self)
  have hspace : skipSpace (name.toList ++ c :: rest) = name.toList ++ c :: rest := by
    rw [hname]
    exact skipSpace_cons (isSpace_of_isBare hfirst) _
  rw [hspace]
  unfold readKeyPart?
  split
  · rename_i heq
    rw [hname] at heq
    exact absurd (List.cons.inj heq).1 (ne_of_isBare hfirst rfl)
  · rename_i heq
    rw [hname] at heq
    exact absurd (List.cons.inj heq).1 (ne_of_isBare hfirst rfl)
  · dsimp only
    rw [htake, hdrop, hname, List.isEmpty_cons, if_neg Bool.false_ne_true, ← hname,
      String.ofList_toList]

/-- A bare name is read as a key, up to what follows it. -/
theorem readKey?_bare {name : String} (h : Bare name) {c : Char} (hc : isBare c = false)
    (rest : List Char) (hdot : (skipSpace (c :: rest)).head? ≠ some '.') :
    readKey? (name.toList ++ c :: rest) = some ([], name, skipSpace (c :: rest)) := by
  have hparts : readKeyParts? ((name.toList ++ c :: rest).length + 1) (name.toList ++ c :: rest) =
      some ([name], skipSpace (c :: rest)) := by
    rw [readKeyParts?, readKeyPart?_bare h hc rest]
    simp only [Option.bind_eq_bind, Option.bind_some]
    split
    · rename_i heq
      exact absurd (heq ▸ rfl) hdot
    · rfl
  rw [readKey?, hparts]
  rfl

/-! ## Lines -/

/-- A written value. Nothing has to be passed over in front of it, and behind it a line ends. -/
structure Means (text : List Char) (v : Value) : Prop where
  start : ∃ c more, text = c :: more ∧ isSpace c = false ∧ c ≠ '[' ∧ c ≠ '\x7b'
  read : ∀ rest, readAtom? (text ++ '\n' :: rest) = some (v, '\n' :: rest)

variable {text : List Char} {v : Value} {name key : String}

theorem Means.readValue? (h : Means text v) (fuel levels : Nat) (rest : List Char) :
    readValue? (fuel + 1) levels (text ++ '\n' :: rest) = some (v, '\n' :: rest) := by
  obtain ⟨⟨c, more, rfl, -, hlist, htable⟩, hread⟩ := h
  rw [← hread rest, List.cons_append, Toml.readValue?]
  · exact fun rest heq => hlist (List.cons.inj heq).1
  · exact fun rest heq => htable (List.cons.inj heq).1

theorem readHeader?_line (h : Bare name) (rest : List Char) :
    readHeader? (name.toList ++ ']' :: '\n' :: rest) = some (.table [] name, rest) := by
  have hkey := readKey?_bare h (c := ']') rfl ('\n' :: rest)
    fun hdot => absurd (Option.some.inj hdot : (']' : Char) = '.') (by decide)
  have hskip : skipSpace (']' :: '\n' :: rest) = ']' :: '\n' :: rest := rfl
  rw [hskip] at hkey
  unfold readHeader?
  split
  · rename_i heq
    obtain ⟨first, more, hname⟩ := List.exists_cons_of_ne_nil h.ne_nil
    rw [hname] at heq
    exact absurd (List.cons.inj heq).1
      (ne_of_isBare (h.isBare first (hname ▸ List.mem_cons_self)) rfl)
  · rw [hkey]
    rfl

theorem readAssignment?_line (h : Bare key) (hmeans : Means text v) (rest : List Char) :
    readAssignment? (key.toList ++ ' ' :: '=' :: ' ' :: (text ++ '\n' :: rest)) =
      some (([], key, v), rest) := by
  have hkey := readKey?_bare h (c := ' ') rfl ('=' :: ' ' :: (text ++ '\n' :: rest))
    fun hdot => absurd (Option.some.inj hdot : ('=' : Char) = '.') (by decide)
  have hskip : skipSpace (' ' :: '=' :: ' ' :: (text ++ '\n' :: rest)) =
      '=' :: ' ' :: (text ++ '\n' :: rest) := rfl
  have hspace : skipSpace (' ' :: (text ++ '\n' :: rest)) = text ++ '\n' :: rest := by
    obtain ⟨c, more, rfl, hc, -⟩ := hmeans.start
    exact skipSpace_cons hc _
  rw [readAssignment?, hkey, hskip]
  simp only [Option.bind_eq_bind, Option.bind_some, hspace, hmeans.readValue?]
  rfl

/-! ## Turns of the reader -/

/-- The section that is being read, as it is when another one follows. -/
def Section.finished (s : Section) : Section := { s with entries := s.entries.reverse }

variable {fuel : Nat} {read : List Section} {current : Section}

theorem readSections?_header (h : Bare name) (rest : List Char) :
    readSections? (fuel + 1) read current ('[' :: (name.toList ++ ']' :: '\n' :: rest)) =
      readSections? fuel (current.finished :: read) ⟨.table [] name, []⟩ rest := by
  rw [readSections?, skipSpace_cons rfl]
  simp only [readHeader?_line h rest]
  rfl

theorem readSections?_entry (h : Bare key) (hmeans : Means text v) (rest : List Char) :
    readSections? (fuel + 1) read current
        (key.toList ++ ' ' :: '=' :: ' ' :: (text ++ '\n' :: rest)) =
      readSections? fuel read { current with entries := ([], key, v) :: current.entries } rest := by
  have hentry := readAssignment?_line h hmeans rest
  obtain ⟨first, more, hname⟩ := List.exists_cons_of_ne_nil h.ne_nil
  have hfirst := h.isBare first (hname ▸ List.mem_cons_self)
  rw [hname, List.cons_append] at hentry ⊢
  rw [readSections?, skipSpace_cons (isSpace_of_isBare hfirst)]
  split
  · rename_i heq
    cases heq
  · rename_i heq
    exact absurd (List.cons.inj heq).1 (ne_of_isBare hfirst rfl)
  · rename_i heq
    exact absurd (List.cons.inj heq).1 (ne_of_isBare hfirst rfl)
  · rw [newline?_eq_none (ne_of_isBare hfirst rfl) (ne_of_isBare hfirst rfl), hentry]

theorem readSections?_blank (rest : List Char) :
    readSections? (fuel + 1) read current ('\n' :: rest) =
      readSections? fuel read current rest := rfl

theorem readSections?_end :
    readSections? (fuel + 1) read current [] = some (current.finished :: read).reverse := rfl

/-! ## Tables -/

/-- An entry of a table with what is written for it and what that means. -/
structure Entry where
  key : String
  text : List Char
  value : Value

/-- A table with what is written for it and what that means. -/
structure Sheet where
  name : String
  entries : List Entry

namespace Sheet

/-- What is written for a table. -/
def table (s : Sheet) : Table :=
  { name := s.name, entries := s.entries.map fun e => (e.key, e.text) }

/-- The section that is read. -/
def toSection (s : Sheet) : Section :=
  ⟨.table [] s.name, s.entries.map fun e => ([], e.key, e.value)⟩

/-- What the table means. -/
def member (s : Sheet) : String × Value :=
  (s.name, .table (s.entries.map fun e => (e.key, e.value)))

/-- The names need no quotes, no key comes twice, and every value is read as what is meant. -/
structure Sound (s : Sheet) : Prop where
  name : Bare s.name
  key : ∀ e ∈ s.entries, Bare e.key
  means : ∀ e ∈ s.entries, Means e.text e.value
  distinct : (s.entries.map Entry.key).Nodup

end Sheet

/-- The lines of some entries. -/
def lines (entries : List Entry) : List Char :=
  (entries.map fun e => (e.key, e.text)).flatMap fun (key, value) =>
    key.toList ++ (' ' :: '=' :: ' ' :: (value ++ ['\n']))

theorem lines_cons (e : Entry) (entries : List Entry) (rest : List Char) :
    lines (e :: entries) ++ rest =
      e.key.toList ++ ' ' :: '=' :: ' ' :: (e.text ++ '\n' :: (lines entries ++ rest)) := by
  simp [lines]

theorem length_le_lines (entries : List Entry) : entries.length ≤ (lines entries).length := by
  induction entries with
  | nil => exact Nat.le_refl _
  | cons e entries ih =>
      have hline := congrArg List.length (lines_cons e entries [])
      simp only [List.length_append, List.length_cons, List.length_nil] at hline ⊢
      omega

/-- The entries of a section are read one after the other. -/
theorem readSections?_lines {entries : List Entry} (hkey : ∀ e ∈ entries, Bare e.key)
    (hmeans : ∀ e ∈ entries, Means e.text e.value) (rest : List Char) :
    readSections? (fuel + entries.length) read current (lines entries ++ rest) =
      readSections? fuel read
        { current with
          entries := (entries.map fun e => ([], e.key, e.value)).reverse ++ current.entries }
        rest := by
  -- one turn for each entry, which is put in front of those before it
  induction entries generalizing current with
  | nil => rfl
  | cons e entries ih =>
      rw [List.forall_mem_cons] at hkey hmeans
      rw [lines_cons, List.length_cons, ← Nat.add_assoc, readSections?_entry hkey.1 hmeans.1,
        ih hkey.2 hmeans.2]
      simp

/-- A written table is read as a section of its own. -/
theorem readSections?_table {s : Sheet} (hs : s.Sound) (read : List Section) (current : Section)
    (rest : List Char) (hfuel : (s.table.write ++ rest).length < fuel) :
    ∃ fuel' opened, rest.length < fuel' ∧ opened.finished = s.toSection ∧
      readSections? fuel read current (s.table.write ++ rest) =
        readSections? fuel' (current.finished :: read) opened rest := by
  have hwrite : s.table.write ++ rest =
      '[' :: (s.name.toList ++ ']' :: '\n' :: (lines s.entries ++ rest)) := by
    simp [Sheet.table, Table.write, lines]
  have hlines := length_le_lines s.entries
  have hlength := congrArg List.length hwrite
  simp only [List.length_append, List.length_cons] at hlength hfuel
  obtain ⟨fuel', rfl⟩ : ∃ fuel', fuel = fuel' + s.entries.length + 1 :=
    ⟨fuel - s.entries.length - 1, by omega⟩
  rw [hwrite, readSections?_header hs.name, readSections?_lines hs.key hs.means]
  refine ⟨fuel', _, by omega, ?_, rfl⟩
  rw [Section.finished, Sheet.toSection, List.append_nil, List.reverse_reverse]

/-- **A written document is read as its sections**, below one without a header that is empty. -/
theorem readSections?_writeTables (sheets : List Sheet) (hs : ∀ s ∈ sheets, s.Sound)
    (hfuel : (writeTables (sheets.map Sheet.table)).length < fuel) :
    readSections? fuel read current (writeTables (sheets.map Sheet.table)) =
      some (read.reverse ++ current.finished :: sheets.map Sheet.toSection) := by
  -- on the tables, whatever has been read; a blank line stands before each but the first
  induction sheets generalizing fuel read current with
  | nil =>
      obtain ⟨fuel, rfl⟩ := Nat.exists_eq_succ_of_ne_zero (Nat.ne_of_gt hfuel)
      exact readSections?_end.trans (by rw [List.reverse_cons]; rfl)
  | cons s sheets ih =>
      rw [List.forall_mem_cons] at hs
      cases sheets with
      | nil =>
          have hwrite : writeTables ([s].map Sheet.table) = s.table.write ++ [] :=
            (List.append_nil _).symm
          rw [hwrite] at hfuel ⊢
          obtain ⟨fuel', opened, hfuel', hopened, hread⟩ :=
            readSections?_table hs.1 read current [] hfuel
          obtain ⟨fuel', rfl⟩ := Nat.exists_eq_succ_of_ne_zero (Nat.ne_of_gt hfuel')
          rw [hread, readSections?_end, hopened]
          simp
      | cons s' sheets =>
          have hwrite : writeTables ((s :: s' :: sheets).map Sheet.table) =
              s.table.write ++ '\n' :: writeTables ((s' :: sheets).map Sheet.table) := rfl
          rw [hwrite] at hfuel ⊢
          obtain ⟨fuel', opened, hfuel', hopened, hread⟩ :=
            readSections?_table hs.1 read current _ hfuel
          rw [List.length_cons] at hfuel'
          obtain ⟨fuel', rfl⟩ :=
            Nat.exists_eq_succ_of_ne_zero (Nat.ne_of_gt (Nat.zero_lt_of_lt hfuel'))
          rw [hread, readSections?_blank, ih hs.2 (Nat.lt_of_succ_lt_succ hfuel'), hopened]
          simp

/-! ## From sections to a table -/

/-- A key that names nothing yet. -/
theorem get?_eq_none {members : Members} (h : key ∉ members.map Prod.fst) :
    members.get? key = none := by
  refine List.lookup_eq_none_iff.mpr fun m hm => bne_iff_ne.mpr fun hkey => h ?_
  rw [hkey]
  exact List.mem_map_of_mem hm

/-- New keys are added in order. -/
theorem assignAll_entries {entries : List Entry} {members : Members}
    (hdistinct : (members.map Prod.fst ++ entries.map Entry.key).Nodup) :
    Members.assignAll (entries.map fun e => ([], e.key, e.value)) members =
      some (members ++ entries.map fun e => (e.key, .value e.value)) := by
  unfold Members.assignAll
  induction entries generalizing members with
  | nil => simp
  | cons e entries ih =>
      rw [List.map_cons, List.nodup_middle, List.nodup_cons] at hdistinct
      obtain ⟨hnew, hrest⟩ := hdistinct
      have hassign : Members.assign e.key e.value [] members =
          some (members ++ [(e.key, .value e.value)]) := by
        rw [Members.assign, get?_eq_none fun hmem => hnew (List.mem_append_left _ hmem)]
        rfl
      rw [List.map_cons, List.foldlM_cons]
      dsimp only
      rw [hassign]
      show List.foldlM _ _ _ = _
      rw [ih]
      · simp
      · rw [List.map_append, List.append_assoc]
        exact List.nodup_middle.mpr (List.nodup_cons.mpr ⟨hnew, hrest⟩)

/-- The place of a table in a document. -/
def Sheet.node (s : Sheet) : String × Node :=
  (s.name, .table .header (s.entries.map fun e => (e.key, .value e.value)))

/-- New tables are opened in order. -/
theorem addTo_sections {sheets : List Sheet} (members : Members) (hs : ∀ s ∈ sheets, s.Sound)
    (hdistinct : (members.map Prod.fst ++ sheets.map Sheet.name).Nodup) :
    (sheets.map Sheet.toSection).foldlM Section.addTo members =
      some (members ++ sheets.map Sheet.node) := by
  -- on the tables: no name is there yet, so each opens a table of its own at the end
  induction sheets generalizing members with
  | nil => simp
  | cons s sheets ih =>
      rw [List.forall_mem_cons] at hs
      rw [List.map_cons, List.nodup_middle, List.nodup_cons] at hdistinct
      obtain ⟨hnew, hrest⟩ := hdistinct
      have hopen : Section.addTo members s.toSection = some (members ++ [s.node]) := by
        show Members.openTable s.name (s.entries.map fun e => ([], e.key, e.value)) members = _
        rw [Members.openTable, get?_eq_none fun hmem => hnew (List.mem_append_left _ hmem)]
        dsimp only
        rw [assignAll_entries (by simpa using hs.1.distinct)]
        rfl
      rw [List.map_cons, List.foldlM_cons, hopen]
      show List.foldlM _ _ _ = _
      rw [ih _ hs.2]
      · simp
      · rw [List.map_append, List.append_assoc]
        exact List.nodup_middle.mpr (List.nodup_cons.mpr ⟨hnew, hrest⟩)

theorem membersToValues_eq (members : List (String × Node)) :
    membersToValues members = members.map fun m => (m.1, m.2.toValue) := by
  induction members with
  | nil => rfl
  | cons m members ih =>
      obtain ⟨key, node⟩ := m
      rw [membersToValues, ih]
      rfl

/-- **A written document is read as the table of what its tables mean.** -/
theorem read?_writeTables (sheets : List Sheet) (hs : ∀ s ∈ sheets, s.Sound)
    (hdistinct : (sheets.map Sheet.name).Nodup) :
    read? (String.ofList (writeTables (sheets.map Sheet.table))) =
      some (.table (sheets.map Sheet.member)) := by
  -- no document that is written begins with a byte order mark
  have hread : read? (String.ofList (writeTables (sheets.map Sheet.table))) =
      (readSections? ((writeTables (sheets.map Sheet.table)).length + 1) [] ⟨.document, []⟩
        (writeTables (sheets.map Sheet.table))).bind fun sections =>
          (sections.foldlM Section.addTo []).bind fun members =>
            some (Node.table .header members).toValue := by
    unfold read?
    rw [String.toList_ofList]
    cases sheets with
    | nil => rfl
    | cons s sheets =>
        cases sheets with
        | nil => rfl
        | cons s' sheets => rfl
  have hfold : ((⟨.document, []⟩ : Section) :: sheets.map Sheet.toSection).foldlM Section.addTo [] =
      some (sheets.map Sheet.node) := by
    rw [List.foldlM_cons]
    show List.foldlM _ _ _ = _
    exact addTo_sections [] hs hdistinct
  have hvalues : (Node.table .header (sheets.map Sheet.node)).toValue =
      .table (sheets.map Sheet.member) := by
    rw [Node.toValue, membersToValues_eq, List.map_map]
    congr 1
    refine List.map_congr_left fun s _ => ?_
    simp [Sheet.node, Sheet.member, Node.toValue, membersToValues_eq, Function.comp_def]
  rw [hread, readSections?_writeTables sheets hs (Nat.lt_succ_self _), Option.bind_some,
    show Section.finished ⟨.document, []⟩ = ⟨.document, []⟩ from rfl, List.reverse_nil,
    List.nil_append, hfold, Option.bind_some, hvalues]

end Milling.Toml
