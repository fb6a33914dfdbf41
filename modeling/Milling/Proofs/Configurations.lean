import Milling.Config.Store
import Milling.Proofs.Figures
import Milling.Proofs.Reload
import Milling.Proofs.Sections
import Milling.Proofs.Storage

/-!
# Configurations, written and read back

A configuration can be written in two formats. In TOML it is read back as it was,
whatever its name, as long as its numbers are numbers. In JSON the numbers are read
back as the JSON reader makes them, which may be a place off, so there it is read back
as it was if its numbers are such that this reader finds them again. Those of the
standard configuration are.

On a disk, what was stored is what is loaded, since only what is accepted is stored
and all of it can be read back.
-/

namespace Milling

namespace Toml

theorem readAtom?_of_ne {c : Char} (h : c ≠ '"' ∧ c ≠ '\'' ∧ c ≠ 't' ∧ c ≠ 'f') (s : List Char) :
    readAtom? (c :: s) = (Literal.read? (c :: s)).map fun (literal, rest) =>
      (match literal with
        | .integer i => .integer i
        | .number x => .number x
        | .moment => .moment, rest) := by
  obtain ⟨hquote, hmark, ht, hf⟩ := h
  unfold readAtom?
  split
  · rename_i heq
    exact absurd (List.cons.inj heq).1 hquote
  · rename_i heq
    exact absurd (List.cons.inj heq).1 hmark
  · rename_i heq
    exact absurd (List.cons.inj heq).1 ht
  · rename_i heq
    exact absurd (List.cons.inj heq).1 hf
  · rfl

/-- A number begins with a digit or a minus. -/
theorem exists_writeNumber {x : Float} (h : x.isFinite) :
    ∃ c more, writeNumber x = c :: more ∧ (c = '-' ∨ c.isDigit) := by
  obtain ⟨negative, m, e, hview, -⟩ := Double.view_finite h
  obtain ⟨whole, fraction, n, k, htext, hpointed, -⟩ := Double.exists_pointed hview
  rw [writeNumber, htext]
  cases negative with
  | true => exact ⟨_, _, rfl, .inl rfl⟩
  | false =>
      obtain ⟨c, digits, rfl⟩ := List.exists_cons_of_ne_nil hpointed.leading.ne_nil
      exact ⟨c, _, rfl, .inr (hpointed.leading.isDigit c List.mem_cons_self)⟩

theorem means_writeNumber {x : Float} (h : x.isFinite) : Means (writeNumber x) (.number x) := by
  obtain ⟨c, more, hwrite, hc⟩ := exists_writeNumber h
  have hne : ∀ d, d ≠ '-' → d.isDigit = false → c ≠ d := by
    rintro d hminus hdigit rfl
    rcases hc with hc | hc
    · exact hminus hc
    · rw [hdigit] at hc
      cases hc
  constructor
  · refine ⟨c, more, hwrite, ?_, hne _ (by decide) rfl, hne _ (by decide) rfl⟩
    rw [isSpace, Bool.or_eq_false_iff]
    exact ⟨decide_eq_false (hne _ (by decide) rfl), decide_eq_false (hne _ (by decide) rfl)⟩
  · intro rest
    have hread := Literal.read?_writeNumber h rest
    rw [hwrite, List.cons_append] at hread ⊢
    rw [readAtom?_of_ne ⟨hne _ (by decide) rfl, hne _ (by decide) rfl, hne _ (by decide) rfl,
      hne _ (by decide) rfl⟩, hread]
    rfl

theorem means_writeText (text : String) : Means (writeText text) (.text text) := by
  obtain ⟨c, more, hwrite, hc⟩ : ∃ c more, writeText text = c :: more ∧ (c = '"' ∨ c = '\'') := by
    unfold writeText
    dsimp only
    cases Style.of text.toList with
    | quotes => exact ⟨_, _, rfl, .inl rfl⟩
    | apostrophes => exact ⟨_, _, rfl, .inr rfl⟩
    | quoteLines => exact ⟨_, _, rfl, .inl rfl⟩
    | apostropheLines => exact ⟨_, _, rfl, .inr rfl⟩
  constructor
  · refine ⟨c, more, hwrite, ?_⟩
    rcases hc with rfl | rfl
    · decide
    · decide
  · intro rest
    have hread := readText?_writeText text rest
    rw [hwrite, List.cons_append] at hread ⊢
    rcases hc with rfl | rfl
    · show (readText? _).map _ = _
      rw [hread]
      rfl
    · show (readText? _).map _ = _
      rw [hread]
      rfl

end Toml

/-- All numbers of a machine are numbers. -/
structure Machine.Finite (m : Machine) : Prop where
  feedRate : m.feedRate.isFinite
  safeHeight : m.safeHeight.isFinite
  cutDepth : m.cutDepth.isFinite
  toolDiameter : m.toolDiameter.isFinite

/-! ## In JSON -/

open Json (Reader Value)
open Json.Reader (Reads Takes Fills fieldStep)

namespace Machine

/-- A machine with every number as its digits make it, unless one of them is refused. -/
def reread (m : Machine) : Except Json.Fault Machine := do
  let feedRate ← Json.reread m.feedRate
  let safeHeight ← Json.reread m.safeHeight
  let cutDepth ← Json.reread m.cutDepth
  let toolDiameter ← Json.reread m.toolDiameter
  return { feedRate, safeHeight, cutDepth, toolDiameter }

/-- The draft that the members of a written machine leave behind. -/
def redraft (m : Machine) : Except Json.Fault Draft := do
  let feedRate ← Json.reread m.feedRate
  let safeHeight ← Json.reread m.safeHeight
  let cutDepth ← Json.reread m.cutDepth
  let toolDiameter ← Json.reread m.toolDiameter
  .ok {
    feedRate := some feedRate, safeHeight := some safeHeight
    cutDepth := some cutDepth, toolDiameter := some toolDiameter }

/-- The members of a written machine fill the draft in order. -/
theorem fills_fields (m : Machine) (level : ℕ) :
    Fills 0 (fieldStep fields) level {}
      [("feed_rate", .number m.feedRate), ("safe_height", .number m.safeHeight),
        ("cut_depth", .number m.cutDepth), ("tool_diameter", .number m.toolDiameter)]
      m.redraft := by
  have hnumber : ∀ x, Reads 0 Reader.number (Value.pretty level (.number x)) (Json.reread x) :=
    fun x => Reader.reads_number x
  have hfeed : ∀ d : Draft, d.feedRate = none → Takes 0 (fieldStep fields) d "feed_rate"
      (Value.pretty level (.number m.feedRate))
      ((Json.reread m.feedRate).map fun x => { d with feedRate := some x }) :=
    fun d hd => Record.takes_field rfl (congrArg Option.isSome hd) rfl (hnumber _)
  have hheight : ∀ d : Draft, d.safeHeight = none → Takes 0 (fieldStep fields) d "safe_height"
      (Value.pretty level (.number m.safeHeight))
      ((Json.reread m.safeHeight).map fun x => { d with safeHeight := some x }) :=
    fun d hd => Record.takes_field rfl (congrArg Option.isSome hd) rfl (hnumber _)
  have hdepth : ∀ d : Draft, d.cutDepth = none → Takes 0 (fieldStep fields) d "cut_depth"
      (Value.pretty level (.number m.cutDepth))
      ((Json.reread m.cutDepth).map fun x => { d with cutDepth := some x }) :=
    fun d hd => Record.takes_field rfl (congrArg Option.isSome hd) rfl (hnumber _)
  have hdiameter : ∀ d : Draft, d.toolDiameter = none → Takes 0 (fieldStep fields) d "tool_diameter"
      (Value.pretty level (.number m.toolDiameter))
      ((Json.reread m.toolDiameter).map fun x => { d with toolDiameter := some x }) :=
    fun d hd => Record.takes_field rfl (congrArg Option.isSome hd) rfl (hnumber _)
  refine Fills.cons (hfeed _ rfl) fun feedRate => ?_
  refine Fills.cons (hheight _ rfl) fun safeHeight => ?_
  refine Fills.cons (hdepth _ rfl) fun cutDepth => ?_
  refine Fills.cons (hdiameter _ rfl) fun toolDiameter => ?_
  exact Fills.nil

/-- The machine that a draft makes: every parameter has to be there. -/
def Draft.finish (d : Draft) : Except Json.Fault Machine := do
  let need (name : String) : Option Float → Except Json.Fault Float
    | some value => .ok value
    | none => .error (.mismatch (.missingField name))
  let feedRate ← need "feed_rate" d.feedRate
  let safeHeight ← need "safe_height" d.safeHeight
  let cutDepth ← need "cut_depth" d.cutDepth
  let toolDiameter ← need "tool_diameter" d.toolDiameter
  return { feedRate, safeHeight, cutDepth, toolDiameter }

theorem finish_redraft (m : Machine) : m.redraft >>= Draft.finish = m.reread := by
  simp only [redraft, bind_assoc]
  rfl

/-- A written machine is read as a machine, its numbers as their digits make them. -/
theorem reads_machine (m : Machine) (level : ℕ) :
    Reads 1 decode (Value.pretty level m.toJson) m.reread := by
  have hfinish : ∀ (d : Draft) levels rest, (do
      return {
        feedRate := ← Decoding.require "feed_rate" d.feedRate
        safeHeight := ← Decoding.require "safe_height" d.safeHeight
        cutDepth := ← Decoding.require "cut_depth" d.cutDepth
        toolDiameter := ← Decoding.require "tool_diameter" d.toolDiameter } : Reader Machine)
        levels rest = d.finish.map (·, rest) := by
    intro d levels rest
    obtain ⟨feedRate, safeHeight, cutDepth, toolDiameter⟩ := d
    -- what is missing first is what both of them name
    cases feedRate with
    | none => rfl
    | some feedRate => cases safeHeight with
      | none => rfl
      | some safeHeight => cases cutDepth with
        | none => rfl
        | some cutDepth => cases toolDiameter with
          | none => rfl
          | some toolDiameter => rfl
  rw [← finish_redraft]
  exact (Reader.reads_record "struct MachineSettings" (m.fills_fields (level + 1))).bind hfinish

end Machine

namespace Config

/-- The part about storing is read as the name in it. -/
theorem reads_export (name : String) (level : ℕ) :
    Reads 1 decodeExport (Value.pretty level (.object [("file_name", .text name)])) (.ok name) := by
  have htake : Takes 0 (fieldStep exportFields) none "file_name"
      (Value.pretty (level + 1) (.text name)) ((Except.ok name).map some) :=
    Record.takes_field rfl rfl rfl (Reader.reads_text name)
  have hfills : Fills 0 (fieldStep exportFields) (level + 1) none [("file_name", .text name)]
      (.ok (some name)) := Fills.cons htake fun _ => Fills.nil
  exact (Reader.reads_record "struct ExportSettings" hfills).bind
    (g := fun draft => draft.elim (.error (.mismatch (.missingField "file_name"))) .ok)
    fun draft levels rest => by
      cases draft with
      | none => rfl
      | some name => rfl

/-- **A configuration in JSON is read back with its numbers as their digits make them.** -/
theorem ofJson_toLines (c : Config) :
    ofJson c.toJson.toLines =
      (c.machine.reread.map fun machine => { c with machine }).mapError .json := by
  have hmachine : Takes 1 (fieldStep fields) {} "machine"
      (Value.pretty 1 c.machine.toJson)
      (c.machine.reread.map fun machine => { machine := some machine }) :=
    Record.takes_field rfl rfl rfl (c.machine.reads_machine 1)
  have hexport : ∀ machine, Takes 1 (fieldStep fields) { machine := some machine } "export"
      (Value.pretty 1 (.object [("file_name", .text c.fileName)]))
      ((Except.ok c.fileName).map fun name => { machine := some machine, fileName := some name }) :=
    fun machine => Record.takes_field rfl rfl rfl (reads_export c.fileName 1)
  have hfills : Fills 1 (fieldStep fields) 1 {}
      [("machine", c.machine.toJson), ("export", .object [("file_name", .text c.fileName)])]
      (do
        let machine ← c.machine.reread
        .ok { machine := some machine, fileName := some c.fileName }) :=
    Fills.cons hmachine fun machine => Fills.cons (hexport machine) fun name => Fills.nil
  have hread : Reads 2 decode (Value.pretty 0 c.toJson)
      (c.machine.reread.map fun machine => { c with machine }) := by
    have hbind := (Reader.reads_record "struct Config" hfills).bind
      (f := fun draft => (pure {
        machine := draft.machine.getD standard.machine
        fileName := draft.fileName.getD standard.fileName } : Reader Config))
      (g := fun draft => .ok {
        machine := draft.machine.getD standard.machine
        fileName := draft.fileName.getD standard.fileName })
      (fun draft levels rest => rfl)
    cases hmachine : c.machine.reread with
    | error fault =>
        rw [hmachine] at hbind
        exact hbind
    | ok machine =>
        rw [hmachine] at hbind
        exact hbind
  have hrun := hread Reader.levelLimit (by decide) [] [] (by simp) (by simp [Json.Stopped])
  rw [List.nil_append, List.append_nil] at hrun
  unfold ofJson Reader.run Value.toLines
  rw [String.toList_ofList, hrun]
  cases c.machine.reread with
  | error fault => rfl
  | ok machine => rfl

/-! ## In TOML -/

/-- The two tables of a configuration. -/
def sheets (c : Config) : List Toml.Sheet :=
  [ { name := "machine", entries := [
        ⟨"feed_rate", Toml.writeNumber c.machine.feedRate, .number c.machine.feedRate⟩,
        ⟨"safe_height", Toml.writeNumber c.machine.safeHeight, .number c.machine.safeHeight⟩,
        ⟨"cut_depth", Toml.writeNumber c.machine.cutDepth, .number c.machine.cutDepth⟩,
        ⟨"tool_diameter", Toml.writeNumber c.machine.toolDiameter,
          .number c.machine.toolDiameter⟩] },
    { name := "export", entries := [⟨"file_name", Toml.writeText c.fileName, .text c.fileName⟩] } ]

theorem toToml_eq (c : Config) :
    c.toToml = String.ofList (Toml.writeTables (c.sheets.map Toml.Sheet.table)) := rfl

theorem decode_members (c : Config) :
    decode (m := Toml.Decoder) (.table (c.sheets.map Toml.Sheet.member)) = .ok c := by
  rfl

/-- **A configuration in TOML is read back as it was**, numbers and name alike. -/
theorem ofToml_toToml {c : Config} (h : c.machine.Finite) : ofToml c.toToml = .ok c := by
  obtain ⟨hfeed, hheight, hdepth, hdiameter⟩ := h
  have hnames : ∀ name ∈ ["machine", "feed_rate", "safe_height", "cut_depth", "tool_diameter",
      "export", "file_name"], Toml.Bare name := by
    decide
  have hkeys : ["feed_rate", "safe_height", "cut_depth", "tool_diameter"].Nodup := by decide
  have hsound : ∀ s ∈ c.sheets, s.Sound := by
    refine List.forall_mem_cons.mpr ⟨⟨hnames _ (by simp), ?_, ?_, hkeys⟩,
      List.forall_mem_singleton.mpr ⟨hnames _ (by simp), ?_, ?_, List.nodup_singleton _⟩⟩
    · simp only [List.forall_mem_cons]
      exact ⟨hnames _ (by simp), hnames _ (by simp), hnames _ (by simp), hnames _ (by simp),
        List.forall_mem_nil _⟩
    · simp only [List.forall_mem_cons]
      exact ⟨Toml.means_writeNumber hfeed, Toml.means_writeNumber hheight,
        Toml.means_writeNumber hdepth, Toml.means_writeNumber hdiameter, List.forall_mem_nil _⟩
    · exact List.forall_mem_singleton.mpr (hnames _ (by simp))
    · exact List.forall_mem_singleton.mpr (Toml.means_writeText c.fileName)
  have htables : (c.sheets.map Toml.Sheet.name).Nodup :=
    (by decide : ["machine", "export"].Nodup)
  rw [ofToml, toToml_eq, Toml.read?_writeTables c.sheets hsound htables]
  dsimp only
  rw [decode_members]
  rfl

theorem finite_of_check {c : Config} (h : c.check = .ok ()) : c.machine.Finite := by
  obtain ⟨_, hmachine, -⟩ := Outcome.ok_of_bind h
  obtain ⟨⟨hfeed, -⟩, ⟨hheight, -⟩, ⟨hdepth, -⟩, hdiameter, -⟩ := Machine.sizes_of_check hmachine
  exact ⟨hfeed, hheight, hdepth, hdiameter⟩

/-- A configuration that is accepted has numbers that can be written. -/
theorem read_write_toml {c : Config} (h : c.check = .ok ()) :
    read .toml (write .toml c) = .ok c := by
  rw [read, write]
  exact ofToml_toToml (finite_of_check h)

/-- The numbers of the standard machine are read back by either reader. -/
theorem reread_standard : Machine.standard.reread = .ok Machine.standard := by
  decide +kernel

theorem check_standard : standard.check = .ok () := by
  decide +kernel

/-- The standard configuration is read back, whichever format it is written in. -/
theorem read_write_standard (format : Format) :
    read format (write format standard) = .ok standard := by
  cases format with
  | toml => exact read_write_toml check_standard
  | json =>
      rw [read, write, ofJson_toLines, show standard.machine = Machine.standard from rfl,
        reread_standard]
      rfl

/-! ## On a disk -/

open Disk (Tree)

variable {c : Config} {path : String} {t t' : Tree}

/-- A file holds a configuration, in the format that its name shows, and it is accepted. -/
structure Stands (t : Tree) (path : String) (c : Config) : Prop where
  text : ∃ format text, Format.ofPath path = .ok format ∧ t.read path = .ok text.toUTF8 ∧
    read format text = .ok c
  check : c.check = .ok ()

theorem accept_eq_ok_iff {format : Format} {text : String} :
    accept format text = .ok c ↔ read format text = .ok c ∧ c.check = .ok () := by
  unfold accept
  constructor
  · intro h
    obtain ⟨config, hread, hrest⟩ := Outcome.ok_of_bind h
    obtain ⟨_, hcheck, hconfig⟩ := Outcome.ok_of_bind hrest
    obtain rfl := Except.ok.inj hconfig
    exact ⟨Outcome.mapError_eq_ok_iff.mp hread, Outcome.mapError_eq_ok_iff.mp hcheck⟩
  · rintro ⟨hread, hcheck⟩
    rw [hread, Except.mapError]
    show (do let _ ← c.check.mapError StoreFault.refused; pure c) = _
    rw [hcheck]
    rfl

/-- To load a configuration is to read what stands in its file, and changes nothing. -/
theorem run_load (path : String) (t : Tree) :
    (load path : StateM Tree _).run t = (do
      let format ← (Format.ofPath path).mapError .refused
      let text ← (t.read path >>= Disk.textOfBytes).mapError (.unreadable path)
      accept format text, t) := by
  unfold load
  cases Format.ofPath path with
  | error fault => rfl
  | ok format =>
      dsimp only
      rw [Tree.run_bind, Tree.run_readText]
      cases t.read path >>= Disk.textOfBytes with
      | error problem => rfl
      | ok text => rfl

theorem load_eq_ok_iff : ((load path : StateM Tree _).run t).1 = .ok c ↔ Stands t path c := by
  rw [run_load]
  dsimp only
  constructor
  · intro h
    obtain ⟨format, hformat, hrest⟩ := Outcome.ok_of_bind h
    obtain ⟨text, htext, haccept⟩ := Outcome.ok_of_bind hrest
    obtain ⟨hread, hcheck⟩ := accept_eq_ok_iff.mp haccept
    exact ⟨⟨format, text, Outcome.mapError_eq_ok_iff.mp hformat,
      Tree.bind_textOfBytes_eq_ok_iff.mp (Outcome.mapError_eq_ok_iff.mp htext), hread⟩, hcheck⟩
  · rintro ⟨⟨format, text, hformat, htext, hread⟩, hcheck⟩
    rw [hformat, Tree.bind_textOfBytes_eq_ok_iff.mpr htext]
    exact accept_eq_ok_iff.mpr ⟨hread, hcheck⟩

theorem run_load_of_stands (h : Stands t path c) :
    (load path : StateM Tree _).run t = (.ok c, t) := by
  have hload := load_eq_ok_iff.mpr h
  rw [run_load] at hload ⊢
  exact congrArg (·, t) hload

theorem document_eq_ok_iff {text : String} :
    c.document path = .ok text ↔
      c.check = .ok () ∧ ∃ format, Format.ofPath path = .ok format ∧ text = write format c := by
  unfold document
  constructor
  · intro h
    obtain ⟨_, hcheck, hrest⟩ := Outcome.ok_of_bind h
    obtain ⟨format, hformat, htext⟩ := Outcome.ok_of_bind hrest
    exact ⟨Outcome.mapError_eq_ok_iff.mp hcheck, format, Outcome.mapError_eq_ok_iff.mp hformat,
      (Except.ok.inj htext).symm⟩
  · rintro ⟨hcheck, format, hformat, rfl⟩
    rw [hcheck, hformat]
    rfl

/-- A configuration is stored if it is accepted and the disk takes its text. -/
theorem save_eq_ok_iff : (c.save path : StateM Tree _).run t = (.ok (), t') ↔
    c.check = .ok () ∧ ∃ format, Format.ofPath path = .ok format ∧
      (Disk.store path (write format c) : StateM Tree _).run t = (.ok (), t') := by
  unfold save
  constructor
  · intro h
    cases hdocument : c.document path with
    | error fault =>
        rw [hdocument] at h
        cases h
    | ok text =>
        rw [hdocument] at h
        obtain ⟨hcheck, format, hformat, rfl⟩ := document_eq_ok_iff.mp hdocument
        obtain ⟨hstore, rfl⟩ := Prod.mk.inj h
        exact ⟨hcheck, format, hformat, Prod.ext (Outcome.mapError_eq_ok_iff.mp hstore) rfl⟩
  · rintro ⟨hcheck, format, hformat, hstore⟩
    rw [document_eq_ok_iff.mpr ⟨hcheck, format, hformat, rfl⟩]
    dsimp only
    rw [Tree.run_bind, hstore]
    rfl

/-- What was stored stands in its file, if it can be read at all in the format that was chosen. -/
theorem stands_of_save (hread : ∀ format, Format.ofPath path = .ok format →
      read format (write format c) = .ok c)
    (hsave : (c.save path : StateM Tree _).run t = (.ok (), t')) : Stands t' path c := by
  obtain ⟨hcheck, format, hformat, hstore⟩ := save_eq_ok_iff.mp hsave
  exact ⟨⟨format, write format c, hformat, Tree.read_of_store hstore, hread format hformat⟩, hcheck⟩

/--
**A configuration that is stored as TOML is loaded as it was**, its numbers to the
last bit and its name to the last character, wherever the disk takes its text. To
store what was loaded once more succeeds, and leaves every file with the bytes that
it had.
-/
theorem load_save (hcheck : c.check = .ok ()) (htoml : Disk.Path.extension? path = some "toml")
    (hwrite : (Disk.store path c.toToml : StateM Tree _).run t = (.ok (), t')) :
    (c.save path : StateM Tree _).run t = (.ok (), t') ∧
      t'.read path = .ok c.toToml.toUTF8 ∧
      (load path : StateM Tree _).run t' = (.ok c, t') ∧
      ∃ t'', (c.save path : StateM Tree _).run t' = (.ok (), t'') ∧
        t''.read path = .ok c.toToml.toUTF8 ∧ ∀ place, t''.get? place = t'.get? place := by
  have hformat : Format.ofPath path = .ok .toml := by
    rw [Format.ofPath, htoml]
    rfl
  have hsave : (c.save path : StateM Tree _).run t = (.ok (), t') :=
    save_eq_ok_iff.mpr ⟨hcheck, .toml, hformat, hwrite⟩
  have hstands : Stands t' path c := by
    refine stands_of_save (fun format hformat' => ?_) hsave
    obtain rfl := Except.ok.inj (hformat.symm.trans hformat')
    exact read_write_toml hcheck
  obtain ⟨t'', hagain, -, hsame⟩ := Tree.store_again hwrite
  exact ⟨hsave, Tree.read_of_store hwrite, run_load_of_stands hstands, t'',
    save_eq_ok_iff.mpr ⟨hcheck, .toml, hformat, hagain⟩, Tree.read_of_store hagain, hsame⟩

/-- Its name has quotes of both kinds and runs of them, a backslash, ends of line and controls. -/
def strange : Config :=
  { standard with fileName := "'''a'\"\"\"\\\r\n\r\u0001\u007fé\"" }

theorem load_save_strange :
    strange.check = .ok () ∧
    ∃ t', (strange.save "x.toml" : StateM Tree _).run { entries := [], home := [] } = (.ok (), t') ∧
      (load "x.toml" : StateM Tree _).run t' = (.ok strange, t') := by
  have hcheck : strange.check = .ok () := by decide +kernel
  have hplain : Tree.Plain "x.toml" := ⟨by decide, by decide, by decide, by decide⟩
  have hwrite := hplain.run_store (t := { entries := [], home := [] }) rfl
    (by rintro ⟨⟩) strange.toToml
  obtain ⟨hsave, -, hload, -⟩ := load_save hcheck (by decide +kernel) hwrite
  exact ⟨hcheck, _, hsave, hload⟩

end Config

end Milling
