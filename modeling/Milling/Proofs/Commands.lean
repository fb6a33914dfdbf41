import Milling.Command.Run
import Milling.Proofs.Configurations

/-!
# What commands do to a disk

A command runs on a tree of files, with something on standard input. Before anything
is written, a configuration has to be found and a drawing read, in this order, and
nothing of that changes the tree. What is then delivered is the program of the drawing
for the machine of the configuration. What `init-config` writes is such that `generate`
finds the standard configuration in it.
-/

namespace Milling.Command

open Disk (Problem Tree)

/-- What a command has around it on a tree: its input is there from the start. -/
def around (environment : Config.Environment) (input : Except Problem ByteArray) :
    Surroundings (StateM Tree) :=
  { environment, input := pure input }

variable {t t' : Tree} {environment : Config.Environment} {input : Except Problem ByteArray}
  {config? : Option String} {scene path : String} {c : Config} {d : Drawing}

/-! ## What is to be compiled -/

/--
The configuration that a drawing is compiled for: the one that stands in the file that
is named, or in the user's own file, or the standard one if the user has none.
-/
inductive Configured (t : Tree) (environment : Config.Environment) : Option String → Config → Prop
  | named {path : String} {c : Config} (h : Config.Stands t path c) :
      Configured t environment (some path) c
  | own {path : String} {c : Config} (hpath : Config.defaultPath environment = .ok path)
      (hthere : t.kind? path ≠ none) (h : Config.Stands t path c) : Configured t environment none c
  | standard {path : String} (hpath : Config.defaultPath environment = .ok path)
      (hnone : t.kind? path = none) : Configured t environment none Config.standard

/-- The drawing in the file that is named, or on standard input for a lone dash. -/
def Drawn (t : Tree) (input : Except Problem ByteArray) (scene : String) (d : Drawing) : Prop :=
  ∃ text : String, (if scene = "-" then input else t.read scene) = .ok text.toUTF8 ∧
    Drawing.ofJson text = .ok d

/-- Only what has passed the check is compiled for. -/
theorem Configured.check (h : Configured t environment config? c) : c.check = .ok () := by
  cases h with
  | named h => exact h.check
  | own _ _ h => exact h.check
  | standard => exact Config.check_standard

theorem run_loadOrStandard (path : String) (t : Tree) :
    (Config.loadOrStandard path : StateM Tree _).run t =
      if (t.kind? path).isSome then (Config.load path : StateM Tree _).run t
      else (.ok Config.standard, t) := by
  unfold Config.loadOrStandard
  rw [Tree.run_bind, Tree.run_isThere]
  cases (t.kind? path).isSome with
  | false => rfl
  | true => rfl

theorem loadOrStandard_eq_ok_iff :
    ((Config.loadOrStandard path : StateM Tree _).run t).1 = .ok c ↔
      t.kind? path ≠ none ∧ Config.Stands t path c ∨ t.kind? path = none ∧ c = Config.standard := by
  rw [run_loadOrStandard]
  cases t.kind? path with
  | none =>
      rw [Option.isSome_none, if_neg Bool.false_ne_true]
      simp [eq_comm]
  | some kind =>
      rw [Option.isSome_some, if_pos rfl, Config.load_eq_ok_iff]
      simp

/-- To look for a configuration changes nothing. -/
theorem loadConfig_tree (environment : Config.Environment) (config? : Option String) (t : Tree) :
    ((loadConfig environment config? : StateM Tree _).run t).2 = t := by
  cases config? with
  | some path => rw [loadConfig, Config.run_load]
  | none =>
      rw [loadConfig]
      cases Config.defaultPath environment with
      | error fault => rfl
      | ok path =>
          dsimp only
          rw [run_loadOrStandard]
          split
          · rw [Config.run_load]
          · rfl

/-- The user's own configuration is sought if and only if there is a place for it. -/
theorem configured_none_iff : Configured t environment none c ↔
    ∃ path, Config.defaultPath environment = .ok path ∧
      (t.kind? path ≠ none ∧ Config.Stands t path c ∨
        t.kind? path = none ∧ c = Config.standard) := by
  constructor
  · intro h
    cases h with
    | own hpath hthere h => exact ⟨_, hpath, .inl ⟨hthere, h⟩⟩
    | standard hpath hnone => exact ⟨_, hpath, .inr ⟨hnone, rfl⟩⟩
  · rintro ⟨path, hpath, ⟨hthere, h⟩ | ⟨hnone, rfl⟩⟩
    · exact .own hpath hthere h
    · exact .standard hpath hnone

theorem loadConfig_eq_ok_iff :
    ((loadConfig environment config? : StateM Tree _).run t).1 = .ok c ↔
      Configured t environment config? c := by
  cases config? with
  | some path =>
      rw [loadConfig, Config.load_eq_ok_iff]
      constructor
      · exact .named
      · rintro ⟨h⟩
        exact h
  | none =>
      rw [loadConfig, configured_none_iff]
      cases Config.defaultPath environment with
      | error fault =>
          constructor
          · intro h
            cases h
          · rintro ⟨path, hpath, -⟩
            cases hpath
      | ok path =>
          dsimp only
          rw [loadOrStandard_eq_ok_iff]
          simp

theorem run_readScene (input : Except Problem ByteArray) (scene : String) (t : Tree) :
    (readScene (pure input) scene : StateM Tree _).run t =
      (((if scene = "-" then input else t.read scene) >>= Disk.textOfBytes).mapError
        (if scene = "-" then .unreadInput else .unreadScene scene), t) := by
  unfold readScene
  split
  · rfl
  · rfl

/-- To read a drawing changes nothing. -/
theorem readScene_tree (input : Except Problem ByteArray) (scene : String) (t : Tree) :
    ((readScene (pure input) scene : StateM Tree _).run t).2 = t := by
  rw [run_readScene]

/-- The drawing that is read, or why there is none. -/
def readDrawing (t : Tree) (input : Except Problem ByteArray) (scene : String) :
    Except Fault Drawing := do
  let document ← ((readScene (pure input) scene : StateM Tree _).run t).1
  (Drawing.ofJson document).mapError .scene

theorem readDrawing_of_error {fault : Fault}
    (h : ((readScene (pure input) scene : StateM Tree _).run t).1 = .error fault) :
    readDrawing t input scene = .error fault := by
  rw [readDrawing, h]
  rfl

theorem readDrawing_of_ok {document : String}
    (h : ((readScene (pure input) scene : StateM Tree _).run t).1 = .ok document) :
    readDrawing t input scene = (Drawing.ofJson document).mapError .scene := by
  rw [readDrawing, h]
  rfl

theorem readDrawing_eq_ok_iff : readDrawing t input scene = .ok d ↔ Drawn t input scene d := by
  unfold readDrawing Drawn
  rw [run_readScene]
  dsimp only
  constructor
  · intro h
    obtain ⟨document, hdocument, hdrawing⟩ := Outcome.ok_of_bind h
    exact ⟨document,
      Tree.bind_textOfBytes_eq_ok_iff.mp (Outcome.mapError_eq_ok_iff.mp hdocument),
      Outcome.mapError_eq_ok_iff.mp hdrawing⟩
  · rintro ⟨document, hdocument, hdrawing⟩
    rw [Tree.bind_textOfBytes_eq_ok_iff.mpr hdocument]
    exact Outcome.mapError_eq_ok_iff.mpr hdrawing

/-! ## What is delivered -/

/-- The file for a program: in a directory it is the one with the configured name. -/
def destination (t : Tree) (c : Config) (path : String) : String :=
  if t.kind? path = some .directory then Disk.Path.join path c.fileName else path

theorem run_outputPath (c : Config) (path : String) (t : Tree) :
    (outputPath c path : StateM Tree _).run t = (destination t c path, t) := by
  unfold outputPath destination
  rw [Tree.run_bind, Tree.run_isDirectory]
  by_cases h : t.kind? path = some .directory
  · rw [decide_eq_true h, if_pos h]
    rfl
  · rw [decide_eq_false h, if_neg h]
    rfl

/--
How a run ends that is to leave a text in a file. It succeeds if the disk takes the
file, and shows nothing then: the file holds the text and no other file is changed.
The disk does take it where there is a directory for it and it can be written there.
-/
structure Written (t : Tree) (path text : String) (answer : Except Fault String) (t' : Tree) :
    Prop where
  succeeds : answer = .ok "" ↔ ((Disk.store path text : StateM Tree _).run t).1 = .ok ()
  taken : t.Rooted path → (∃ written, t.write path text.toUTF8 = .ok written) → answer = .ok ""
  stored : answer = .ok "" → ∃ place, t'.locate path = .ok place ∧
    t'.file? place = some text.toUTF8 ∧ ∀ other, other ≠ place → t'.file? other = t.file? other
  refused : answer ≠ .ok "" →
    (∃ fault, answer = .error (.unwritten fault)) ∧ ∀ place, t'.file? place = t.file? place

/-- The program for a machine is shown, or left in a file if one is asked for. -/
def Delivered (t : Tree) (c : Config) (d : Drawing) :
    Option String → Except Fault String × Tree → Prop
  | none, ended => ended = (.ok (Program.compile c.machine d), t)
  | some path, ended =>
    Written t (destination t c path) (Program.compile c.machine d) ended.1 ended.2

theorem written_of_ok {text : String}
    (h : (Disk.store path text : StateM Tree _).run t = (.ok (), t')) :
    Written t path text (.ok "") t' := by
  refine ⟨?_, fun _ _ => rfl, fun _ => ?_, fun hne => absurd rfl hne⟩
  · rw [h]
    exact ⟨fun _ => rfl, fun _ => rfl⟩
  · obtain ⟨place, hstored, hloc⟩ := Tree.stored_of_store h
    refine ⟨place, hloc, ?_, fun other hother => (hstored.kept other hother).file?_eq⟩
    rw [Tree.file?, hstored.file]

theorem written_of_error {text : String} {problem : Disk.StoreProblem} (fault : ExportFault)
    (h : (Disk.store path text : StateM Tree _).run t = (.error problem, t')) :
    Written t path text (.error (.unwritten fault)) t' := by
  refine ⟨?_, fun hrooted hwrite => ?_, ?_, fun _ => ⟨⟨fault, rfl⟩, fun place => ?_⟩⟩
  · rw [h]
    constructor
    · intro hok
      cases hok
    · intro hok
      cases hok
  · obtain ⟨written, hwrite⟩ := hwrite
    cases h.symm.trans (Tree.store_of_write hrooted hwrite)
  · intro hok
    cases hok
  · exact ((Tree.grown_of_store h).kept place).file?_eq

/-- A program is shown as it is. -/
theorem run_deliver_none (c : Config) (session : Session) (t : Tree) :
    (deliver c session none : StateM Tree _).run t = (.ok session.program, t) := by
  rw [deliver]
  rfl

theorem written_deliver (c : Config) (session : Session) (path : String) (t : Tree) :
    Written t (destination t c path) session.program
      ((deliver c session (some path) : StateM Tree _).run t).1
      ((deliver c session (some path) : StateM Tree _).run t).2 := by
  rw [deliver, Tree.run_bind, run_outputPath]
  dsimp only
  rw [Tree.run_bind, Session.exportTo, Tree.run_bind]
  cases hrun : (Disk.store (destination t c path) session.program : StateM Tree _).run t with
  | mk answer t' =>
      cases answer with
      | error problem => exact written_of_error _ hrun
      | ok _ => exact written_of_ok hrun

theorem start_program (d : Drawing) (machine : Machine) :
    (Session.start d machine).program = Program.compile machine d := by
  rw [Session.start]

theorem delivered_deliver (c : Config) (d : Drawing) (output? : Option String) (t : Tree) :
    Delivered t c d output?
      ((deliver c (Session.start d c.machine) output? : StateM Tree _).run t) := by
  cases output? with
  | none =>
      rw [Delivered, run_deliver_none, start_program]
  | some path =>
      rw [Delivered, ← start_program]
      exact written_deliver c (Session.start d c.machine) path t

/-! ## Whole runs -/

/--
How `generate` ends. It fails for the configuration if there is none to be found, whatever
the drawing, and then if there is no drawing to be read, and the tree is as it was.
Otherwise it delivers the program of the drawing for the machine of the configuration.
-/
structure Generated (t : Tree) (environment : Config.Environment) (input : Except Problem ByteArray)
    (scene : String) (config? output? : Option String) (ended : Except Fault String × Tree) :
    Prop where
  unconfigured : (¬∃ c, Configured t environment config? c) →
    ∃ fault, ended = (.error (.config fault), t)
  undrawn : (∃ c, Configured t environment config? c) → (¬∃ d, Drawn t input scene d) →
    ∃ fault, ended = (.error fault, t)
  delivered : ∀ c d, Configured t environment config? c → Drawn t input scene d →
    c.machine.check = .ok () ∧ Delivered t c d output? ended

/-- To compile is to find a configuration, to read a drawing and to deliver, in this order. -/
theorem run_compileScene (t : Tree) (environment : Config.Environment)
    (input : Except Problem ByteArray) (scene : String) (config? output? : Option String) :
    (compileScene (around environment input) scene config? output? : StateM Tree _).run t =
      match ((loadConfig environment config? : StateM Tree _).run t).1 with
      | .error fault => (.error (.config fault), t)
      | .ok c =>
        match readDrawing t input scene with
        | .error fault => (.error fault, t)
        | .ok d => (deliver c (Session.start d c.machine) output? : StateM Tree _).run t := by
  unfold compileScene
  rw [Tree.run_bind, around]
  dsimp only
  rw [loadConfig_tree]
  cases ((loadConfig environment config? : StateM Tree _).run t).1 with
  | error fault => rfl
  | ok c =>
      dsimp only
      rw [Tree.run_bind, readScene_tree]
      cases hread : ((readScene (pure input) scene : StateM Tree _).run t).1 with
      | error fault =>
          rw [readDrawing_of_error hread]
          rfl
      | ok document =>
          rw [readDrawing_of_ok hread]
          dsimp only
          cases Drawing.ofJson document with
          | error fault => rfl
          | ok d => rfl

theorem generated_compileScene (t : Tree) (environment : Config.Environment)
    (input : Except Problem ByteArray) (scene : String) (config? output? : Option String) :
    Generated t environment input scene config? output?
      ((compileScene (around environment input) scene config? output? : StateM Tree _).run t) := by
  rw [run_compileScene]
  -- as long as one of the two is missing, nothing has been written
  cases hload : ((loadConfig environment config? : StateM Tree _).run t).1 with
  | error fault =>
      have hnone : ∀ c, ¬ Configured t environment config? c := by
        intro c h
        cases hload.symm.trans (loadConfig_eq_ok_iff.mpr h)
      exact ⟨fun _ => ⟨fault, rfl⟩, fun ⟨c, h⟩ => absurd h (hnone c),
        fun c _ h => absurd h (hnone c)⟩
  | ok c =>
      have hc := loadConfig_eq_ok_iff.mp hload
      cases hread : readDrawing t input scene with
      | error fault =>
          have hnone : ∀ d, ¬ Drawn t input scene d := by
            intro d h
            cases hread.symm.trans (readDrawing_eq_ok_iff.mpr h)
          exact ⟨fun h => absurd ⟨c, hc⟩ h, fun _ _ => ⟨fault, rfl⟩,
            fun _ d _ h => absurd h (hnone d)⟩
      | ok d =>
          refine ⟨fun h => absurd ⟨c, hc⟩ h,
            fun _ h => absurd ⟨d, readDrawing_eq_ok_iff.mp hread⟩ h, fun c' d' hc' hd' => ?_⟩
          obtain rfl := Except.ok.inj (hload.symm.trans (loadConfig_eq_ok_iff.mpr hc'))
          obtain rfl := Except.ok.inj (hread.symm.trans (readDrawing_eq_ok_iff.mpr hd'))
          obtain ⟨_, hmachine, -⟩ := Outcome.ok_of_bind hc.check
          exact ⟨hmachine, delivered_deliver c d output? t⟩

/-- The file that `init-config` writes: the one that is named, or the user's own. -/
def Chosen (environment : Config.Environment) (path? : Option String) (path : String) : Prop :=
  path? = some path ∨ path? = none ∧ Config.defaultPath environment = .ok path

theorem run_initConfig {path? : Option String} {force : Bool} (s : Surroundings (StateM Tree))
    (h : Chosen s.environment path? path) :
    run s (.initConfig path? force) = writeConfig path force := by
  obtain rfl | ⟨rfl, hpath⟩ := h
  · rfl
  · rw [run, hpath]

/-- What is there is not written over unless that is asked for. -/
theorem run_writeConfig_of_there (h : t.kind? path ≠ none) :
    (writeConfig path false : StateM Tree _).run t = (.error (.alreadyThere path), t) := by
  unfold writeConfig
  rw [Tree.run_bind, Tree.run_isThere, Option.isSome_iff_ne_none.mpr h]
  rfl

/-- Otherwise the standard configuration is stored. -/
theorem run_writeConfig_of_free {force : Bool} (h : t.kind? path = none ∨ force = true) :
    (writeConfig path force : StateM Tree _).run t =
      (((Config.standard.save path : StateM Tree _).run t).1.mapError Fault.config |>.map
          fun _ => "Wrote default config to " ++ path ++ "\n",
        ((Config.standard.save path : StateM Tree _).run t).2) := by
  have hfree : ((t.kind? path).isSome && !force) = false := by
    rcases h with h | h
    · rw [h]
      rfl
    · rw [h, Bool.not_true, Bool.and_false]
  unfold writeConfig
  rw [Tree.run_bind, Tree.run_isThere]
  dsimp only
  rw [hfree, if_neg Bool.false_ne_true, Tree.run_bind]
  cases ((Config.standard.save path : StateM Tree _).run t).1 with
  | error fault => rfl
  | ok _ => rfl

/-- The standard configuration stands in the file that was written. -/
theorem stands_of_writeConfig {force : Bool} {shown : String}
    (h : (writeConfig path force : StateM Tree _).run t = (.ok shown, t')) :
    Config.Stands t' path Config.standard := by
  by_cases hfree : t.kind? path = none ∨ force = true
  · rw [run_writeConfig_of_free hfree] at h
    obtain ⟨hanswer, rfl⟩ := Prod.mk.inj h
    have hsave : ((Config.standard.save path : StateM Tree _).run t).1 = .ok () := by
      cases hsave : ((Config.standard.save path : StateM Tree _).run t).1 with
      | error fault =>
          rw [hsave] at hanswer
          cases hanswer
      | ok _ => rfl
    exact Config.stands_of_save (fun format _ => Config.read_write_standard format)
      (Prod.ext hsave rfl)
  · obtain ⟨hthere, hforce⟩ := not_or.mp hfree
    obtain rfl := Bool.eq_false_iff.mpr hforce
    cases (run_writeConfig_of_there hthere).symm.trans h

/--
**What `generate` delivers is the program of what it is given, and where it fails before
that it leaves everything alone.** `init-config` leaves a file alone that is there, unless
it is told otherwise; and once it has written a file, `generate` with that file compiles
every drawing with the standard configuration.
-/
theorem run_commands (t : Tree) (environment : Config.Environment)
    (input : Except Problem ByteArray) :
    (∀ scene config? output?, Generated t environment input scene config? output?
      ((run (around environment input) (.generate scene config? output?)).run t)) ∧
    ∀ path? path force, Chosen environment path? path →
      (t.kind? path ≠ none → force = false →
        (run (around environment input) (.initConfig path? force)).run t =
          (.error (.alreadyThere path), t)) ∧
      ∀ shown t',
        (run (around environment input) (.initConfig path? force)).run t = (.ok shown, t') →
        ∀ environment' input' scene output? d, Drawn t' input' scene d →
          Delivered t' Config.standard d output?
            ((run (around environment' input') (.generate scene (some path) output?)).run t') := by
  refine ⟨fun scene config? output? => ?_, fun path? path force hpath => ?_⟩
  · rw [run]
    exact generated_compileScene t environment input scene config? output?
  · rw [run_initConfig (around environment input) hpath]
    refine ⟨?_, fun shown t' hwrite environment' input' scene output? d hd => ?_⟩
    · rintro hthere rfl
      exact run_writeConfig_of_there hthere
    · rw [run]
      have hstands := stands_of_writeConfig hwrite
      exact ((generated_compileScene t' environment' input' scene (some path) output?).delivered
        Config.standard d (.named hstands) hd).2

/-- A document with one circle. -/
def circleDocument : String :=
  "[\x7b\"id\":\"a\",\"type\":\"CIRCLE\",\"x\":0,\"y\":0,\"radius\":5\x7d]"

/-- What is around a command where the document is all there is. -/
def alone : Surroundings (StateM Tree) := around ⟨none, none⟩ (.ok circleDocument.toUTF8)

/-- The circle of the document. -/
def circle : Drawing := ⟨[⟨"a", .circle ⟨0, 0⟩ 5⟩]⟩

/-- On an empty disk a configuration is written, is not written over, and is compiled with. -/
theorem run_commands_circle :
    ∃ shown t',
      (run alone (.initConfig (some "x.toml") false)).run
        { entries := [], home := [] } = (.ok shown, t') ∧
      (run alone (.initConfig (some "x.toml") false)).run
        t' = (.error (.alreadyThere "x.toml"), t') ∧
      (run alone (.generate "-" (some "x.toml") none)).run t' =
        (.ok (Program.compile Machine.standard circle), t') := by
  have hplain : Tree.Plain "x.toml" := ⟨by decide, by decide, by decide, by decide⟩
  have hstore := hplain.run_store (t := { entries := [], home := [] }) rfl (by rintro ⟨⟩)
    (Config.write .toml Config.standard)
  obtain ⟨t', hsave, hthere⟩ : ∃ t', (Config.standard.save "x.toml" : StateM Tree _).run
      { entries := [], home := [] } = (.ok (), t') ∧ t'.kind? "x.toml" ≠ none := by
    refine ⟨_, Config.save_eq_ok_iff.mpr
      ⟨Config.check_standard, .toml, by decide +kernel, hstore⟩, ?_⟩
    rw [hplain.kind?_eq rfl]
    rintro ⟨⟩
  have hinit : (run alone (.initConfig (some "x.toml") false)).run { entries := [], home := [] } =
        (.ok ("Wrote default config to " ++ "x.toml" ++ "\n"), t') := by
    rw [run_initConfig _ (.inl rfl), run_writeConfig_of_free (.inl (hplain.kind?_eq rfl)), hsave]
    rfl
  have hdrawn : Drawn t' (.ok circleDocument.toUTF8) "-" circle :=
    ⟨circleDocument, rfl, by decide +kernel⟩
  obtain ⟨-, hfresh⟩ := run_commands { entries := [], home := [] } ⟨none, none⟩
    (.ok circleDocument.toUTF8)
  obtain ⟨-, hcompiles⟩ := hfresh (some "x.toml") "x.toml" false (.inl rfl)
  have hshown := hcompiles _ t' hinit ⟨none, none⟩ _ "-" none circle hdrawn
  rw [Delivered] at hshown
  obtain ⟨-, hwritten⟩ := run_commands t' ⟨none, none⟩ (.ok circleDocument.toUTF8)
  obtain ⟨hkept, -⟩ := hwritten (some "x.toml") "x.toml" false (.inl rfl)
  exact ⟨_, t', hinit, hkept hthere rfl, hshown⟩

end Milling.Command
