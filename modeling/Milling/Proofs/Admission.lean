import Milling.Proofs.Commands

/-!
# What is let onto a disk and off it

A configuration is checked wherever it passes between a program and a disk, in either
direction, so none that fails the check is found on one side because it was on the other.

Which fault is told of first differs. To load, the name of the file is looked at before
the disk is asked for anything. To store, the configuration is checked before the name is
looked at, and whatever is refused has left the disk alone.
-/

namespace Milling.Config

open Disk (Files Tree)

variable {m : Type → Type} [Files m] {t t' : Tree} {path : String} {c : Config}

/-- The name of a file shows none of the formats that are known. -/
def Formatless (path : String) : Prop :=
  Disk.Path.extension? path ≠ some "json" ∧ Disk.Path.extension? path ≠ some "toml"

/-- What is wrong with such a name. -/
def unknownFormat (path : String) : ConfigFault :=
  .unsupported ((Disk.Path.extension? path).getD "<none>")

theorem ofPath_of_formatless (h : Formatless path) :
    Format.ofPath path = .error (unknownFormat path) := by
  unfold Format.ofPath unknownFormat
  cases hextension : Disk.Path.extension? path with
  | none => rfl
  | some extension =>
      have hjson : extension ≠ "json" := fun heq => h.1 (heq ▸ hextension)
      have htoml : extension ≠ "toml" := fun heq => h.2 (heq ▸ hextension)
      dsimp only
      rw [if_neg hjson, if_neg htoml, Option.getD_some]

/-! ## Onto the disk -/

/-- No disk is asked for anything to store what fails the check. -/
theorem save_of_check {fault : ConfigFault} (h : c.check = .error fault) :
    (c.save path : m _) = pure (.error (.refused fault)) := by
  rw [save, document, h]
  rfl

/-- No disk is asked for anything to store what has no format. -/
theorem save_of_formatless (hcheck : c.check = .ok ()) (h : Formatless path) :
    (c.save path : m _) = pure (.error (.refused (unknownFormat path))) := by
  rw [save, document, hcheck, ofPath_of_formatless h]
  rfl

/-! ## Off the disk -/

/-- No disk is asked for anything to load what has no format. -/
theorem load_of_formatless (h : Formatless path) :
    (load path : m _) = pure (.error (.refused (unknownFormat path))) := by
  rw [load, ofPath_of_formatless h]

/-- Where there is a file, its name is looked at before what it holds. -/
theorem run_loadOrStandard_of_formatless (h : Formatless path) (hthere : t.kind? path ≠ none) :
    (loadOrStandard path : StateM Tree _).run t =
      (.error (.refused (unknownFormat path)), t) := by
  rw [Command.run_loadOrStandard, if_pos (Option.isSome_iff_ne_none.mpr hthere),
    load_of_formatless h]
  rfl

/-- Only what passes the check is loaded, whether or not there is a file. -/
theorem check_of_load
    (h : ((load path : StateM Tree _).run t).1 = .ok c ∨
      ((loadOrStandard path : StateM Tree _).run t).1 = .ok c) : c.check = .ok () := by
  rcases h with h | h
  · exact (load_eq_ok_iff.mp h).check
  · rcases Command.loadOrStandard_eq_ok_iff.mp h with ⟨-, hstands⟩ | ⟨-, rfl⟩
    · exact hstands.check
    · exact check_standard

/--
**No configuration that fails the check gets onto a disk or off it.** What is loaded has
passed the check. What fails it is refused and so is, if it passes, a file whose name shows
no format; neither leaves a trace on the disk, while to load such a file the disk is not even
asked for it. What is stored is one file, to which its path leads, and all that has
changed besides are directories that were made, each of them one that the path leads through.
-/
theorem load_save_guarded (t : Tree) (path : String) (c : Config) :
    (((load path : StateM Tree _).run t).1 = .ok c ∨
        ((loadOrStandard path : StateM Tree _).run t).1 = .ok c → c.check = .ok ()) ∧
      (∀ fault, c.check = .error fault →
        (c.save path : StateM Tree _).run t = (.error (.refused fault), t)) ∧
      (Formatless path →
        (c.check = .ok () →
          (c.save path : StateM Tree _).run t = (.error (.refused (unknownFormat path)), t)) ∧
        (∀ (m : Type → Type) [Files m],
          (load path : m _) = pure (.error (.refused (unknownFormat path)))) ∧
        (t.kind? path ≠ none →
          (loadOrStandard path : StateM Tree _).run t =
            (.error (.refused (unknownFormat path)), t))) ∧
      ∀ t', (c.save path : StateM Tree _).run t = (.ok (), t') →
        ∃ format place, Format.ofPath path = .ok format ∧ t'.locate path = .ok place ∧
          t.Stored t' place (write format c).toUTF8 ∧ t'.Rooted path ∧
          ∀ other, other ≠ place → t'.get? other ≠ t.get? other →
            t.get? other = none ∧ t'.get? other = some .directory ∧
              ∃ directory ∈ Tree.passed path, t'.locate directory = .ok other := by
  refine ⟨check_of_load, fun fault hcheck => ?_, fun hformatless => ⟨fun hcheck => ?_, fun m _ =>
    load_of_formatless hformatless, run_loadOrStandard_of_formatless hformatless⟩,
    fun t' hsave => ?_⟩
  · rw [save_of_check hcheck]
    rfl
  · rw [save_of_formatless hcheck hformatless]
    rfl
  · obtain ⟨-, format, hformat, hstore⟩ := save_eq_ok_iff.mp hsave
    obtain ⟨place, hstored, hloc⟩ := Tree.stored_of_store hstore
    obtain ⟨hrooted, hpaved⟩ := Tree.paved_of_store hstore
    refine ⟨format, place, hformat, hloc, hstored, hrooted, fun other hother => ?_⟩
    exact hpaved other fun heq => hother (Except.ok.inj (heq.symm.trans hloc))

/-- A machine that does not move. -/
def idle : Config := { standard with machine := { Machine.standard with feedRate := 0 } }

/-- A disk with nothing on it. -/
def bare : Tree := { entries := [], home := [] }

/-- The machine is refused before the name that shows no format, which is refused by itself in
either direction. Under a proper name the standard configuration is stored, and loaded. -/
theorem load_save_guarded_idle :
    (idle.save "x.yaml" : StateM Tree _).run bare =
      (.error (.refused (.outOfRange "machine.feed_rate" 0 "must be > 0")), bare) ∧
    (standard.save "x.yaml" : StateM Tree _).run bare =
      (.error (.refused (.unsupported "yaml")), bare) ∧
    (load "x.yaml" : StateM Tree _) = pure (.error (.refused (.unsupported "yaml"))) ∧
    ∃ t', (standard.save "x.toml" : StateM Tree _).run bare = (.ok (), t') ∧
      (∃ place, t'.locate "x.toml" = .ok place ∧
        bare.Stored t' place standard.toToml.toUTF8) ∧
      (load "x.toml" : StateM Tree _).run t' = (.ok standard, t') ∧ standard.check = .ok () := by
  have hidle : idle.check = .error (.outOfRange "machine.feed_rate" 0 "must be > 0") := by
    decide +kernel
  have hformatless : Formatless "x.yaml" := ⟨by decide +kernel, by decide +kernel⟩
  have hyaml : unknownFormat "x.yaml" = .unsupported "yaml" := by decide +kernel
  obtain ⟨-, hrefused, -, -⟩ := load_save_guarded bare "x.yaml" idle
  obtain ⟨-, -, hunknown, -⟩ := load_save_guarded bare "x.yaml" standard
  obtain ⟨hsave, hload, -⟩ := hunknown hformatless
  rw [hyaml] at hsave hload
  refine ⟨hrefused _ hidle, hsave check_standard, hload _, ?_⟩
  have htoml : Disk.Path.extension? "x.toml" = some "toml" := by decide +kernel
  have hplain : Tree.Plain "x.toml" := ⟨by decide, by decide, by decide, by decide⟩
  have hstore := hplain.run_store (t := bare) rfl (by rintro ⟨⟩) standard.toToml
  have hformat : Format.ofPath "x.toml" = .ok .toml := by
    rw [Format.ofPath, htoml]
    rfl
  have hdone := save_eq_ok_iff.mpr ⟨check_standard, .toml, hformat, hstore⟩
  have hstands := stands_of_save (fun format _ => read_write_standard format) hdone
  have hloaded := run_load_of_stands hstands
  obtain ⟨format, place, hformat', hloc, hstored, -⟩ :=
    (load_save_guarded bare "x.toml" standard).2.2.2 _ hdone
  obtain rfl := Except.ok.inj (hformat.symm.trans hformat')
  have hcheck := (load_save_guarded _ "x.toml" standard).1 (.inl (congrArg Prod.fst hloaded))
  exact ⟨_, hdone, ⟨place, hloc, hstored⟩, hloaded, hcheck⟩

end Milling.Config
