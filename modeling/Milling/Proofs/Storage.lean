import Milling.Proofs.Places

/-!
# What storing a file does to a disk

To store a file, the directories that lead to it are made and then the file is
written. Nothing is ever taken away on the way, so the disk grows by directories
until the very last step, which touches one place. When that step fails, the
directories stay behind empty.

Once a file is stored, its directories are there, and the same path leads to it: to
store it again makes nothing new.
-/

namespace Milling.Disk.Tree

open Outcome (ok_of_bind)

variable {t t' t'' : Tree} {place : Place} {path name : String} {content : ByteArray}

/-! ## Steps that are run -/

/-- What a step leaves behind is what the next one finds. -/
theorem run_bind {α β : Type} (x : StateM Tree α) (f : α → StateM Tree β) (t : Tree) :
    (x >>= f).run t = (f (x.run t).1).run (x.run t).2 := rfl

theorem run_get (t : Tree) : (get : StateM Tree Tree).run t = (t, t) := rfl

theorem run_change_of_ok {f : Tree → Except Problem Tree} (h : f t = .ok t') :
    (change f).run t = (.ok (), t') := by
  rw [change, run_bind, run_get]
  dsimp only
  rw [h]
  rfl

theorem run_change_of_error {f : Tree → Except Problem Tree} {problem : Problem}
    (h : f t = .error problem) : (change f).run t = (.error problem, t) := by
  rw [change, run_bind, run_get]
  dsimp only
  rw [h]
  rfl

theorem run_makeDirectory_of_ok (h : t.makeDirectory path = .ok t') :
    (Files.makeDirectory path : StateM Tree _).run t = (.ok (), t') :=
  run_change_of_ok (f := (·.makeDirectory path)) h

theorem run_makeDirectory_of_error {problem : Problem} (h : t.makeDirectory path = .error problem) :
    (Files.makeDirectory path : StateM Tree _).run t = (.error problem, t) :=
  run_change_of_error (f := (·.makeDirectory path)) h

theorem run_writeBytes_of_ok (h : t.write path content = .ok t') :
    (Files.writeBytes path content : StateM Tree _).run t = (.ok (), t') :=
  run_change_of_ok (f := (·.write path content)) h

theorem run_writeBytes_of_error {problem : Problem} (h : t.write path content = .error problem) :
    (Files.writeBytes path content : StateM Tree _).run t = (.error problem, t) :=
  run_change_of_error (f := (·.write path content)) h

theorem run_isThere (path : String) (t : Tree) :
    (isThere path : StateM Tree _).run t = ((t.kind? path).isSome, t) := rfl

theorem run_isDirectory (path : String) (t : Tree) :
    (isDirectory path : StateM Tree _).run t = (decide (t.kind? path = some .directory), t) := rfl

/-- A problem does not count where there is a directory. -/
theorem run_unlessDirectory (path : String) (problem : Problem) (t : Tree) :
    (unlessDirectory path (.error problem) : StateM Tree _).run t =
      (if t.kind? path = some .directory then .ok () else .error problem, t) := by
  rw [unlessDirectory, run_bind, run_isDirectory]
  by_cases hdir : t.kind? path = some .directory
  · rw [decide_eq_true hdir, if_pos hdir]
    rfl
  · rw [decide_eq_false hdir, if_neg hdir]
    rfl

/-- What may come of making a directory with all that it is found in. -/
structure Made (t : Tree) (path : String) (made : Except Problem Unit × Tree) : Prop where
  grown : t.Grown made.2
  there : made.1 = .ok () → path = "" ∨ made.2.kind? path = some .directory

/-- One attempt at a directory makes nothing else, and it is there if that succeeds. -/
theorem paved_attempt (t : Tree) (path : String) :
    let made := (do unlessDirectory path (← Files.makeDirectory path) : StateM Tree _).run t
    t.Paved [path] made.2 ∧ (made.1 = .ok () → made.2.kind? path = some .directory) := by
  dsimp only
  rw [run_bind]
  cases hmake : t.makeDirectory path with
  | ok t' =>
      rw [run_makeDirectory_of_ok hmake]
      exact (makeDirectory_eq_ok hmake).imp_right fun hdir _ => hdir
  | error problem =>
      rw [run_makeDirectory_of_error hmake]
      dsimp only
      rw [run_unlessDirectory]
      refine ⟨Paved.refl t _, fun hok => ?_⟩
      by_contra hdir
      rw [if_neg hdir] at hok
      cases hok

/--
A directory is attempted on the disk as it is or, where that lacks a place for it, as the
outer ones leave it. It is not attempted without a path, or when an outer one is refused.
-/
theorem run_makeDirectories_cons (path : String) (outer : List String) (t : Tree) :
    ∃ t₁, (t₁ = t ∨ t₁ = ((makeDirectories outer : StateM Tree _).run t).2) ∧
      ((∃ answer, (makeDirectories (path :: outer) : StateM Tree _).run t = (answer, t₁) ∧
          (answer = .ok () → path = "")) ∨
        (makeDirectories (path :: outer) : StateM Tree _).run t =
          (do unlessDirectory path (← Files.makeDirectory path) : StateM Tree _).run t₁) := by
  by_cases hempty : path = ""
  · rw [makeDirectories, if_pos hempty]
    exact ⟨t, .inl rfl, .inl ⟨.ok (), rfl, fun _ => hempty⟩⟩
  · rw [makeDirectories, if_neg hempty]
    simp only [run_bind]
    cases hmake : t.makeDirectory path with
    | ok t' =>
        refine ⟨t, .inl rfl, .inr ?_⟩
        rw [run_makeDirectory_of_ok hmake]
    | error problem =>
        rw [run_makeDirectory_of_error hmake]
        by_cases hmissing : problem = .missing
        · -- the outer ones are made first, and then the directory is tried once more
          subst hmissing
          refine ⟨((makeDirectories outer : StateM Tree _).run t).2, .inr rfl, ?_⟩
          dsimp only
          rw [run_bind]
          cases hanswer : ((makeDirectories outer : StateM Tree _).run t).1 with
          | ok _ => exact .inr rfl
          | error problem => exact .inl ⟨.error problem, rfl, fun hok => by cases hok⟩
        · refine ⟨t, .inl rfl, .inr ?_⟩
          rw [run_makeDirectory_of_error hmake]
          split
          · rename_i heq
            exact absurd (Except.error.inj heq) hmissing
          · rfl

/-- A directory that is made after those that it is found in, should one of them be missing. -/
theorem made_cons {outer : List String}
    (h : ∀ t : Tree, t.Grown ((makeDirectories outer : StateM Tree _).run t).2) (path : String)
    (t : Tree) : t.Made path ((makeDirectories (path :: outer) : StateM Tree _).run t) := by
  obtain ⟨t₁, ht₁, hrun⟩ := run_makeDirectories_cons path outer t
  have hgrown : t.Grown t₁ := by
    rcases ht₁ with rfl | rfl
    · exact Grown.refl t₁
    · exact h t
  rcases hrun with ⟨answer, hrun, hempty⟩ | hrun
  · rw [hrun]
    exact ⟨hgrown, fun hok => .inl (hempty hok)⟩
  · obtain ⟨hpaved, hthere⟩ := paved_attempt t₁ path
    rw [hrun]
    exact ⟨hgrown.trans hpaved.grown, fun hok => .inr (hthere hok)⟩

/-- **Only the directories that are asked for are made**, each where its path leads to. -/
theorem paved_makeDirectories (paths : List String) (t : Tree) :
    t.Paved paths ((makeDirectories paths : StateM Tree _).run t).2 := by
  induction paths generalizing t with
  | nil => exact Paved.refl t []
  | cons path outer ih =>
      obtain ⟨t₁, ht₁, hrun⟩ := run_makeDirectories_cons path outer t
      have hpaved : t.Paved (path :: outer) t₁ := by
        rcases ht₁ with rfl | rfl
        · exact Paved.refl t₁ _
        · exact (ih t).mono fun inner => List.mem_cons_of_mem path
      rcases hrun with ⟨answer, hrun, -⟩ | hrun
      · rw [hrun]
        exact hpaved
      · rw [hrun]
        exact hpaved.trans ((paved_attempt t₁ path).1.mono (by simp))

/-- **Only directories are made on the way to a directory**, and it is there if that succeeds. -/
theorem made_makeDirectories (path : String) (outer : List String) (t : Tree) :
    t.Made path ((makeDirectories (path :: outer) : StateM Tree _).run t) :=
  made_cons (fun t => (paved_makeDirectories outer t).grown) path t

/-- The directory that a path leads into is there, or the path is a lone name. -/
def Rooted (t : Tree) (path : String) : Prop :=
  ∀ parent, Path.parent? path = some parent → parent = "" ∨ t.kind? parent = some .directory

theorem Extends.rooted (h : t.Extends t') (hrooted : t.Rooted path) : t'.Rooted path :=
  fun parent hparent => (hrooted parent hparent).imp_right h.directory_of_kind?

theorem ancestors_eq_cons (path : String) :
    ∃ outer, Path.ancestors path = path :: outer := by
  unfold Path.ancestors
  cases path.length with
  | zero => exact ⟨[], rfl⟩
  | succ fuel => exact ⟨_, rfl⟩

/-- The directories that a path leads through, from the inside outwards. -/
def passed (path : String) : List String :=
  match Path.parent? path with
  | none => []
  | some parent => Path.ancestors parent

theorem paved_makeParent (path : String) (t : Tree) :
    t.Paved (passed path) ((makeParent path : StateM Tree _).run t).2 ∧
      (((makeParent path : StateM Tree _).run t).1 = .ok () →
        ((makeParent path : StateM Tree _).run t).2.Rooted path) := by
  unfold makeParent passed
  cases hparent : Path.parent? path with
  | none =>
      refine ⟨Paved.refl t _, fun _ parent h => ?_⟩
      rw [hparent] at h
      cases h
  | some parent =>
      obtain ⟨outer, houter⟩ := ancestors_eq_cons parent
      dsimp only
      rw [run_bind, houter]
      have hmade := made_makeDirectories parent outer t
      refine ⟨paved_makeDirectories (parent :: outer) t, fun hok parent' h => ?_⟩
      rw [hparent] at h
      obtain rfl := Option.some.inj h
      refine hmade.there ?_
      cases hanswer : ((makeDirectories (parent :: outer) : StateM Tree _).run t).1 with
      | ok _ => rfl
      | error problem =>
          rw [hanswer] at hok
          cases hok

/-- Nothing is made where the directory is there. -/
theorem run_makeParent_of_rooted (h : t.Rooted path) :
    (makeParent path : StateM Tree _).run t = (.ok (), t) := by
  unfold makeParent
  cases hparent : Path.parent? path with
  | none => rfl
  | some parent =>
      obtain ⟨outer, houter⟩ := ancestors_eq_cons parent
      dsimp only
      rw [run_bind, houter, makeDirectories]
      by_cases hempty : parent = ""
      · rw [if_pos hempty]
        rfl
      · have hdir := (h parent hparent).resolve_left hempty
        rw [if_neg hempty, run_bind, run_makeDirectory_of_error (makeDirectory_of_kind? hdir)]
        dsimp only
        rw [run_unlessDirectory, if_pos hdir]
        rfl

/-- Storing fails with nothing but directories made, or ends in the file being written. -/
theorem store_cases (path text : String) (t : Tree) :
    (∃ problem t', (store path text : StateM Tree _).run t = (.error problem, t') ∧ t.Grown t') ∨
    ∃ t₁ t', (store path text : StateM Tree _).run t = (.ok (), t') ∧
      t.Paved (passed path) t₁ ∧ t₁.Rooted path ∧ t₁.write path text.toUTF8 = .ok t' := by
  unfold store
  rw [run_bind]
  obtain ⟨hpaved, hrooted⟩ := paved_makeParent path t
  cases hparent : (makeParent path : StateM Tree _).run t with
  | mk answer t₁ =>
      rw [hparent] at hpaved hrooted
      cases answer with
      | error problem => exact .inl ⟨problem, t₁, rfl, hpaved.grown⟩
      | ok _ =>
          dsimp only
          rw [run_bind]
          cases hwrite : t₁.write path text.toUTF8 with
          | error problem =>
              rw [run_writeBytes_of_error hwrite]
              exact .inl ⟨.file problem, t₁, rfl, hpaved.grown⟩
          | ok t' =>
              rw [run_writeBytes_of_ok hwrite]
              exact .inr ⟨t₁, t', rfl, hpaved, hrooted rfl, hwrite⟩

variable {text : String}

/-- A file that is not stored leaves at most directories behind. -/
theorem grown_of_store {problem : StoreProblem}
    (h : (store path text : StateM Tree _).run t = (.error problem, t')) : t.Grown t' := by
  obtain ⟨_, _, hrun, hgrown⟩ | ⟨_, _, hrun, _⟩ := store_cases path text t
  · obtain rfl := (Prod.mk.inj (h.symm.trans hrun)).2
    exact hgrown
  · cases h.symm.trans hrun

/-- **A file that is stored stands at one place**, to which its path leads, and nothing else has
changed but that directories were made. -/
theorem stored_of_store (h : (store path text : StateM Tree _).run t = (.ok (), t')) :
    ∃ place, t.Stored t' place text.toUTF8 ∧ t'.locate path = .ok place := by
  obtain ⟨_, _, hrun, _⟩ | ⟨_, _, hrun, hpaved, _, hwrite⟩ := store_cases path text t
  · cases h.symm.trans hrun
  · obtain rfl := (Prod.mk.inj (h.symm.trans hrun)).2
    obtain ⟨place, hstored, hloc, -⟩ := stored_of_write hwrite
    exact ⟨place, .of_grown hpaved.grown hstored, hloc⟩

/-- **No directory is made for a file but those that its path leads through.** Afterwards the
one that the path leads into is there. -/
theorem paved_of_store (h : (store path text : StateM Tree _).run t = (.ok (), t')) :
    t'.Rooted path ∧ ∀ place, t'.locate path ≠ .ok place → t'.get? place ≠ t.get? place →
      t.get? place = none ∧ t'.get? place = some .directory ∧
        ∃ directory ∈ passed path, t'.locate directory = .ok place := by
  obtain ⟨_, _, hrun, _⟩ | ⟨t₁, _, hrun, hpaved, hrooted, hwrite⟩ := store_cases path text t
  · cases h.symm.trans hrun
  · obtain rfl := (Prod.mk.inj (h.symm.trans hrun)).2
    obtain ⟨file, hstored, hloc, hother⟩ := stored_of_write hwrite
    refine ⟨hstored.extends.rooted hrooted, fun place hne hchanged => ?_⟩
    -- what the file was not written over is as the directories were made
    rw [hother place fun heq => hne (heq ▸ hloc)] at hchanged ⊢
    rcases hpaved.kept place with hkept | ⟨hnone, hdir, directory, hdirectory, hdirloc⟩
    · exact absurd hkept hchanged
    · exact ⟨hnone, hdir, directory, hdirectory, hstored.extends.locate hdirloc⟩

theorem read_of_locate (hloc : t.locate path = .ok place)
    (hfile : t.get? place = some (.file content)) : t.read path = .ok content := by
  rw [read, hloc]
  simp only [bind, Except.bind, hfile]

/-- Bytes are a text if they are the bytes of one. -/
theorem textOfBytes_eq_ok_iff {bytes : ByteArray} :
    textOfBytes bytes = .ok text ↔ bytes = text.toUTF8 := by
  unfold textOfBytes String.fromUTF8?
  by_cases hvalid : bytes.IsValidUTF8
  · rw [dif_pos hvalid]
    constructor
    · intro h
      rw [← Except.ok.inj h]
      rfl
    · rintro rfl
      rfl
  · rw [dif_neg hvalid]
    constructor
    · intro h
      cases h
    · rintro rfl
      exact absurd text.isValidUTF8 hvalid

/-- Reading a file changes nothing. -/
theorem run_readText (path : String) (t : Tree) :
    (readText path : StateM Tree _).run t = (t.read path >>= textOfBytes, t) := rfl

theorem bind_textOfBytes_eq_ok_iff {bytes : Except Problem ByteArray} :
    bytes >>= textOfBytes = .ok text ↔ bytes = .ok text.toUTF8 := by
  constructor
  · intro h
    obtain ⟨read, hread, htext⟩ := ok_of_bind h
    rw [hread, textOfBytes_eq_ok_iff.mp htext]
  · intro h
    rw [h]
    exact textOfBytes_eq_ok_iff.mpr rfl

/-- **What is stored is read back.** -/
theorem read_of_store (h : (store path text : StateM Tree _).run t = (.ok (), t')) :
    t'.read path = .ok text.toUTF8 := by
  obtain ⟨place, hstored, hloc⟩ := stored_of_store h
  exact read_of_locate hloc hstored.file

/-- Where its directory is there already, a file is stored as soon as it can be written. -/
theorem store_of_write (hrooted : t.Rooted path) (hwrite : t.write path text.toUTF8 = .ok t') :
    (store path text : StateM Tree _).run t = (.ok (), t') := by
  rw [store, run_bind, run_makeParent_of_rooted hrooted]
  dsimp only
  rw [run_bind, run_writeBytes_of_ok hwrite]
  rfl

/-- **To store a file once more changes nothing.** -/
theorem store_again (h : (store path text : StateM Tree _).run t = (.ok (), t')) :
    ∃ t'', (store path text : StateM Tree _).run t' = (.ok (), t'') ∧ t''.home = t'.home ∧
      ∀ place, t''.get? place = t'.get? place := by
  obtain ⟨_, _, hrun, _⟩ | ⟨t₁, _, hrun, _, hrooted, hwrite⟩ := store_cases path text t
  · cases h.symm.trans hrun
  · obtain rfl := (Prod.mk.inj (h.symm.trans hrun)).2
    obtain ⟨place, hstored, -⟩ := stored_of_write hwrite
    obtain ⟨t'', hwrite', hsame⟩ := write_again hwrite
    exact ⟨t'', store_of_write (hstored.extends.rooted hrooted) hwrite', hsame⟩

/-- **A file under a plain name is stored in the directory that one works in.** -/
theorem Plain.run_store (h : Plain name) (hhome : t.get? t.home = some .directory)
    (hfree : t.get? (name :: t.home) ≠ some .directory) (text : String) :
    (store name text : StateM Tree _).run t =
      (.ok (), t.put (name :: t.home) (.file text.toUTF8)) :=
  store_of_write (fun _ hparent => .inl (Option.some.inj (hparent.symm.trans h.parent?)))
    (write_eq_ok_iff.mpr ⟨t.home, name, h.target_eq hhome, Nat.not_lt.mpr h.short, hfree, rfl⟩)

end Milling.Disk.Tree
