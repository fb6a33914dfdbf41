import Mathlib.Data.List.TakeWhile
import Milling.Disk.Tree
import Milling.Proofs.Outcomes

/-!
# Places on a disk that grows

A step that makes a directory or writes a file changes one place and takes nothing
away: a path that led somewhere leads there still. What a path leads to is found by
its last name in the directory that the names before it lead to, which is also where
something new is put.
-/

namespace Milling.Disk.Tree

open Outcome (ok_of_bind)

variable {t t' t'' : Tree} {place d : Place} {path name : String} {content : ByteArray}

/-! ## Disks that grow -/

/-- What was there is there still, and a directory is still one. -/
structure Extends (t t' : Tree) : Prop where
  home : t'.home = t.home
  directory : ∀ place, t.get? place = some .directory → t'.get? place = some .directory
  isSome : ∀ place, (t.get? place).isSome → (t'.get? place).isSome

/-- What stands at a place is as before, or a directory that was put where nothing stood. -/
def Kept (t t' : Tree) (place : Place) : Prop :=
  t'.get? place = t.get? place ∨ t.get? place = none ∧ t'.get? place = some .directory

/-- Nothing but directories was put anywhere. -/
structure Grown (t t' : Tree) : Prop where
  home : t'.home = t.home
  kept : ∀ place, t.Kept t' place

/-- Nothing but directories was put anywhere, each of them where one of some paths leads to. -/
structure Paved (t : Tree) (paths : List String) (t' : Tree) : Prop where
  home : t'.home = t.home
  kept : ∀ place, t'.get? place = t.get? place ∨
    t.get? place = none ∧ t'.get? place = some .directory ∧
      ∃ path ∈ paths, t'.locate path = .ok place

/-- A file was put at a place, instead of another or none, and nothing but directories elsewhere. -/
structure Stored (t t' : Tree) (place : Place) (content : ByteArray) : Prop where
  home : t'.home = t.home
  free : t.get? place ≠ some .directory
  file : t'.get? place = some (.file content)
  kept : ∀ other, other ≠ place → t.Kept t' other

theorem Kept.trans (h : t.Kept t' place) (h' : t'.Kept t'' place) : t.Kept t'' place := by
  rcases h with h | ⟨hnone, hdir⟩
  · rcases h' with h' | ⟨hnone, hdir⟩
    · exact .inl (h'.trans h)
    · exact .inr ⟨h ▸ hnone, hdir⟩
  · rcases h' with h' | ⟨hnone', _⟩
    · exact .inr ⟨hnone, h'.trans hdir⟩
    · rw [hdir] at hnone'
      cases hnone'

theorem Grown.refl (t : Tree) : t.Grown t := ⟨rfl, fun _ => .inl rfl⟩

theorem Grown.trans (h : t.Grown t') (h' : t'.Grown t'') : t.Grown t'' :=
  ⟨h'.home.trans h.home, fun place => (h.kept place).trans (h'.kept place)⟩

/-- Directories that are put where nothing stood leave every file as it was. -/
theorem Kept.file?_eq (h : t.Kept t' place) : t'.file? place = t.file? place := by
  rcases h with h | ⟨hnone, hdir⟩
  · rw [file?, file?, h]
  · rw [file?, file?, hnone, hdir]

theorem Grown.extends (h : t.Grown t') : t.Extends t' := by
  refine ⟨h.home, fun place hdir => ?_, fun place hsome => ?_⟩
  · rcases h.kept place with hkept | ⟨hnone, _⟩
    · exact hkept.trans hdir
    · rw [hnone] at hdir
      cases hdir
  · rcases h.kept place with hkept | ⟨_, hdir⟩
    · rwa [hkept]
    · rw [hdir]
      rfl

theorem Paved.grown {paths : List String} (h : t.Paved paths t') : t.Grown t' :=
  ⟨h.home, fun place => (h.kept place).imp_right fun ⟨hnone, hdir, _⟩ => ⟨hnone, hdir⟩⟩

theorem Stored.extends (h : t.Stored t' place content) : t.Extends t' := by
  refine ⟨h.home, fun other hdir => ?_, fun other hsome => ?_⟩
  · by_cases hother : other = place
    · exact absurd (hother ▸ hdir) h.free
    · rcases h.kept other hother with hkept | ⟨hnone, _⟩
      · exact hkept.trans hdir
      · rw [hnone] at hdir
        cases hdir
  · by_cases hother : other = place
    · rw [hother, h.file]
      rfl
    · rcases h.kept other hother with hkept | ⟨_, hdir⟩
      · rwa [hkept]
      · rw [hdir]
        rfl

theorem Stored.of_grown (h : t.Grown t') (h' : t'.Stored t'' place content) :
    t.Stored t'' place content :=
  ⟨h'.home.trans h.home, fun hdir => h'.free (h.extends.directory place hdir), h'.file,
    fun other hother => (h.kept other).trans (h'.kept other hother)⟩

/-! ## Paths on a disk that grows -/

theorem enter_eq_ok_iff : t.enter place = .ok d ↔ t.get? place = some .directory ∧ d = place := by
  unfold enter
  split
  · rename_i hdir
    simp [hdir, eq_comm]
  · rename_i hfile
    simp [hfile]
  · rename_i hnone
    simp [hnone]

theorem find_eq_ok_iff : t.find d name = .ok place ↔
    ¬nameLimit < name.utf8ByteSize ∧ (t.get? (name :: d)).isSome ∧ place = name :: d := by
  unfold find
  by_cases hlong : nameLimit < name.utf8ByteSize
  · simp [hlong]
  · rw [if_neg hlong]
    split
    · rename_i hsome
      simp [hsome, hlong, eq_comm]
    · rename_i hnone
      simp [hnone]

theorem enter_of_directory (h : t.get? d = some .directory) : t.enter d = .ok d :=
  enter_eq_ok_iff.mpr ⟨h, rfl⟩

/-- What a name leads to is looked for in a directory. -/
theorem step_of_directory (h : t.get? d = some .directory) (name : String) :
    t.step d name =
      if name = "" ∨ name = "." then .ok d
      else if name = ".." then .ok d.tail
      else t.find d name := by
  rw [step, enter_of_directory h]
  rfl

theorem directory_of_step (h : t.step d name = .ok place) : t.get? d = some .directory := by
  obtain ⟨_, hin, _⟩ := ok_of_bind h
  exact (enter_eq_ok_iff.mp hin).1

theorem Extends.step (h : t.Extends t') (hstep : t.step d name = .ok place) :
    t'.step d name = .ok place := by
  have hdir := directory_of_step hstep
  rw [step_of_directory hdir] at hstep
  rw [step_of_directory (h.directory d hdir)]
  by_cases hdot : name = "" ∨ name = "."
  · rwa [if_pos hdot] at hstep ⊢
  · rw [if_neg hdot] at hstep ⊢
    by_cases hback : name = ".."
    · rwa [if_pos hback] at hstep ⊢
    · rw [if_neg hback] at hstep ⊢
      obtain ⟨hshort, hsome, hplace⟩ := find_eq_ok_iff.mp hstep
      exact find_eq_ok_iff.mpr ⟨hshort, h.isSome _ hsome, hplace⟩

theorem Extends.follow (h : t.Extends t') {names : List String}
    (hfollow : t.follow names d = .ok place) : t'.follow names d = .ok place := by
  unfold Tree.follow at hfollow ⊢
  -- on the names, each of which is found where it was found before
  induction names generalizing d with
  | nil => exact hfollow
  | cons name names ih =>
      rw [List.foldlM_cons] at hfollow ⊢
      obtain ⟨next, hstep, hfollow⟩ := ok_of_bind hfollow
      rw [h.step hstep]
      exact ih hfollow

theorem Extends.begin_eq (h : t.Extends t') (path : String) : t'.begin path = t.begin path := by
  unfold begin
  rw [h.home]

/-- A path that led to something leads there still. -/
theorem Extends.locate (h : t.Extends t') (hloc : t.locate path = .ok place) :
    t'.locate path = .ok place := by
  unfold Tree.locate at hloc ⊢
  obtain ⟨⟨start, names⟩, hbegin, hfollow⟩ := ok_of_bind hloc
  rw [h.begin_eq, hbegin]
  exact h.follow hfollow

theorem Paved.refl (t : Tree) (paths : List String) : t.Paved paths t := ⟨rfl, fun _ => .inl rfl⟩

theorem Paved.mono {paths more : List String} (h : t.Paved paths t')
    (hsub : ∀ path ∈ paths, path ∈ more) : t.Paved more t' := by
  refine ⟨h.home, fun place => (h.kept place).imp_right ?_⟩
  rintro ⟨hnone, hdir, path, hpath, hloc⟩
  exact ⟨hnone, hdir, path, hsub path hpath, hloc⟩

/-- What was made first is where its path leads to still. -/
theorem Paved.trans {paths : List String} (h : t.Paved paths t') (h' : t'.Paved paths t'') :
    t.Paved paths t'' := by
  refine ⟨h'.home.trans h.home, fun place => ?_⟩
  rcases h.kept place with hkept | ⟨hnone, hdir, path, hpath, hloc⟩
  · rcases h'.kept place with hkept' | ⟨hnone, hdir⟩
    · exact .inl (hkept'.trans hkept)
    · exact .inr ⟨hkept.symm.trans hnone, hdir⟩
  · have hextends := h'.grown.extends
    exact .inr ⟨hnone, hextends.directory place hdir, path, hpath, hextends.locate hloc⟩

/-! ## Where a path ends -/

theorem follow_append (names more : List String) (place : Place) :
    t.follow (names ++ more) place = t.follow names place >>= t.follow more := by
  rw [follow, List.foldlM_append]
  rfl

/-- Slashes at the end of a path ask for a directory. -/
theorem follow_blanks (t : Tree) {blanks : List String} (h : ∀ name ∈ blanks, name = "")
    (place : Place) :
    t.follow blanks place = if blanks = [] then .ok place else t.enter place := by
  induction blanks with
  | nil => rfl
  | cons name blanks ih =>
      obtain rfl := h name List.mem_cons_self
      have hstep : t.step place "" = t.enter place := by
        unfold step
        cases t.enter place <;> rfl
      rw [follow, List.foldlM_cons, hstep, if_neg (List.cons_ne_nil _ _)]
      cases hin : t.enter place with
      | error problem => rfl
      | ok d =>
          obtain ⟨hdir, rfl⟩ := enter_eq_ok_iff.mp hin
          show t.follow blanks d = _
          rw [ih fun name hname => h name (List.mem_cons_of_mem _ hname), hin, ite_self]

/-- The names of a path end in a proper one with blanks behind it, or are nothing but blanks. -/
theorem names_cases (names : List String) :
    (∀ name ∈ names, name = "") ∨
    ∃ before last blanks, names = before ++ last :: blanks ∧ last ≠ "" ∧
      ∀ name ∈ blanks, name = "" := by
  induction names with
  | nil => exact .inl (List.forall_mem_nil _)
  | cons name names ih =>
      rcases ih with hall | ⟨before, last, blanks, rfl, hlast, hblanks⟩
      · by_cases hname : name = ""
        · exact .inl (List.forall_mem_cons.mpr ⟨hname, hall⟩)
        · exact .inr ⟨[], name, names, rfl, hname, hall⟩
      · exact .inr ⟨name :: before, last, blanks, rfl, hlast, hblanks⟩

theorem target_of_blanks {start : Place} {names : List String}
    (hbegin : t.begin path = .ok (start, names)) (hnames : ∀ name ∈ names, name = "") :
    t.target path = .ok
      { directory := start, name? := none, slash := names.reverse.head? = some "" } := by
  have hback : names.reverse.dropWhile (· = "") = [] :=
    List.dropWhile_eq_nil_iff.mpr fun name hname =>
      decide_eq_true (hnames name (List.mem_reverse.mp hname))
  rw [target, hbegin]
  simp only [bind, Except.bind, hback]

theorem target_of_last {start : Place} {before blanks : List String} {last : String}
    (hbegin : t.begin path = .ok (start, before ++ last :: blanks)) (hlast : last ≠ "")
    (hblanks : ∀ name ∈ blanks, name = "") :
    t.target path = (do
      let directory ← t.enter (← t.follow before start)
      return {
        directory, name? := if last = "." ∨ last = ".." then none else some last
        slash := blanks ≠ [] }) := by
  have hreverse : (before ++ last :: blanks).reverse =
      blanks.reverse ++ last :: before.reverse := by
    simp
  have hback : (blanks.reverse ++ last :: before.reverse).dropWhile (· = "") =
      last :: before.reverse := by
    rw [List.dropWhile_append_of_pos fun name hname =>
        decide_eq_true (hblanks name (List.mem_reverse.mp hname)),
      List.dropWhile_cons_of_neg (by rwa [decide_eq_true_iff])]
  have hslash : ((blanks.reverse ++ last :: before.reverse).head? = some "") = (blanks ≠ []) := by
    cases hfirst : blanks.reverse with
    | nil => simp [List.reverse_eq_nil_iff.mp hfirst, hlast]
    | cons first more =>
        have hmem : first ∈ blanks := List.mem_reverse.mp (hfirst ▸ List.mem_cons_self)
        simp [hblanks first hmem, List.ne_nil_of_mem hmem]
  rw [target, hbegin]
  simp only [bind, Except.bind, hreverse, hback, List.reverse_reverse, hslash]
  rfl

/-- Where something new would be put is where it would have been put. -/
theorem Extends.target (h : t.Extends t') {target : Target} (htarget : t.target path = .ok target) :
    t'.target path = .ok target := by
  obtain ⟨⟨start, names⟩, hbegin, -⟩ := ok_of_bind htarget
  have hbegin' := (h.begin_eq path).trans hbegin
  rcases names_cases names with hnames | ⟨before, last, blanks, rfl, hlast, hblanks⟩
  · rw [target_of_blanks hbegin hnames] at htarget
    rw [target_of_blanks hbegin' hnames, htarget]
  · rw [target_of_last hbegin hlast hblanks] at htarget
    obtain ⟨inner, hfollow, hrest⟩ := ok_of_bind htarget
    obtain ⟨directory, hin, hmade⟩ := ok_of_bind hrest
    obtain ⟨hdir, rfl⟩ := enter_eq_ok_iff.mp hin
    rw [target_of_last hbegin' hlast hblanks, h.follow hfollow]
    show t'.enter directory >>= _ = _
    rw [enter_of_directory (h.directory _ hdir)]
    exact hmade

/-- A path that ends in a name leads to that name, as a directory if a slash follows. -/
theorem locate_of_target {slash : Bool}
    (h : t.target path = .ok { directory := d, name? := some name, slash }) :
    t.get? d = some .directory ∧
      t.locate path =
        t.find d name >>= fun place => if slash then t.enter place else .ok place := by
  obtain ⟨⟨start, names⟩, hbegin, -⟩ := ok_of_bind h
  rcases names_cases names with hnames | ⟨before, last, blanks, rfl, hlast, hblanks⟩
  · rw [target_of_blanks hbegin hnames] at h
    cases h
  · rw [target_of_last hbegin hlast hblanks] at h
    obtain ⟨inner, hfollow, hrest⟩ := ok_of_bind h
    obtain ⟨directory, hin, hmade⟩ := ok_of_bind hrest
    obtain ⟨hdir, rfl⟩ := enter_eq_ok_iff.mp hin
    obtain ⟨rfl, hname, rfl⟩ := Target.mk.inj (Except.ok.inj hmade)
    by_cases hdots : last = "." ∨ last = ".."
    · rw [if_pos hdots] at hname
      cases hname
    · rw [if_neg hdots] at hname
      obtain rfl := Option.some.inj hname
      rw [not_or] at hdots
      refine ⟨hdir, ?_⟩
      rw [locate, hbegin]
      show t.follow (before ++ last :: blanks) start = _
      rw [follow_append, hfollow]
      -- the last name is found in the directory that was entered, and blanks stay where they are
      show t.follow (last :: blanks) directory = _
      rw [follow, List.foldlM_cons, step_of_directory hdir,
        if_neg (not_or.mpr ⟨hlast, hdots.1⟩), if_neg hdots.2]
      congr 1
      funext place
      show t.follow blanks place = _
      rw [follow_blanks t hblanks]
      by_cases hnone : blanks = []
      · simp [hnone]
      · simp [hnone]

/-- A path that leads somewhere has a target, whether or not it ends in a name. -/
theorem exists_target_of_locate (h : t.locate path = .ok place) :
    ∃ target, t.target path = .ok target := by
  obtain ⟨⟨start, names⟩, hbegin, hfollow⟩ := ok_of_bind h
  rcases names_cases names with hnames | ⟨before, last, blanks, rfl, hlast, hblanks⟩
  · exact ⟨_, target_of_blanks hbegin hnames⟩
  · obtain ⟨inner, hbefore, hrest⟩ := ok_of_bind ((follow_append before _ start).symm.trans hfollow)
    obtain ⟨_, hstep, _⟩ := ok_of_bind hrest
    rw [target_of_last hbegin hlast hblanks, hbefore]
    show ∃ target, t.enter inner >>= _ = .ok target
    rw [enter_of_directory (directory_of_step hstep)]
    exact ⟨_, rfl⟩

/-! ## One step -/

/-- Where a path leads, no new directory is made. -/
theorem makeDirectory_of_locate (h : t.locate path = .ok place) :
    t.makeDirectory path = .error .exists := by
  obtain ⟨⟨d, name?, slash⟩, htarget⟩ := exists_target_of_locate h
  rw [makeDirectory, htarget]
  cases name? with
  | none => rfl
  | some name =>
      obtain ⟨hdir, hloc⟩ := locate_of_target htarget
      obtain ⟨found, hfind, _⟩ := ok_of_bind (hloc.symm.trans h)
      obtain ⟨hshort, hthere, _⟩ := find_eq_ok_iff.mp hfind
      show (if nameLimit < name.utf8ByteSize then _ else _) = _
      rw [if_neg hshort]
      cases hget : t.get? (name :: d) with
      | none => simp [hget] at hthere
      | some entry => rfl

/-- A new directory stands where nothing stood, and its path leads to it. -/
theorem makeDirectory_eq_ok (h : t.makeDirectory path = .ok t') :
    t.Paved [path] t' ∧ t'.kind? path = some .directory := by
  obtain ⟨⟨d, name?, slash⟩, htarget, hmake⟩ := ok_of_bind h
  cases name? with
  | none => cases hmake
  | some name =>
      dsimp only at hmake
      by_cases hlong : nameLimit < name.utf8ByteSize
      · rw [if_pos hlong] at hmake
        cases hmake
      · rw [if_neg hlong] at hmake
        cases hget : t.get? (name :: d) with
        | some entry =>
            rw [hget] at hmake
            cases hmake
        | none =>
            rw [hget] at hmake
            obtain rfl := Except.ok.inj hmake
            have hnew := get?_put_self t name d .directory
            have hgrown : t.Grown (t.put (name :: d) .directory) := by
              refine ⟨rfl, fun place => ?_⟩
              by_cases hplace : place = name :: d
              · subst hplace
                exact .inr ⟨hget, hnew⟩
              · exact .inl (get?_put_of_ne t .directory hplace)
            have hlocate : (t.put (name :: d) .directory).locate path = .ok (name :: d) := by
              obtain ⟨_, hloc⟩ := locate_of_target (hgrown.extends.target htarget)
              rw [hloc, find_eq_ok_iff.mpr ⟨hlong, Option.isSome_of_eq_some hnew, rfl⟩]
              cases slash with
              | false => rfl
              | true => exact enter_of_directory hnew
            refine ⟨⟨rfl, fun place => ?_⟩, ?_⟩
            · by_cases hplace : place = name :: d
              · subst hplace
                exact .inr ⟨hget, hnew, path, List.mem_singleton_self path, hlocate⟩
              · exact .inl (get?_put_of_ne t .directory hplace)
            · rw [kind?, hlocate]
              exact congrArg (Option.map Entry.kind) hnew

/-- A file is written under the last name of its path, where no directory stands. -/
theorem write_eq_ok_iff : t.write path content = .ok t' ↔
    ∃ d name, t.target path = .ok { directory := d, name? := some name, slash := false } ∧
      ¬nameLimit < name.utf8ByteSize ∧ t.get? (name :: d) ≠ some .directory ∧
      t' = t.put (name :: d) (.file content) := by
  constructor
  · intro h
    obtain ⟨⟨d, name?, slash⟩, htarget, hwrite⟩ := ok_of_bind h
    cases name? with
    | none => cases hwrite
    | some name =>
        cases slash with
        | true => cases hwrite
        | false =>
            dsimp only at hwrite
            rw [if_neg Bool.false_ne_true] at hwrite
            by_cases hlong : nameLimit < name.utf8ByteSize
            · rw [if_pos hlong] at hwrite
              cases hwrite
            · rw [if_neg hlong] at hwrite
              split at hwrite
              · cases hwrite
              · rename_i hfree
                exact ⟨d, name, htarget, hlong, hfree, (Except.ok.inj hwrite).symm⟩
  · rintro ⟨d, name, htarget, hlong, hfree, rfl⟩
    rw [write, htarget]
    show (if nameLimit < name.utf8ByteSize then _ else _) = _
    rw [if_neg hlong]
    split
    · contradiction
    · rfl

theorem stored_put (hfree : t.get? (name :: d) ≠ some .directory) (content : ByteArray) :
    t.Stored (t.put (name :: d) (.file content)) (name :: d) content :=
  ⟨rfl, hfree, get?_put_self t name d _, fun _ hother => .inl (get?_put_of_ne t _ hother)⟩

/-- A file is written at one place, to which its path leads from then on. -/
theorem stored_of_write (h : t.write path content = .ok t') :
    ∃ place, t.Stored t' place content ∧ t'.locate path = .ok place ∧
      ∀ other, other ≠ place → t'.get? other = t.get? other := by
  obtain ⟨d, name, htarget, hlong, hfree, rfl⟩ := write_eq_ok_iff.mp h
  have hstored := stored_put hfree content
  refine ⟨name :: d, hstored, ?_, fun _ hother => get?_put_of_ne t _ hother⟩
  obtain ⟨_, hloc⟩ := locate_of_target (hstored.extends.target htarget)
  rw [hloc, find_eq_ok_iff.mpr ⟨hlong, Option.isSome_of_eq_some hstored.file, rfl⟩]
  rfl

/-- A file that is written once more is what it was. -/
theorem write_again (h : t.write path content = .ok t') :
    ∃ t'', t'.write path content = .ok t'' ∧ t''.home = t'.home ∧
      ∀ place, t''.get? place = t'.get? place := by
  obtain ⟨d, name, htarget, hlong, hfree, rfl⟩ := write_eq_ok_iff.mp h
  have hstored := stored_put hfree content
  have hfree' : (t.put (name :: d) (.file content)).get? (name :: d) ≠ some .directory := by
    rw [hstored.file]
    exact fun h => Entry.noConfusion (Option.some.inj h)
  refine ⟨_, write_eq_ok_iff.mpr
    ⟨d, name, hstored.extends.target htarget, hlong, hfree', rfl⟩, rfl, fun place => ?_⟩
  by_cases hplace : place = name :: d
  · subst hplace
    rw [get?_put_self, get?_put_self]
  · exact get?_put_of_ne _ _ hplace

theorem Extends.directory_of_kind? (h : t.Extends t') (hkind : t.kind? path = some .directory) :
    t'.kind? path = some .directory := by
  unfold kind? at hkind ⊢
  cases hloc : t.locate path with
  | error problem => rw [hloc] at hkind; cases hkind
  | ok place =>
      rw [hloc] at hkind
      rw [h.locate hloc]
      cases hget : t.get? place with
      | none => simp [hget] at hkind
      | some entry =>
          cases entry with
          | file content => simp [hget, Entry.kind] at hkind
          | directory => simp [h.directory place hget, Entry.kind]

theorem makeDirectory_of_kind? {kind : Kind} (h : t.kind? path = some kind) :
    t.makeDirectory path = .error .exists := by
  unfold kind? at h
  cases hloc : t.locate path with
  | error problem => rw [hloc] at h; cases h
  | ok place => exact makeDirectory_of_locate hloc

/-! ## Plain names -/

/-- A name that a file can be given as it is. -/
structure Plain (name : String) : Prop where
  proper : name ≠ "" ∧ name ≠ "." ∧ name ≠ ".."
  slash : '/' ∉ name.toList
  zero : '\x00' ∉ name.toList
  short : name.utf8ByteSize ≤ nameLimit

theorem names_of_not_mem {s : List Char} (h : '/' ∉ s) : Path.names s = [s] := by
  induction s with
  | nil => rfl
  | cons c s ih =>
      rw [List.mem_cons, not_or] at h
      rw [Path.names, if_neg (Ne.symm h.1), ih h.2]

theorem trim_of_not_mem {s : List Char} (h : '/' ∉ s) : Path.trim s = s := by
  unfold Path.trim
  split
  · rfl
  · simp at h
  · rfl
  · simp at h
  · rfl

namespace Plain

theorem parent? (h : Plain name) : Path.parent? name = some "" := by
  have hslash : '/' ∉ name.toList.reverse := by
    rw [List.mem_reverse]
    exact h.slash
  have hdrop : name.toList.reverse.dropWhile (· ≠ '/') = [] :=
    List.dropWhile_eq_nil_iff.mpr fun c hc => decide_eq_true fun heq => hslash (heq ▸ hc)
  unfold Path.parent?
  rw [trim_of_not_mem hslash]
  split
  · rename_i hnil
    rw [List.reverse_eq_nil_iff, String.toList_eq_nil_iff] at hnil
    exact absurd hnil h.proper.1
  · rename_i hroot
    rw [hroot] at hslash
    exact absurd List.mem_cons_self hslash
  · rw [hdrop]
    rfl

theorem begin_eq (h : Plain name) (t : Tree) : t.begin name = .ok (t.home, [name]) := by
  have hzero : ¬name.contains '\x00' = true := by
    rw [String.contains_char_eq, decide_eq_true_iff]
    exact h.zero
  have hlong : ¬pathLimit ≤ name.utf8ByteSize := by
    have hshort := h.short
    unfold nameLimit at hshort
    unfold pathLimit
    omega
  have habsolute : ¬Path.isAbsolute name = true := by
    unfold Path.isAbsolute
    rw [decide_eq_true_iff]
    exact fun hhead => h.slash (List.mem_of_head? hhead)
  rw [begin, if_neg hzero, if_neg hlong, if_neg h.proper.1, if_neg habsolute,
    names_of_not_mem h.slash, List.map_singleton, String.ofList_toList]

/-- The name is looked for in the directory that one works in. -/
theorem target_eq (h : Plain name) (hhome : t.get? t.home = some .directory) :
    t.target name = .ok { directory := t.home, name? := some name, slash := false } := by
  obtain ⟨hempty, hdot, hdots⟩ := h.proper
  have hbegin : t.begin name = .ok (t.home, [] ++ name :: []) := h.begin_eq t
  rw [target_of_last hbegin hempty (List.forall_mem_nil _)]
  show t.enter t.home >>= _ = _
  rw [enter_of_directory hhome, if_neg (not_or.mpr ⟨hdot, hdots⟩)]
  rfl

/-- What stands under the name is what stands in the directory that one works in. -/
theorem kind?_eq (h : Plain name) (hhome : t.get? t.home = some .directory) :
    t.kind? name = (t.get? (name :: t.home)).map Entry.kind := by
  obtain ⟨-, hloc⟩ := locate_of_target (h.target_eq hhome)
  rw [kind?, hloc, find, if_neg (Nat.not_lt.mpr h.short)]
  cases hget : t.get? (name :: t.home) with
  | none => rfl
  | some entry =>
      show (t.get? (name :: t.home)).map Entry.kind = _
      rw [hget]

end Plain

end Milling.Disk.Tree
