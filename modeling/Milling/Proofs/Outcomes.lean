import Mathlib.Data.List.Forall2

/-!
# Computations that may be refused

A chain of steps has a result only if every step has one, and a list is processed
only if every element is. These are the forms in which the rest of the theory
takes a successful computation apart.
-/

namespace Milling.Outcome

variable {α β γ ε : Type}

/-- What is computed after a test is computed only if the test is passed. -/
theorem ok_of_bind {test : Except ε β} {rest : β → Except ε γ} {c : γ}
    (h : test >>= rest = .ok c) : ∃ b, test = .ok b ∧ rest b = .ok c := by
  cases test with
  | error e => simp [bind, Except.bind] at h
  | ok b => exact ⟨b, rfl, h⟩

/-- What a result is turned into does not matter where there is none. -/
theorem map_eq_error_iff {f : β → γ} {test : Except ε β} {e : ε} :
    test.map f = .error e ↔ test = .error e := by
  cases test with
  | error e' =>
      rw [Except.map, Except.error.injEq, Except.error.injEq]
  | ok b =>
      constructor
      · intro h
        cases h
      · intro h
        cases h

/-- Words for an error are found only where there is one. -/
theorem mapError_eq_error_iff {ε' : Type} {f : ε → ε'} {test : Except ε β} {e' : ε'} :
    test.mapError f = .error e' ↔ ∃ e, test = .error e ∧ e' = f e := by
  cases test with
  | error e => simp [Except.mapError, eq_comm]
  | ok b => simp [Except.mapError]

theorem mapError_eq_ok_iff {ε' : Type} {f : ε → ε'} {test : Except ε β} {b : β} :
    test.mapError f = .ok b ↔ test = .ok b := by
  cases test with
  | error e => simp [Except.mapError]
  | ok b' => simp [Except.mapError]

theorem forall₂_of_mapM {f : α → Except ε β} : ∀ {as : List α} {bs : List β},
    as.mapM f = .ok bs → List.Forall₂ (fun a b => f a = .ok b) as bs
  | [], bs, h => by
      obtain rfl := Except.ok.inj h
      exact .nil
  | a :: as, bs, h => by
      rw [List.mapM_cons] at h
      obtain ⟨b, hb, h⟩ := ok_of_bind h
      obtain ⟨bs, hbs, h⟩ := ok_of_bind h
      obtain rfl := Except.ok.inj h
      exact .cons hb (forall₂_of_mapM hbs)

theorem mapM_of_forall₂ {f : α → Except ε β} : ∀ {as : List α} {bs : List β},
    List.Forall₂ (fun a b => f a = .ok b) as bs → as.mapM f = .ok bs
  | [], _, .nil => rfl
  | a :: as, _, .cons hb hbs => by
      rw [List.mapM_cons, hb, mapM_of_forall₂ hbs]
      rfl

/-- A list is processed exactly if each of its elements is. -/
theorem exists_mapM_eq_ok_iff {f : α → Except ε β} {as : List α} :
    (∃ bs, as.mapM f = .ok bs) ↔ ∀ a ∈ as, ∃ b, f a = .ok b := by
  constructor
  · rintro ⟨bs, h⟩ a ha
    have hall := forall₂_of_mapM h
    clear h
    induction hall with
    | nil => exact absurd ha List.not_mem_nil
    | cons hb _ ih =>
        rcases List.mem_cons.mp ha with rfl | ha
        · exact ⟨_, hb⟩
        · exact ih ha
  · intro h
    induction as with
    | nil => exact ⟨[], rfl⟩
    | cons a as ih =>
        obtain ⟨b, hb⟩ := h a List.mem_cons_self
        obtain ⟨bs, hbs⟩ := ih fun a' ha' => h a' (List.mem_cons_of_mem _ ha')
        exact ⟨b :: bs, mapM_of_forall₂ (.cons hb (forall₂_of_mapM hbs))⟩

/-- A list is not processed because of its first element that is not. -/
theorem mapM_eq_error_iff {f : α → Except ε β} {e : ε} : ∀ {as : List α},
    as.mapM f = .error e ↔
      ∃ before a after, as = before ++ a :: after ∧ (∀ b ∈ before, ∃ c, f b = .ok c) ∧
        f a = .error e
  | [] => by
      constructor
      · intro h
        cases h
      · rintro ⟨before, a, after, hsplit, -⟩
        simp at hsplit
  | a :: as => by
      rw [List.mapM_cons]
      constructor
      · intro h
        cases ha : f a with
        | error e' =>
            rw [ha] at h
            obtain rfl : e' = e := Except.error.inj h
            exact ⟨[], a, as, rfl, by simp, ha⟩
        | ok b =>
            rw [ha] at h
            cases has : as.mapM f with
            | ok bs =>
                rw [has] at h
                cases h
            | error e' =>
                rw [has] at h
                obtain rfl : e' = e := Except.error.inj h
                obtain ⟨before, a', after, hsplit, hbefore, ha'⟩ := mapM_eq_error_iff.mp has
                exact ⟨a :: before, a', after, congrArg (a :: ·) hsplit,
                  List.forall_mem_cons.mpr ⟨⟨b, ha⟩, hbefore⟩, ha'⟩
      · rintro ⟨before, a', after, hsplit, hbefore, ha'⟩
        cases before with
        | nil =>
            obtain ⟨rfl, rfl⟩ := List.cons.inj hsplit
            rw [ha']
            rfl
        | cons head before =>
            obtain ⟨rfl, rfl⟩ := List.cons.inj hsplit
            obtain ⟨⟨b, hb⟩, hbefore⟩ := List.forall_mem_cons.mp hbefore
            have hrest : (before ++ a' :: after).mapM f = .error e :=
              mapM_eq_error_iff.mpr ⟨before, a', after, rfl, hbefore, ha'⟩
            rw [hb]
            show (do let bs ← (before ++ a' :: after).mapM f; pure (b :: bs)) = _
            rw [hrest]
            rfl

theorem mapM_eq_ok {f : α → Except ε β} {g : α → β} : ∀ {as : List α},
    (∀ a ∈ as, f a = .ok (g a)) → as.mapM f = .ok (as.map g)
  | [], _ => rfl
  | a :: as, h => by
      rw [List.mapM_cons, h a (List.mem_cons_self ..),
        mapM_eq_ok (fun a' ha => h a' (List.mem_cons_of_mem _ ha))]
      rfl

/-- Where all that can go wrong is one thing, it does not matter which element it goes wrong for. -/
theorem mapM_eq_error {f : α → Except ε β} {e : ε} {as : List α}
    (hall : ∀ a ∈ as, f a = .error e ∨ ∃ b, f a = .ok b) (hsome : ∃ a ∈ as, f a = .error e) :
    as.mapM f = .error e := by
  cases h : as.mapM f with
  | ok bs =>
      obtain ⟨a, ha, herror⟩ := hsome
      obtain ⟨b, hb⟩ := exists_mapM_eq_ok_iff.mp ⟨bs, h⟩ a ha
      rw [hb] at herror
      cases herror
  | error e' =>
      obtain ⟨before, a, after, rfl, -, ha⟩ := mapM_eq_error_iff.mp h
      rcases hall a (by simp) with herror | ⟨b, hb⟩
      · rw [Except.error.inj (ha.symm.trans herror)]
      · rw [hb] at ha
        cases ha

/-- A list is not processed because of its first element that cannot be. -/
theorem foldlM_eq_error_iff {f : β → α → Except ε β} {e : ε} : ∀ {as : List α} {b : β},
    as.foldlM f b = .error e ↔
      ∃ before a after c, as = before ++ a :: after ∧ before.foldlM f b = .ok c ∧ f c a = .error e
  | [], b => by
      constructor
      · intro h
        cases h
      · rintro ⟨before, a, after, c, hsplit, -⟩
        simp at hsplit
  | a :: as, b => by
      rw [List.foldlM_cons]
      constructor
      · intro h
        cases ha : f b a with
        | error e' =>
            rw [ha] at h
            exact ⟨[], a, as, b, rfl, rfl, ha.trans h⟩
        | ok next =>
            rw [ha] at h
            obtain ⟨before, a', after, c, hsplit, hbefore, ha'⟩ := foldlM_eq_error_iff.mp h
            refine ⟨a :: before, a', after, c, congrArg (a :: ·) hsplit, ?_, ha'⟩
            rw [List.foldlM_cons, ha]
            exact hbefore
      · rintro ⟨before, a', after, c, hsplit, hbefore, ha'⟩
        cases before with
        | nil =>
            obtain ⟨rfl, rfl⟩ := List.cons.inj hsplit
            obtain rfl := Except.ok.inj hbefore
            rw [ha']
            rfl
        | cons head before =>
            obtain ⟨rfl, rfl⟩ := List.cons.inj hsplit
            rw [List.foldlM_cons] at hbefore
            obtain ⟨next, hnext, hbefore⟩ := ok_of_bind hbefore
            rw [hnext]
            exact foldlM_eq_error_iff.mpr ⟨before, a', after, c, rfl, hbefore, ha'⟩

end Milling.Outcome
