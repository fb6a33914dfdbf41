import Mathlib.Data.List.Induction
import Mathlib.Data.List.TakeWhile
import Milling.Config.Machine
import Milling.Program.Line

/-!
# A controller that reads a program line by line

Whether a program is safe is not a question about the records it was made from but
about the text that the controller is given. A controller reads a line up to a
semicolon, as words parted by blanks; the first word says what kind of line it is
and a word that begins with `Z` moves the tool up or down. `Safe` says, in these
terms only, what has to hold of the lines of a program.

The conditions speak of what stood before a line and what comes after it. A
`Stance` is what a controller has to remember so that one look at each line is
enough: `advance` refuses a line that may not come next, and `safe_of_accepted`
says that lines which are never refused are safe.
-/

namespace Milling.Controller

/-! ## The words on a line -/

/-- The words of a line, up to a comment. -/
def words (line : List Char) : List (List Char) :=
  ((line.takeWhile (· ≠ ';')).splitOn ' ').filter (!·.isEmpty)

/-- A word: not empty, and without anything that ends it. -/
def IsWord (word : List Char) : Prop := word ≠ [] ∧ ∀ c ∈ word, c ≠ ' ' ∧ c ≠ ';'

theorem words_comment (rest : List Char) : words (';' :: rest) = [] := by
  simp [words]

theorem words_blank (rest : List Char) : words (' ' :: rest) = words rest := by
  rw [words, List.takeWhile_cons_of_pos (by decide)]
  have := List.splitOnP_append_cons (p := (· == ' ')) [] (rest.takeWhile (· ≠ ';'))
    (show (' ' == ' ') = true by decide)
  rw [List.splitOn, ← List.nil_append (' ' :: _), this, List.splitOnP_nil]
  rfl

theorem words_append {word : List Char} (h : IsWord word) (rest : List Char) :
    words (word ++ ' ' :: rest) = word :: words rest := by
  -- nothing in a word begins a comment or parts words, so it is the blank that ends it
  have htake : (word ++ ' ' :: rest).takeWhile (· ≠ ';') =
      word ++ ' ' :: rest.takeWhile (· ≠ ';') := by
    rw [List.takeWhile_append_of_pos (fun c hc => by simpa using (h.2 c hc).2),
      List.takeWhile_cons_of_pos (by decide)]
  have hword : word.splitOnP (· == ' ') = [word] :=
    List.splitOnP_eq_singleton fun c hc => by simpa using (h.2 c hc).1
  rw [words, htake, List.splitOn, List.splitOnP_append_cons _ _ (by decide), hword]
  have hne : (!word.isEmpty) = true := by simp [h.1]
  rw [List.singleton_append, List.filter_cons, if_pos hne]
  rfl

theorem words_single {word : List Char} (h : IsWord word) : words word = [word] := by
  have htake : word.takeWhile (· ≠ ';') = word :=
    List.takeWhile_eq_self_iff.mpr fun c hc => by simpa using (h.2 c hc).2
  have hword : word.splitOnP (· == ' ') = [word] :=
    List.splitOnP_eq_singleton fun c hc => by simpa using (h.2 c hc).1
  rw [words, htake, List.splitOn, hword]
  simp [h.1]

/-- Words that are put together with blanks are read as these words. -/
theorem words_intercalate {line : List (List Char)} (h : ∀ word ∈ line, IsWord word) :
    words ([' '].intercalate line) = line := by
  induction line with
  | nil => rfl
  | cons word line ih =>
      have hword : IsWord word := h word List.mem_cons_self
      cases line with
      | nil => simpa [List.intercalate] using words_single hword
      | cons next line =>
          have hblank : [' '].intercalate (word :: next :: line) =
              word ++ ' ' :: [' '].intercalate (next :: line) := by
            simp [List.intercalate]
          rw [hblank, words_append hword, ih fun w hw => h w (List.mem_cons_of_mem _ hw)]

/-! ## Reading a line -/

/-- The word that says what kind of line it is. -/
def code? (line : List Char) : Option (List Char) := (words line).head?

/-- Whether a word of the line begins with a letter. -/
def hasWord (letter : Char) (line : List Char) : Bool :=
  (words line).any fun word => word.head? = some letter

/-- A move at full speed. -/
def isRapid (line : List Char) : Bool := code? line = some ['G', '0', '0']

/-- A move at full speed across the work. -/
def isTravel (line : List Char) : Bool := isRapid line && (hasWord 'X' line || hasWord 'Y' line)

/-- A move at full speed to a place that is given in full. -/
def isPlacing (line : List Char) : Bool :=
  isRapid line && (hasWord 'X' line && hasWord 'Y' line)

/-- A move that cuts: straight and across the work, or along an arc. -/
def isCut (line : List Char) : Bool :=
  code? line = some ['G', '0', '2'] || code? line = some ['G', '0', '3'] ||
    (code? line = some ['G', '0', '1'] && (hasWord 'X' line || hasWord 'Y' line))

/-- A move of any kind. -/
def isMotion (line : List Char) : Bool :=
  isRapid line || code? line = some ['G', '0', '1'] || code? line = some ['G', '0', '2'] ||
    code? line = some ['G', '0', '3']

/-- The last of some lines that moves the tool up or down. -/
def lastHeight? (lines : List (List Char)) : Option (List Char) :=
  (lines.filter (hasWord 'Z')).getLast?

/-- The last of some lines that is a move. -/
def lastMotion? (lines : List (List Char)) : Option (List Char) :=
  (lines.filter isMotion).getLast?

/-! ## Safety -/

/-- The words that lift the tool to where it may travel. -/
def lift (m : Machine) : List (List Char) :=
  [['G', '0', '0'], 'Z' :: (coordinateText m.safeHeight).toList]

/-- The words that take the tool into the work. -/
def plunge (m : Machine) : List (List Char) :=
  [['G', '0', '1'], 'Z' :: (coordinateText (-m.cutDepth)).toList,
    'F' :: (feedText m.feedRate).toList]

/-- The lines of a program are safe for a machine. -/
structure Safe (m : Machine) (lines : List (List Char)) : Prop where
  /-- Nothing but a lift or a plunge moves the tool up or down. -/
  heights : ∀ line ∈ lines, hasWord 'Z' line → words line = lift m ∨ words line = plunge m
  /-- The tool travels only after a lift, and before anything else has moved it down. -/
  travels : ∀ before line after, lines = before ++ line :: after → isTravel line →
    ∃ earlier, lastHeight? before = some earlier ∧ words earlier = lift m
  /-- A plunge comes right after a move to its place. -/
  plunges : ∀ before line after, lines = before ++ line :: after → words line = plunge m →
    ∃ earlier previous, before = earlier ++ [previous] ∧ isPlacing previous
  /-- The tool cuts only after a plunge, and before a lift. -/
  cuts : ∀ before line after, lines = before ++ line :: after → isCut line →
    ∃ earlier, lastHeight? before = some earlier ∧ words earlier = plunge m
  /-- From a plunge to the next lift something is cut, and nothing moves at full speed. -/
  bites : ∀ before down between up after, lines = before ++ down :: between ++ up :: after →
    words down = plunge m → words up = lift m → (∀ line ∈ between, words line ≠ lift m) →
    (∃ line ∈ between, isCut line) ∧ ∀ line ∈ between, isRapid line = false
  /-- The last move is a lift. -/
  ends : ∃ line, lastMotion? lines = some line ∧ words line = lift m

/-! ## What has to be remembered -/

/-- What a controller remembers of the lines it has read. -/
inductive Stance where
  /-- Nothing has moved the tool up or down yet. -/
  | unset
  /-- The tool is up. -/
  | raised
  /-- The tool is up and has just been placed. -/
  | above
  /-- The tool is in the work and has not cut yet. -/
  | down
  /-- The tool is in the work and has cut. -/
  | cutting
deriving DecidableEq, Repr

/-- What a line does to a stance; nothing if the line may not come next. -/
def advance (m : Machine) (s : Stance) (line : List Char) : Option Stance :=
  if words line = lift m then
    if s = .unset ∨ s = .raised ∨ s = .cutting then some .raised else none
  else if words line = plunge m then if s = .above then some .down else none
  else if hasWord 'Z' line then none
  else if isTravel line then if s = .raised ∧ isPlacing line then some .above else none
  else if isCut line then if s = .down ∨ s = .cutting then some .cutting else none
  else if isMotion line ∨ s = .above then none
  else some s

/-- What some lines, one after the other, do to a stance. -/
def run (m : Machine) (s : Stance) (lines : List (List Char)) : Option Stance :=
  lines.foldlM (advance m) s

section Run

variable {m : Machine}

theorem run_append (s : Stance) (before after : List (List Char)) :
    run m s (before ++ after) = (run m s before).bind fun t => run m t after := by
  simp only [run, List.foldlM_append]
  rfl

theorem run_cons (s : Stance) (line : List Char) (after : List (List Char)) :
    run m s (line :: after) = (advance m s line).bind fun t => run m t after := rfl

/-- Lines that are not refused are not refused up to any of them. -/
theorem run_split {s t : Stance} {before after : List (List Char)} {line : List Char}
    (h : run m s (before ++ line :: after) = some t) :
    ∃ u v, run m s before = some u ∧ advance m u line = some v ∧ run m v after = some t := by
  rw [run_append] at h
  obtain ⟨u, hu, h⟩ := Option.bind_eq_some_iff.mp h
  rw [run_cons] at h
  obtain ⟨v, hv, h⟩ := Option.bind_eq_some_iff.mp h
  exact ⟨u, v, hu, hv, h⟩

end Run

/-! ## One line -/

section Reading

variable {m : Machine} {line : List Char}

theorem hasWord_of_lift (h : words line = lift m) : hasWord 'Z' line = true := by
  simp [hasWord, h, lift]

theorem hasWord_of_plunge (h : words line = plunge m) : hasWord 'Z' line = true := by
  simp [hasWord, h, plunge]

theorem isTravel_of_lift (h : words line = lift m) : isTravel line = false := by
  simp [isTravel, hasWord, h, lift]

theorem isTravel_of_plunge (h : words line = plunge m) : isTravel line = false := by
  simp [isTravel, isRapid, code?, h, plunge]

theorem isCut_of_lift (h : words line = lift m) : isCut line = false := by
  simp [isCut, code?, h, lift]

theorem isCut_of_plunge (h : words line = plunge m) : isCut line = false := by
  simp [isCut, code?, hasWord, h, plunge]

theorem isMotion_of_lift (h : words line = lift m) : isMotion line = true := by
  simp [isMotion, isRapid, code?, h, lift]

theorem lift_ne_plunge : lift m ≠ plunge m := by simp [lift, plunge]

theorem isRapid_of_isCut (h : isCut line = true) : isRapid line = false := by
  simp only [isCut, Bool.or_eq_true, Bool.and_eq_true, decide_eq_true_eq] at h
  rcases h with (h | h) | ⟨h, -⟩ <;> simp [isRapid, h]

theorem isRapid_of_isMotion (h : isMotion line = false) : isRapid line = false := by
  simp only [isMotion, Bool.or_eq_false_iff] at h
  exact h.1.1.1

/--
**What an accepted line can be.** A lift, a plunge, a travel, a cut, or no move at
all; each only from the stances that it may follow.
-/
theorem advance_cases {s t : Stance} (h : advance m s line = some t) :
    (words line = lift m ∧ (s = .unset ∨ s = .raised ∨ s = .cutting) ∧ t = .raised) ∨
      (words line = plunge m ∧ s = .above ∧ t = .down) ∨
      (hasWord 'Z' line = false ∧ isTravel line = true ∧ isPlacing line = true ∧
        s = .raised ∧ t = .above) ∨
      (hasWord 'Z' line = false ∧ isTravel line = false ∧ isCut line = true ∧
        (s = .down ∨ s = .cutting) ∧ t = .cutting) ∨
      (hasWord 'Z' line = false ∧ isMotion line = false ∧ isTravel line = false ∧
        isCut line = false ∧ s ≠ .above ∧ t = s) := by
  -- one case for each test of `advance`, in the order in which it makes them
  unfold advance at h
  split at h
  · next hw =>
    split at h
    · next hs => exact Or.inl ⟨hw, hs, (Option.some.inj h).symm⟩
    · simp at h
  split at h
  · next hw =>
    split at h
    · next hs => exact Or.inr (Or.inl ⟨hw, hs, (Option.some.inj h).symm⟩)
    · simp at h
  split at h
  · simp at h
  next hz =>
  have hz : hasWord 'Z' line = false := by simpa using hz
  split at h
  · next ht =>
    split at h
    · next hs =>
      exact Or.inr (Or.inr (Or.inl ⟨hz, ht, hs.2, hs.1, (Option.some.inj h).symm⟩))
    · simp at h
  next ht =>
  have ht : isTravel line = false := by simpa using ht
  split at h
  · next hc =>
    split at h
    · next hs =>
      exact Or.inr (Or.inr (Or.inr (Or.inl ⟨hz, ht, hc, hs, (Option.some.inj h).symm⟩)))
    · simp at h
  next hc =>
  have hc : isCut line = false := by simpa using hc
  split at h
  · simp at h
  next hm =>
  obtain ⟨hm, hs⟩ := not_or.mp hm
  have hm : isMotion line = false := by simpa using hm
  exact Or.inr (Or.inr (Or.inr (Or.inr ⟨hz, hm, ht, hc, hs, (Option.some.inj h).symm⟩)))

/-! The same read the other way: what a line of a known kind says about the stances. -/

section Inversion

variable {s t : Stance}

theorem words_of_height (h : advance m s line = some t) (hz : hasWord 'Z' line = true) :
    words line = lift m ∨ words line = plunge m := by
  rcases advance_cases h with ⟨hw, -⟩ | ⟨hw, -⟩ | ⟨hno, -⟩ | ⟨hno, -⟩ | ⟨hno, -⟩
  · exact Or.inl hw
  · exact Or.inr hw
  all_goals rw [hno] at hz; cases hz

theorem stance_of_lift (h : advance m s line = some t) (hw : words line = lift m) :
    (s = .unset ∨ s = .raised ∨ s = .cutting) ∧ t = .raised := by
  have hz := hasWord_of_lift hw
  rcases advance_cases h with ⟨-, hs⟩ | ⟨hother, -⟩ | ⟨hno, -⟩ | ⟨hno, -⟩ | ⟨hno, -⟩
  · exact hs
  · exact absurd (hw.symm.trans hother) lift_ne_plunge
  all_goals rw [hno] at hz; cases hz

theorem stance_of_plunge (h : advance m s line = some t) (hw : words line = plunge m) :
    s = .above ∧ t = .down := by
  have hz := hasWord_of_plunge hw
  rcases advance_cases h with ⟨hother, -⟩ | ⟨-, hs⟩ | ⟨hno, -⟩ | ⟨hno, -⟩ | ⟨hno, -⟩
  · exact absurd (hother.symm.trans hw) lift_ne_plunge
  · exact hs
  all_goals rw [hno] at hz; cases hz

theorem stance_of_travel (h : advance m s line = some t) (ht : isTravel line = true) :
    s = .raised := by
  rcases advance_cases h with ⟨hw, -⟩ | ⟨hw, -⟩ | ⟨-, -, -, hs, -⟩ | ⟨-, hno, -⟩ | ⟨-, -, hno, -⟩
  · rw [isTravel_of_lift hw] at ht; cases ht
  · rw [isTravel_of_plunge hw] at ht; cases ht
  · exact hs
  all_goals rw [hno] at ht; cases ht

theorem stance_of_cut (h : advance m s line = some t) (hc : isCut line = true) :
    s = .down ∨ s = .cutting := by
  rcases advance_cases h with ⟨hw, -⟩ | ⟨hw, -⟩ | ⟨-, ht, -⟩ | ⟨-, -, -, hs, -⟩ |
    ⟨-, -, -, hno, -⟩
  · rw [isCut_of_lift hw] at hc; cases hc
  · rw [isCut_of_plunge hw] at hc; cases hc
  · rw [isTravel, isRapid_of_isCut hc] at ht; cases ht
  · exact hs
  · rw [hno] at hc; cases hc

end Inversion

end Reading

/-! ## What the stance knows of the lines before -/

/-- What is true of the lines that were read when they have led to a stance. -/
def Remembers (m : Machine) : Stance → List (List Char) → Prop
  | .unset, _ => True
  | .raised, before =>
    ∃ l, lastHeight? before = some l ∧ lastMotion? before = some l ∧ words l = lift m
  | .above, before =>
    (∃ l, lastHeight? before = some l ∧ words l = lift m) ∧
      ∃ earlier previous, before = earlier ++ [previous] ∧ isPlacing previous
  | .down, before => ∃ l, lastHeight? before = some l ∧ words l = plunge m
  | .cutting, before => ∃ l, lastHeight? before = some l ∧ words l = plunge m

section Remembers

variable {m : Machine}

theorem lastHeight?_concat (before : List (List Char)) (line : List Char) :
    lastHeight? (before ++ [line]) =
      if hasWord 'Z' line then some line else lastHeight? before := by
  rw [lastHeight?, List.filter_append]
  cases h : hasWord 'Z' line <;> simp [h, lastHeight?]

theorem lastMotion?_concat (before : List (List Char)) (line : List Char) :
    lastMotion? (before ++ [line]) = if isMotion line then some line else lastMotion? before := by
  rw [lastMotion?, List.filter_append]
  cases h : isMotion line <;> simp [h, lastMotion?]

/-- What an accepted line adds to what is remembered. -/
theorem remembers_step {s t : Stance} {before : List (List Char)} {line : List Char}
    (h : Remembers m s before) (hs : advance m s line = some t) :
    Remembers m t (before ++ [line]) := by
  rcases advance_cases hs with ⟨hw, -, rfl⟩ | ⟨hw, -, rfl⟩ | ⟨hz, -, hplace, rfl, rfl⟩ |
    ⟨hz, -, -, hfrom, rfl⟩ | ⟨hz, hm, -, -, hover, rfl⟩
  · -- a lift is both the last height and the last move from now on
    refine ⟨line, ?_, ?_, hw⟩
    · rw [lastHeight?_concat, if_pos (hasWord_of_lift hw)]
    · rw [lastMotion?_concat, if_pos (isMotion_of_lift hw)]
  · exact ⟨line, by rw [lastHeight?_concat, if_pos (hasWord_of_plunge hw)], hw⟩
  · obtain ⟨l, hl, -, hwl⟩ := h
    exact ⟨⟨l, by rw [lastHeight?_concat, hz]; exact hl, hwl⟩, before, line, rfl, hplace⟩
  · -- a cut has no height of its own, so the plunge before it still counts
    have hdown : ∃ l, lastHeight? before = some l ∧ words l = plunge m := by
      rcases hfrom with rfl | rfl <;> exact h
    obtain ⟨l, hl, hwl⟩ := hdown
    exact ⟨l, by rw [lastHeight?_concat, hz]; exact hl, hwl⟩
  · -- a line that does nothing leaves both memories as they are
    have hheight : lastHeight? (before ++ [line]) = lastHeight? before := by
      rw [lastHeight?_concat, hz]; rfl
    have hmotion : lastMotion? (before ++ [line]) = lastMotion? before := by
      rw [lastMotion?_concat, hm]; rfl
    cases t with
    | unset => trivial
    | above => exact absurd rfl hover
    | raised => simpa only [Remembers, hheight, hmotion] using h
    | down => simpa only [Remembers, hheight] using h
    | cutting => simpa only [Remembers, hheight] using h

/-- **Accepted lines are remembered rightly.** -/
theorem remembers_run {s : Stance} {lines : List (List Char)}
    (h : run m .unset lines = some s) : Remembers m s lines := by
  induction lines using List.reverseRecOn generalizing s with
  | nil =>
      obtain rfl : Stance.unset = s := Option.some.inj h
      trivial
  | append_singleton before line ih =>
      obtain ⟨u, v, hu, hv, hs⟩ := run_split h
      obtain rfl : v = s := Option.some.inj hs
      exact remembers_step (ih hu) hv

end Remembers

/-! ## Accepted lines are safe -/

section Accepted

variable {m : Machine}

/--
What comes after a plunge and before the next lift is either nothing or cuts, and
none of it is at full speed.
-/
theorem run_down {s t : Stance} {between : List (List Char)} (hs : s = .down ∨ s = .cutting)
    (h : run m s between = some t) (hno : ∀ line ∈ between, words line ≠ lift m) :
    (t = s ∨ t = .cutting) ∧ (t ≠ s → ∃ line ∈ between, isCut line) ∧
      ∀ line ∈ between, isRapid line = false := by
  induction between generalizing s with
  | nil =>
      obtain rfl : s = t := Option.some.inj h
      exact ⟨Or.inl rfl, fun hne => absurd rfl hne, by simp⟩
  | cons line between ih =>
      rw [run_cons] at h
      obtain ⟨u, hu, hrun⟩ := Option.bind_eq_some_iff.mp h
      have hrest : ∀ l ∈ between, words l ≠ lift m := fun l hl => hno l (List.mem_cons_of_mem _ hl)
      rcases advance_cases hu with ⟨hw, -, -⟩ | ⟨-, rfl, -⟩ | ⟨-, -, -, rfl, -⟩ |
        ⟨-, -, hcut, -, rfl⟩ | ⟨-, hm, -, -, -, rfl⟩
      · exact absurd hw (hno line List.mem_cons_self)
      -- a plunge or a travel is accepted from another stance only
      · simp at hs
      · simp at hs
      · obtain ⟨hto, -, hslow⟩ := ih (Or.inr rfl) hrun hrest
        refine ⟨Or.inr (by simpa using hto), fun _ => ⟨line, List.mem_cons_self, hcut⟩, ?_⟩
        intro l hl
        rcases List.mem_cons.mp hl with rfl | hl
        · exact isRapid_of_isCut hcut
        · exact hslow l hl
      · obtain ⟨hto, hbite, hslow⟩ := ih hs hrun hrest
        refine ⟨hto, fun hne => ?_, ?_⟩
        · obtain ⟨l, hl, hc⟩ := hbite hne
          exact ⟨l, List.mem_cons_of_mem _ hl, hc⟩
        · intro l hl
          rcases List.mem_cons.mp hl with rfl | hl
          · exact isRapid_of_isMotion hm
          · exact hslow l hl

/-- **Lines that are accepted and leave the tool up are safe.** -/
theorem safe_of_accepted {lines : List (List Char)} (h : run m .unset lines = some .raised) :
    Safe m lines where
  heights := by
    intro line hline hz
    obtain ⟨before, after, rfl⟩ := List.append_of_mem hline
    obtain ⟨u, v, -, hv, -⟩ := run_split h
    exact words_of_height hv hz
  travels := by
    intro before line after hsplit ht
    subst hsplit
    obtain ⟨u, v, hu, hv, -⟩ := run_split h
    obtain rfl := stance_of_travel hv ht
    obtain ⟨l, hl, -, hw⟩ := remembers_run hu
    exact ⟨l, hl, hw⟩
  plunges := by
    intro before line after hsplit hw
    subst hsplit
    obtain ⟨u, v, hu, hv, -⟩ := run_split h
    obtain ⟨rfl, -⟩ := stance_of_plunge hv hw
    exact (remembers_run hu).2
  cuts := by
    intro before line after hsplit hc
    subst hsplit
    obtain ⟨u, v, hu, hv, -⟩ := run_split h
    have hknown := remembers_run hu
    rcases stance_of_cut hv hc with rfl | rfl
    · exact hknown
    · exact hknown
  bites := by
    intro before down between up after hsplit hdown hup hno
    subst hsplit
    obtain ⟨w, x, hbelow, hx, -⟩ := run_split h
    obtain ⟨u, v, -, hv, hw⟩ := run_split hbelow
    obtain ⟨-, rfl⟩ := stance_of_plunge hv hdown
    obtain ⟨-, hbite, hslow⟩ := run_down (Or.inl rfl) hw hno
    refine ⟨hbite ?_, hslow⟩
    -- a lift is not accepted while nothing has been cut
    rintro rfl
    obtain ⟨hfrom, -⟩ := stance_of_lift hx hup
    simp at hfrom
  ends := by
    obtain ⟨l, -, hl, hw⟩ := remembers_run h
    exact ⟨l, hl, hw⟩

end Accepted

end Milling.Controller
