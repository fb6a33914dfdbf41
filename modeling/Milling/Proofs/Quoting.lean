import Mathlib.Data.List.TakeWhile
import Milling.Toml.Text

/-!
# Texts in TOML survive

Whatever characters a text has, and whichever of the four ways of writing it is
taken, the reader gets it back and stops right behind its closing marks.

What makes this delicate are the marks themselves. Between three of them, one or two
may stand for themselves, and any that stand at the end of the text run together
with the closing ones: of five in a row the first two belong to the text. Both the
writer's limit on a run and the reader's count of it look at the whole run, so the
two are compared run by run and not mark by mark.
-/

namespace Milling.Toml

/-! ## One character -/

theorem hexNumber?_append : ∀ {count read n : Nat} {s : List Char},
    hexNumber? count read s = some (n, []) →
      ∀ rest, hexNumber? count read (s ++ rest) = some (n, rest)
  | 0, read, n, s, h, rest => by
      obtain ⟨rfl, rfl⟩ := Prod.mk.inj (Option.some.inj h)
      rfl
  | count + 1, read, n, [], h, rest => nomatch h
  | count + 1, read, n, c :: s, h, rest => by
      rw [hexNumber?] at h
      rw [List.cons_append, hexNumber?]
      cases hdigit : hexDigit? c with
      | none => simp [hdigit] at h
      | some digit =>
          rw [hdigit] at h
          exact hexNumber?_append h rest

/-- A number of the lowest ones is read back from its four digits. -/
theorem hexNumber?_wideHex : ∀ n < 128, hexNumber? 4 0 (wideHex n) = some (n, []) := by
  decide

/-- What can only be written by an escape has one of the lowest numbers. -/
theorem toNat_of_needsEscape {c : Char} (h : needsEscape c) : c.toNat < 128 := by
  simp only [needsEscape, Bool.or_eq_true, Bool.and_eq_true, decide_eq_true_eq, beq_iff_eq,
    UInt32.le_iff_toNat_le] at h
  rcases h with ⟨⟨hlow, -⟩, -⟩ | hlast
  · exact Nat.lt_of_le_of_lt hlow (by decide)
  · rw [Char.toNat, hlast]
    decide

theorem isShown_of_not_needsEscape {c : Char} (h : needsEscape c = false) (hline : c ≠ '\n') :
    isShown c := by
  simp only [needsEscape, Bool.or_eq_false_iff, Bool.and_eq_false_iff, decide_eq_false_iff_not,
    beq_eq_false_iff_ne, not_not, UInt32.le_iff_toNat_le] at h
  simp only [isShown, Bool.or_eq_true, Bool.and_eq_true, decide_eq_true_eq,
    UInt32.le_iff_toNat_le]
  obtain ⟨(hlow | htab) | hfeed, hlast⟩ := h
  · have hlast : c.val.toNat ≠ 0x7F := fun hc => hlast (UInt32.toNat_inj.mp hc)
    have hlow : ¬c.val.toNat ≤ 0x1F := hlow
    show (_ ∨ 0x20 ≤ c.val.toNat ∧ c.val.toNat ≤ 0x7E) ∨ 0x80 ≤ c.val.toNat
    omega
  · exact .inl (.inl htab)
  · exact absurd hfeed hline

/-- A character between quotes stands for itself, or behind a backslash and is no blank there. -/
theorem escapeChar_cases {c : Char} :
    (escapeChar c = [c] ∧ c ≠ '\\' ∧ c ≠ '\r' ∧ needsEscape c = false) ∨
    ∃ letter more, escapeChar c = '\\' :: letter :: more ∧
      (isSpace letter = false ∧ letter ≠ '\n' ∧ letter ≠ '\r') ∧
      ∀ rest, readEscape? (letter :: (more ++ rest)) = some (c, rest) := by
  unfold escapeChar
  split
  iterate 5 exact .inr ⟨_, [], rfl, by decide, fun rest => rfl⟩
  rename_i hreturn hbackslash
  split
  · rename_i hneeds
    refine .inr ⟨'u', wideHex c.toNat, rfl, by decide, fun rest => ?_⟩
    have hsmall := toNat_of_needsEscape hneeds
    rw [readEscape?, hexNumber?_append (hexNumber?_wideHex _ hsmall) rest]
    show (character? c.toNat).bind _ = _
    rw [character?, if_pos (.inl (by omega)), Char.ofNat_toNat]
    rfl
  · rename_i hneeds
    exact .inl ⟨rfl, hbackslash, hreturn, Bool.eq_false_iff.mpr hneeds⟩

/-! ## Between quotes, on one line -/

theorem readQuotes_escaped {c letter : Char} (more : List Char)
    (h : ∀ rest, readEscape? (letter :: (more ++ rest)) = some (c, rest)) (fuel : Nat)
    (read rest : List Char) :
    readQuotes (fuel + 1) read ('\\' :: letter :: (more ++ rest)) =
      readQuotes fuel (c :: read) rest := by
  rw [readQuotes, if_neg (by decide), if_pos rfl, h rest]

theorem readQuotes_escape (rest : List Char) (chars : List Char) :
    ∀ (fuel : Nat) (read : List Char), chars.length < fuel →
    readQuotes fuel read (escape false 0 chars ++ '"' :: rest) =
      some (String.ofList (read.reverse ++ chars), rest) := by
  -- on the characters: each of them takes one turn, in whichever way it is written
  induction chars with
  | nil =>
      intro fuel read h
      obtain ⟨fuel, rfl⟩ := Nat.exists_eq_succ_of_ne_zero (Nat.ne_of_gt h)
      rw [escape, List.nil_append, readQuotes, if_pos rfl, List.append_nil]
  | cons c chars ih =>
      intro fuel read h
      obtain ⟨fuel, rfl⟩ := Nat.exists_eq_succ_of_ne_zero (Nat.ne_of_gt (Nat.zero_lt_of_lt h))
      have hnext := ih fuel (c :: read) (Nat.lt_of_succ_lt_succ h)
      rw [List.reverse_cons, List.append_assoc, List.singleton_append] at hnext
      rw [escape, ← hnext]
      by_cases hquote : c = '"'
      · subst hquote
        exact readQuotes_escaped [] (fun rest => rfl) fuel read _
      · rw [if_neg hquote]
        by_cases hline : c = '\n'
        · subst hline
          exact readQuotes_escaped [] (fun rest => rfl) fuel read _
        · rw [if_neg hline, List.append_assoc]
          rcases escapeChar_cases (c := c) with
            ⟨hself, hbackslash, -, hneeds⟩ | ⟨letter, more, hescaped, -, hread⟩
          · rw [hself, List.singleton_append, readQuotes, if_neg hquote, if_neg hbackslash,
              if_pos (isShown_of_not_needsEscape hneeds hline)]
          · rw [hescaped]
            exact readQuotes_escaped more hread fuel read _

/-! ## Runs of marks -/

/--
What may stand between three marks for a text, with `run` marks in front of it: the
marks it begins with are at most two, with those. If it is nothing but marks, they run
together with the closing ones, and the text has to be the same marks.
-/
def Tame (mark : Char) (run : Nat) (text body : List Char) : Prop :=
  (∃ k, run + k ≤ 2 ∧ text = List.replicate k mark ∧ body = List.replicate k mark) ∨
    ∃ k c more, run + k ≤ 2 ∧ c ≠ mark ∧ body = List.replicate k mark ++ c :: more

variable {mark : Char} {run k : Nat} {text body rest : List Char}

theorem Tame.cons (h : Tame mark (run + 1) text body) :
    Tame mark run (mark :: text) (mark :: body) := by
  rcases h with ⟨k, hk, rfl, rfl⟩ | ⟨k, c, more, hk, hc, rfl⟩
  · exact .inl ⟨k + 1, by omega, rfl, rfl⟩
  · exact .inr ⟨k + 1, c, more, by omega, hc, rfl⟩

theorem Tame.of_other {c : Char} (hrun : run ≤ 2) (hc : c ≠ mark) (more : List Char) :
    Tame mark run text (c :: more) :=
  .inr ⟨0, c, more, hrun, hc, rfl⟩

theorem takeWhile_marks (hrest : rest.head? ≠ some mark) :
    (List.replicate k mark ++ rest).takeWhile (· = mark) = List.replicate k mark := by
  rw [List.takeWhile_append_of_pos fun c hc => decide_eq_true (List.eq_of_mem_replicate hc)]
  cases rest with
  | nil => exact List.append_nil _
  | cons c rest =>
      have hc : c ≠ mark := fun h => hrest (congrArg some h)
      rw [List.takeWhile_cons_of_neg (by simpa using hc), List.append_nil]

/-- The closing marks behind a text, which may end in marks of its own. -/
theorem closing?_marks (hk : k ≤ 2) (hrest : rest.head? ≠ some mark) :
    closing? mark (List.replicate k mark ++ (List.replicate 3 mark ++ rest)) = some (k, rest) := by
  rw [← List.append_assoc, List.replicate_append_replicate, closing?, takeWhile_marks hrest,
    List.length_replicate]
  dsimp only
  rw [if_neg (by omega), Nat.add_sub_cancel, Nat.min_eq_left hk,
    List.drop_left' List.length_replicate]

theorem closing?_end (hrest : rest.head? ≠ some mark) :
    closing? mark (List.replicate 3 mark ++ rest) = some (0, rest) :=
  closing?_marks (Nat.zero_le 2) hrest

/-- Marks that do not end a text. -/
theorem closing?_other {c : Char} (hk : k ≤ 2) (hc : c ≠ mark) (more : List Char) :
    closing? mark (List.replicate k mark ++ c :: more) = none := by
  have hrest : (c :: more).head? ≠ some mark := fun h => hc (Option.some.inj h)
  rw [closing?, takeWhile_marks hrest, List.length_replicate]
  dsimp only
  rw [if_pos (by omega)]

/-- At the marks that a text begins with, either all of it has been read or it goes on. -/
theorem Tame.closing? (h : Tame mark run text body) (hrest : rest.head? ≠ some mark) :
    (∃ k, text = List.replicate k mark ∧
      closing? mark (body ++ (List.replicate 3 mark ++ rest)) = some (k, rest)) ∨
    Toml.closing? mark (body ++ (List.replicate 3 mark ++ rest)) = none := by
  rcases h with ⟨k, hk, rfl, rfl⟩ | ⟨k, c, more, hk, hc, rfl⟩
  · exact .inl ⟨k, rfl, closing?_marks (by omega) hrest⟩
  · rw [List.append_assoc, List.cons_append]
    exact .inr (closing?_other (by omega) hc _)

/-- The writer escapes a quote before there are too many. -/
theorem tame_escape (text : List Char) (hrun : run ≤ 2) :
    Tame '"' run text (escape true run text) := by
  induction text generalizing run with
  | nil => exact .inl ⟨0, hrun, rfl, rfl⟩
  | cons c text ih =>
      rw [escape]
      by_cases hquote : c = '"'
      · subst hquote
        rw [if_pos rfl, if_pos rfl]
        by_cases hfew : run < 2
        · rw [if_pos hfew]
          exact (ih hfew).cons
        · rw [if_neg hfew]
          exact .of_other hrun (by decide) _
      · rw [if_neg hquote]
        by_cases hline : c = '\n'
        · rw [if_pos hline, if_pos rfl]
          exact .of_other hrun (by decide) _
        · rw [if_neg hline]
          rcases escapeChar_cases (c := c) with ⟨hself, -⟩ | ⟨letter, more, hescaped, -⟩
          · rw [hself]
            exact .of_other hrun hquote _
          · rw [hescaped]
            exact .of_other hrun (by decide) _

/-- A text without a long run is written as it is. -/
theorem tame_self (hlong : longestRun mark run text ≤ 2) : Tame mark run text text := by
  induction text generalizing run with
  | nil => exact .inl ⟨0, hlong, rfl, rfl⟩
  | cons c text ih =>
      rw [longestRun] at hlong
      by_cases hc : c = mark
      · subst hc
        rw [if_pos rfl] at hlong
        exact (ih hlong).cons
      · rw [if_neg hc] at hlong
        exact .of_other (Nat.le_trans (Nat.le_max_left _ _) hlong) hc _

/-! ## Between three marks -/

theorem newline?_eq_none {c : Char} (hline : c ≠ '\n') (hreturn : c ≠ '\r') (s : List Char) :
    newline? (c :: s) = none := by
  unfold newline?
  split
  · rename_i heq
    exact absurd (List.cons.inj heq).1 hline
  · rename_i heq
    exact absurd (List.cons.inj heq).1 hreturn
  · rfl

/-- A backslash in front of what is not blank does not join lines. -/
theorem joinedLine?_eq_none {c : Char} (hspace : isSpace c = false) (hline : c ≠ '\n')
    (hreturn : c ≠ '\r') (s : List Char) : joinedLine? (c :: s) = none := by
  rw [joinedLine?, List.dropWhile_cons_of_neg (by rw [hspace]; exact Bool.false_ne_true),
    newline?_eq_none hline hreturn]
  rfl

theorem readQuoteLines_escaped {c letter : Char} (more : List Char)
    (hletter : isSpace letter = false ∧ letter ≠ '\n' ∧ letter ≠ '\r')
    (h : ∀ rest, readEscape? (letter :: (more ++ rest)) = some (c, rest)) (fuel : Nat)
    (read rest : List Char) :
    readQuoteLines (fuel + 1) read ('\\' :: letter :: (more ++ rest)) =
      readQuoteLines fuel (c :: read) rest := by
  obtain ⟨hspace, hline, hreturn⟩ := hletter
  rw [readQuoteLines, if_neg (by decide), if_pos rfl, joinedLine?_eq_none hspace hline hreturn]
  dsimp only
  rw [h rest]

theorem readQuoteLines_escape (hrest : rest.head? ≠ some '"') (text : List Char) :
    ∀ (fuel : Nat) (read : List Char) (run : Nat), text.length < fuel → run ≤ 2 →
    readQuoteLines fuel read (escape true run text ++ (List.replicate 3 '"' ++ rest)) =
      some (String.ofList (read.reverse ++ text), rest) := by
  induction text with
  | nil =>
      intro fuel read run h hrun
      obtain ⟨fuel, rfl⟩ := Nat.exists_eq_succ_of_ne_zero (Nat.ne_of_gt h)
      have hclosing := closing?_end hrest
      rw [escape, List.nil_append, List.append_nil]
      rw [List.replicate_succ, List.cons_append] at hclosing ⊢
      rw [readQuoteLines, if_pos rfl, hclosing]
      rfl
  | cons c text ih =>
      intro fuel read run h hrun
      obtain ⟨fuel, rfl⟩ := Nat.exists_eq_succ_of_ne_zero (Nat.ne_of_gt (Nat.zero_lt_of_lt h))
      have hnext := ih fuel (c :: read)
      simp only [List.reverse_cons, List.append_assoc, List.singleton_append] at hnext
      have hfuel := Nat.lt_of_succ_lt_succ h
      by_cases hquote : c = '"'
      · subst hquote
        -- a quote either begins the marks that close the text, or is one of it
        have htame := (tame_escape ('"' :: text) hrun).closing? hrest
        rw [escape, if_pos rfl, if_pos rfl] at htame ⊢
        by_cases hfew : run < 2
        · rw [if_pos hfew] at htame ⊢
          rw [List.cons_append] at htame ⊢
          rw [readQuoteLines, if_pos rfl]
          rcases htame with ⟨k, htext, hclosing⟩ | hclosing
          · rw [hclosing, htext]
            dsimp only
            rw [List.reverse_append, List.reverse_replicate]
          · rw [hclosing]
            exact hnext (run + 1) hfuel hfew
        · rw [if_neg hfew]
          rw [← hnext 0 hfuel (Nat.zero_le 2)]
          exact readQuoteLines_escaped [] (by decide) (fun rest => rfl) fuel read _
      · rw [escape, if_neg hquote, ← hnext 0 hfuel (Nat.zero_le 2)]
        by_cases hline : c = '\n'
        · subst hline
          rw [if_pos rfl, if_pos rfl, List.singleton_append, List.cons_append, readQuoteLines,
            if_neg hquote, if_neg (by decide)]
          rfl
        · rw [if_neg hline, List.append_assoc]
          rcases escapeChar_cases (c := c) with
            ⟨hself, hbackslash, hreturn, hneeds⟩ | ⟨letter, more, hescaped, hletter, hread⟩
          · rw [hself, List.singleton_append, readQuoteLines, if_neg hquote, if_neg hbackslash,
              newline?_eq_none hline hreturn]
            dsimp only
            rw [if_pos (isShown_of_not_needsEscape hneeds hline)]
          · rw [hescaped]
            exact readQuoteLines_escaped more hletter hread fuel read _

theorem readApostropheLines_self (hrest : rest.head? ≠ some '\'') (text : List Char) :
    ∀ (fuel : Nat) (read : List Char) (run : Nat), text.length < fuel →
    longestRun '\'' run text ≤ 2 → (∀ c ∈ text, needsEscape c = false) →
    readApostropheLines fuel read (text ++ (List.replicate 3 '\'' ++ rest)) =
      some (String.ofList (read.reverse ++ text), rest) := by
  induction text with
  | nil =>
      intro fuel read run h hrun hall
      obtain ⟨fuel, rfl⟩ := Nat.exists_eq_succ_of_ne_zero (Nat.ne_of_gt h)
      have hclosing := closing?_end hrest
      rw [List.nil_append, List.append_nil]
      rw [List.replicate_succ, List.cons_append] at hclosing ⊢
      rw [readApostropheLines, if_pos rfl, hclosing]
      rfl
  | cons c text ih =>
      intro fuel read run h hrun hall
      obtain ⟨fuel, rfl⟩ := Nat.exists_eq_succ_of_ne_zero (Nat.ne_of_gt (Nat.zero_lt_of_lt h))
      have hnext := ih fuel (c :: read)
      simp only [List.reverse_cons, List.append_assoc, List.singleton_append] at hnext
      have hfuel := Nat.lt_of_succ_lt_succ h
      obtain ⟨hneeds, hothers⟩ := List.forall_mem_cons.mp hall
      have htame := (tame_self hrun).closing? hrest
      rw [longestRun] at hrun
      rw [List.cons_append] at htame ⊢
      rw [readApostropheLines]
      by_cases hmark : c = '\''
      · subst hmark
        rw [if_pos rfl] at hrun ⊢
        rcases htame with ⟨k, htext, hclosing⟩ | hclosing
        · rw [hclosing, htext]
          dsimp only
          rw [List.reverse_append, List.reverse_replicate]
        · rw [hclosing]
          exact hnext (run + 1) hfuel hrun hothers
      · rw [if_neg hmark] at hrun ⊢
        have hrun := Nat.le_trans (Nat.le_max_right _ _) hrun
        rw [← hnext 0 hfuel hrun hothers]
        by_cases hline : c = '\n'
        · subst hline
          rfl
        · have hreturn : c ≠ '\r' := by
            rintro rfl
            cases hneeds
          rw [newline?_eq_none hline hreturn]
          dsimp only
          rw [if_pos (isShown_of_not_needsEscape hneeds hline)]

/-! ## The style of a text -/

theorem longestRun_pos {text : List Char} (h : mark ∈ text) (run : Nat) :
    0 < longestRun mark run text := by
  have hle : ∀ (text : List Char) (run : Nat), run ≤ longestRun mark run text := by
    intro text
    induction text with
    | nil => exact fun run => Nat.le_refl run
    | cons c text ih =>
        intro run
        rw [longestRun]
        split
        · exact Nat.le_of_succ_le (ih (run + 1))
        · exact Nat.le_max_left _ _
  induction text generalizing run with
  | nil => exact absurd h List.not_mem_nil
  | cons c text ih =>
      rw [longestRun]
      by_cases hc : c = mark
      · rw [if_pos hc]
        exact Nat.lt_of_lt_of_le (Nat.succ_pos run) (hle text (run + 1))
      · rw [if_neg hc]
        have hmem := (List.mem_cons.mp h).resolve_left (Ne.symm hc)
        exact Nat.lt_of_lt_of_le (ih hmem 0) (Nat.le_max_right _ _)

theorem not_needsEscape_of_any {text : List Char} (h : (!text.any needsEscape) = true) :
    ∀ c ∈ text, needsEscape c = false := by
  intro c hc
  rw [Bool.not_eq_true', List.any_eq_false] at h
  exact Bool.eq_false_iff.mpr (h c hc)

/-- A text between apostrophes needs no escapes, and has no apostrophe and no line feed. -/
theorem of_style_apostrophes (h : Style.of text = .apostrophes) :
    (∀ c ∈ text, needsEscape c = false) ∧ '\'' ∉ text ∧ '\n' ∉ text := by
  unfold Style.of at h
  dsimp only at h
  split at h
  · cases h
  · split at h
    · rename_i hstyle
      simp only [Bool.and_eq_true, decide_eq_true_eq] at hstyle
      obtain ⟨⟨hescapes, hmarks⟩, hlines⟩ := hstyle
      refine ⟨not_needsEscape_of_any hescapes, fun hmem => ?_, fun hmem => ?_⟩
      · exact absurd hmarks (Nat.ne_of_gt (longestRun_pos hmem 0))
      · simp [hmem] at hlines
    · split at h
      · cases h
      · split at h
        · cases h
        · split at h <;> cases h

/-- A text between three apostrophes needs no escapes, and has no run of apostrophes to end it. -/
theorem of_style_apostropheLines (h : Style.of text = .apostropheLines) :
    (∀ c ∈ text, needsEscape c = false) ∧ longestRun '\'' 0 text ≤ 2 := by
  unfold Style.of at h
  dsimp only at h
  split at h
  · cases h
  · split at h
    · cases h
    · split at h
      · cases h
      · split at h
        · rename_i hstyle
          simp only [Bool.and_eq_true, decide_eq_true_eq] at hstyle
          exact ⟨not_needsEscape_of_any hstyle.1, hstyle.2⟩
        · split at h <;> cases h

/-! ## Any text -/

theorem length_le_escape (lines : Bool) (run : Nat) (text : List Char) :
    text.length ≤ (escape lines run text).length := by
  induction text generalizing run with
  | nil => exact Nat.le_refl _
  | cons c text ih =>
      have hnext := ih 0
      have hagain := ih (run + 1)
      rw [escape]
      by_cases hquote : c = '"'
      · rw [if_pos hquote]
        by_cases hfew : run < (if lines then 2 else 0)
        · rw [if_pos hfew, List.length_cons, List.length_cons]
          omega
        · rw [if_neg hfew, List.length_cons, List.length_cons, List.length_cons]
          omega
      · rw [if_neg hquote]
        split
        · cases lines <;> simp <;> omega
        · rcases escapeChar_cases (c := c) with ⟨hself, -⟩ | ⟨letter, more, hescaped, -⟩
          · rw [hself]
            simp
            omega
          · rw [hescaped]
            simp
            omega

/-- The line end that is put before a text with lines is no part of it, and no other is taken. -/
theorem skipFirstNewline_start (mark : Char) (rest : List Char) (hmark : mark ≠ '\n' ∧ mark ≠ '\r')
    (hbody : ∀ c ∈ body.head?, c ≠ '\r' ∧ (c = '\n' → '\n' ∈ text)) :
    skipFirstNewline ((if text.contains '\n' then ['\n'] else []) ++
        (body ++ (List.replicate 3 mark ++ rest))) =
      body ++ (List.replicate 3 mark ++ rest) := by
  by_cases hlines : '\n' ∈ text
  · rw [if_pos (List.contains_iff_mem.mpr hlines)]
    rfl
  · rw [if_neg (mt List.contains_iff_mem.mp hlines), List.nil_append, skipFirstNewline]
    cases body with
    | nil =>
        rw [List.nil_append, List.replicate_succ, List.cons_append,
          newline?_eq_none hmark.1 hmark.2]
        rfl
    | cons c body =>
        obtain ⟨hreturn, hline⟩ := hbody c rfl
        rw [List.cons_append, newline?_eq_none (mt hline hlines) hreturn]
        rfl

/-- Between quotes on one line, no quote stands in front. -/
theorem head?_escape_single (c : Char) (text : List Char) :
    (escape false 0 (c :: text)).head? ≠ some '"' := by
  rw [escape]
  by_cases hquote : c = '"'
  · rw [if_pos hquote]
    simp
  · rw [if_neg hquote]
    split
    · simp
    · rcases escapeChar_cases (c := c) with ⟨hself, -⟩ | ⟨letter, more, hescaped, -⟩
      · rw [hself]
        exact fun h => hquote (Option.some.inj h)
      · rw [hescaped]
        simp

theorem readText?_quotes (text rest : List Char) :
    readText? ('"' :: (escape false 0 text ++ '"' :: '\n' :: rest)) =
      some (String.ofList text, '\n' :: rest) := by
  unfold readText?
  split
  · rename_i heq
    -- three quotes in front would be another style
    have htail := (List.cons.inj heq).2
    cases text with
    | nil => exact absurd (List.cons.inj (List.cons.inj htail).2).1 (by decide)
    | cons c text =>
        have hhead := head?_escape_single c text
        cases hescape : escape false 0 (c :: text) with
        | nil =>
            have := length_le_escape false 0 (c :: text)
            simp [hescape] at this
        | cons d more =>
            rw [hescape] at htail hhead
            exact absurd (congrArg some (List.cons.inj htail).1) hhead
  · rename_i heq
    exact absurd (List.cons.inj heq).1 (by decide)
  · rename_i heq
    obtain rfl := (List.cons.inj heq).2
    refine readQuotes_escape ('\n' :: rest) text _ [] ?_
    have := length_le_escape false 0 text
    simp only [List.length_append]
    omega
  · rename_i heq
    exact absurd (List.cons.inj heq).1 (by decide)
  · rename_i hother _
    exact absurd rfl (hother _)

theorem readText?_apostrophes {text : List Char} (rest : List Char)
    (hplain : ∀ c ∈ text, needsEscape c = false) (hmark : '\'' ∉ text) (hline : '\n' ∉ text) :
    readText? ('\'' :: (text ++ '\'' :: '\n' :: rest)) =
      some (String.ofList text, '\n' :: rest) := by
  have hinside : ∀ c ∈ text, (c ≠ '\'' && isShown c) = true := by
    intro c hc
    have hne : c ≠ '\'' := fun h => hmark (h ▸ hc)
    have hshown := isShown_of_not_needsEscape (hplain c hc) fun h => hline (h ▸ hc)
    rw [hshown, Bool.and_true]
    exact decide_eq_true hne
  unfold readText?
  split
  · rename_i heq
    exact absurd (List.cons.inj heq).1 (by decide)
  · rename_i heq
    -- three apostrophes in front would be another style
    have htail := (List.cons.inj heq).2
    cases text with
    | nil => exact absurd (List.cons.inj (List.cons.inj htail).2).1 (by decide)
    | cons c text => exact absurd ((List.cons.inj htail).1 ▸ List.mem_cons_self) hmark
  · rename_i heq
    exact absurd (List.cons.inj heq).1 (by decide)
  · rename_i heq
    obtain rfl := (List.cons.inj heq).2
    unfold readApostrophes
    rw [List.takeWhile_append_of_pos hinside, List.dropWhile_append_of_pos hinside,
      List.takeWhile_cons_of_neg (by decide), List.dropWhile_cons_of_neg (by decide),
      List.append_nil]
    rfl
  · rename_i hother
    exact absurd rfl (hother _)

theorem readText?_quoteLines (text rest : List Char) :
    readText? ('"' :: '"' :: '"' :: ((if text.contains '\n' then ['\n'] else []) ++
        (escape true 0 text ++ (List.replicate 3 '"' ++ '\n' :: rest)))) =
      some (String.ofList text, '\n' :: rest) := by
  have hhead : ∀ c ∈ (escape true 0 text).head?, c ≠ '\r' ∧ (c = '\n' → '\n' ∈ text) := by
    cases text with
    | nil =>
        rintro c ⟨⟩
    | cons d text =>
        rw [escape]
        by_cases hquote : d = '"'
        · rw [if_pos hquote]
          rintro c ⟨⟩
          exact ⟨by decide, fun h => absurd h (by decide)⟩
        · rw [if_neg hquote]
          by_cases hline : d = '\n'
          · rw [if_pos hline]
            rintro c ⟨⟩
            exact ⟨by decide, fun _ => hline ▸ List.mem_cons_self⟩
          · rw [if_neg hline]
            rcases escapeChar_cases (c := d) with
              ⟨hself, -, hreturn, -⟩ | ⟨letter, more, hescaped, -⟩
            · rw [hself]
              rintro c ⟨⟩
              exact ⟨hreturn, fun h => absurd h hline⟩
            · rw [hescaped]
              rintro c ⟨⟩
              exact ⟨by decide, fun h => absurd h (by decide)⟩
  have hstart := skipFirstNewline_start '"' ('\n' :: rest) (by decide) hhead
  have hlength := length_le_escape true 0 text
  have hfeed : ('\n' :: rest).head? ≠ some '"' := fun h => absurd (Option.some.inj h) (by decide)
  show readQuoteLines ((skipFirstNewline _).length + 1) [] (skipFirstNewline _) = _
  rw [hstart]
  refine readQuoteLines_escape hfeed text _ [] 0 ?_ (by decide)
  rw [List.length_append]
  omega

theorem readText?_apostropheLines {text : List Char} (rest : List Char)
    (hplain : ∀ c ∈ text, needsEscape c = false) (hruns : longestRun '\'' 0 text ≤ 2) :
    readText? ('\'' :: '\'' :: '\'' :: ((if text.contains '\n' then ['\n'] else []) ++
        (text ++ (List.replicate 3 '\'' ++ '\n' :: rest)))) =
      some (String.ofList text, '\n' :: rest) := by
  have hhead : ∀ c ∈ text.head?, c ≠ '\r' ∧ (c = '\n' → '\n' ∈ text) := by
    intro c hc
    have hmem := List.mem_of_mem_head? hc
    refine ⟨?_, fun h => h ▸ hmem⟩
    rintro rfl
    exact absurd (hplain _ hmem) (by decide)
  have hstart := skipFirstNewline_start '\'' ('\n' :: rest) (by decide) hhead
  have hfeed : ('\n' :: rest).head? ≠ some '\'' := fun h => absurd (Option.some.inj h) (by decide)
  show readApostropheLines ((skipFirstNewline _).length + 1) [] (skipFirstNewline _) = _
  rw [hstart]
  refine readApostropheLines_self hfeed text _ [] 0 ?_ hruns hplain
  rw [List.length_append]
  omega

/-- **Every text is read back from what was written for it.** -/
theorem readText?_writeText (text : String) (rest : List Char) :
    readText? (writeText text ++ '\n' :: rest) = some (text, '\n' :: rest) := by
  have htext : text = String.ofList text.toList := String.ofList_toList.symm
  unfold writeText
  dsimp only
  generalize text.toList = chars at htext
  subst htext
  simp only [List.append_assoc]
  cases hstyle : Style.of chars with
  | quotes => exact readText?_quotes chars rest
  | apostrophes =>
      obtain ⟨hplain, hmark, hline⟩ := of_style_apostrophes hstyle
      exact readText?_apostrophes rest hplain hmark hline
  | quoteLines => exact readText?_quoteLines chars rest
  | apostropheLines =>
      obtain ⟨hplain, hruns⟩ := of_style_apostropheLines hstyle
      exact readText?_apostropheLines rest hplain hruns

end Milling.Toml
