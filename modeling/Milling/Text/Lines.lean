/-!
# Lines

A text is cut at its line feeds. Cutting always gives at least one line, and
joining the lines again gives the text back, so a text and its lines carry the
same information.
-/

namespace Milling.Text

/-- The pieces of a text between its line feeds. -/
def splitLines : List Char → List (List Char)
  | [] => [[]]
  | c :: rest =>
    if c = '\n' then [] :: splitLines rest
    else match splitLines rest with
      | [] => [[c]]
      | line :: more => (c :: line) :: more

/-- Lines with a line feed between each two. -/
def joinLines : List (List Char) → List Char
  | [] => []
  | [line] => line
  | line :: more => line ++ '\n' :: joinLines more

/-- Cutting a text gives at least one line. -/
theorem splitLines_ne_nil (s : List Char) : splitLines s ≠ [] := by
  cases s with
  | nil => simp [splitLines]
  | cons c rest =>
    rw [splitLines]
    split
    · simp
    · split <;> simp

/-- Joining the lines of a text gives the text back. -/
theorem joinLines_splitLines (s : List Char) : joinLines (splitLines s) = s := by
  induction s with
  | nil => rfl
  | cons c rest ih =>
    rw [splitLines]
    split
    · next h =>
      subst h
      cases hs : splitLines rest with
      | nil => exact absurd hs (splitLines_ne_nil rest)
      | cons line more => simpa [joinLines, hs] using ih
    · cases hs : splitLines rest with
      | nil => exact absurd hs (splitLines_ne_nil rest)
      | cons line more =>
        rw [hs] at ih
        cases more <;> simp_all [joinLines]

/-- How many lines a text shows: a line feed ends a line and does not begin another. -/
def lineCount (text : String) : Nat :=
  let chars := text.toList
  chars.count '\n' + match chars.getLast? with
    | none => 0
    | some last => if last = '\n' then 0 else 1

end Milling.Text
