import Milling.Program.Line

/-!
# A rendered program, cut into its lines again

`Text.splitLines` undoes `Line.render` as long as no line holds a line feed of its
own. Everything that is said about the lines of a text rests on `splitLines_render`;
what is left to show, each time, is that the lines are single ones.
-/

namespace Milling

namespace Text

/-- A line feed ends a line, whatever comes after it. -/
theorem splitLines_append {line : List Char} (h : '\n' ∉ line) (rest : List Char) :
    splitLines (line ++ '\n' :: rest) = line :: splitLines rest := by
  induction line with
  | nil => simp [splitLines]
  | cons c line ih =>
      have hc : c ≠ '\n' := fun e => h (e ▸ List.mem_cons_self)
      have hline : '\n' ∉ line := fun m => h (List.mem_cons_of_mem _ m)
      rw [List.cons_append, splitLines, if_neg hc, ih hline]

/-- The lines of a text are its pieces between line feeds. -/
theorem splitLines_eq_splitOn (s : List Char) : splitLines s = s.splitOn '\n' := by
  induction s with
  | nil => rfl
  | cons c s ih =>
      obtain ⟨line, more, hs⟩ := List.exists_cons_of_ne_nil (splitLines_ne_nil s)
      rw [List.splitOn_eq_splitOnP] at ih ⊢
      rw [splitLines, List.splitOnP_cons_eq_if_modifyHead, ← ih, hs, List.modifyHead_cons]
      simp only [beq_iff_eq]

/-- Lines are joined by line feeds. -/
theorem joinLines_eq_intercalate : ∀ lines, joinLines lines = ['\n'].intercalate lines
  | [] => rfl
  | [line] => (List.intercalate_singleton).symm
  | line :: next :: more => by
      rw [joinLines, joinLines_eq_intercalate (next :: more), List.intercalate_cons_cons,
        List.append_assoc, List.singleton_append]
      exact List.cons_ne_nil _ _

/-- A text of ended lines is cut into these lines and the empty rest behind the last. -/
theorem splitLines_flatMap {lines : List (List Char)} (h : ∀ line ∈ lines, '\n' ∉ line) :
    splitLines (lines.flatMap (· ++ ['\n'])) = lines ++ [[]] := by
  induction lines with
  | nil => rfl
  | cons line lines ih =>
      have hline : '\n' ∉ line := h line List.mem_cons_self
      have hlines := ih fun l hl => h l (List.mem_cons_of_mem _ hl)
      rw [List.flatMap_cons, List.append_assoc, List.singleton_append, splitLines_append hline,
        hlines, List.cons_append]

end Text

namespace Line

theorem toList_render (lines : List Line) :
    (render lines).toList = (lines.map fun line => line.text.toList).flatMap (· ++ ['\n']) := by
  simp [render, String.toList_join, List.flatMap_map]

/-- **The lines of a rendered program are its lines**, and nothing stands behind the last. -/
theorem splitLines_render {lines : List Line} (h : ∀ line ∈ lines, '\n' ∉ line.text.toList) :
    Text.splitLines (render lines).toList = lines.map (fun line => line.text.toList) ++ [[]] := by
  rw [toList_render, Text.splitLines_flatMap]
  intro line hline
  obtain ⟨l, hl, rfl⟩ := List.mem_map.mp hline
  exact h l hl

/-- What holds of line feeds and of every character of every line holds of the whole text. -/
theorem forall_mem_render {lines : List Line} {P : Char → Prop} (hend : P '\n')
    (h : ∀ line ∈ lines, ∀ c ∈ line.text.toList, P c) : ∀ c ∈ (render lines).toList, P c := by
  intro c hc
  rw [toList_render] at hc
  obtain ⟨line, hline, hcl⟩ := List.mem_flatMap.mp hc
  obtain ⟨l, hl, rfl⟩ := List.mem_map.mp hline
  rcases List.mem_append.mp hcl with hcl | hcl
  · exact h l hl c hcl
  · rw [List.mem_singleton.mp hcl]
    exact hend

end Line

end Milling
