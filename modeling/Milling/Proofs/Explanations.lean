import Milling.Proofs.Emission
import Milling.Session.Basic

/-!
# What an explanation adds to a program

An explanation is text from outside. It goes in front of a program line by line, with
a semicolon before each line, and a line is what stands between two line feeds. A
controller, however, also ends a line at a carriage return, and what stands behind
one got no semicolon.

So an explanation is nothing but comments to a controller exactly when no carriage
return in it is followed by a word. `annotated_adds` says so, and that the program
behind it is not touched in any case. Cut at its line feeds only, an explanation never
is anything but comments.
-/

namespace Milling

namespace Text

/-- A character at which a controller ends a line. -/
def endsLine (c : Char) : Bool := c = '\n' || c = '\r'

/-- The pieces of a text between the characters that end one. -/
def pieces (ends : Char → Bool) (s : List Char) : List (List Char) := s.splitOnP ends

/-- What a controller passes over: nothing at all, or a comment. -/
def Passive (piece : List Char) : Prop := piece = [] ∨ piece.head? = some ';'

instance (piece : List Char) : Decidable (Passive piece) := inferInstanceAs (Decidable (_ ∨ _))

/-- A text whose first piece is passed over. -/
def BeginsPassive (ends : Char → Bool) (s : List Char) : Prop := ∀ c ∈ s.head?, ends c ∨ c = ';'

/-- A text in which every piece but the first is passed over. -/
def LaterPassive (ends : Char → Bool) (s : List Char) : Prop :=
  ∀ piece ∈ (pieces ends s).tail, Passive piece

/-- A text in which nothing but comments stands behind a carriage return. -/
def ReturnsPassive (s : List Char) : Prop :=
  ∀ before after, s = before ++ '\r' :: after → BeginsPassive endsLine after

variable {ends : Char → Bool}

theorem pieces_cons_of_pos {c : Char} (h : ends c = true) (s : List Char) :
    pieces ends (c :: s) = [] :: pieces ends s := by
  rw [pieces, List.splitOnP_cons_eq_if_modifyHead, if_pos h]
  rfl

/-- A character that ends nothing belongs to the first piece. -/
theorem pieces_cons_of_neg {c : Char} (h : ends c = false) (s : List Char) :
    ∃ first rest, pieces ends s = first :: rest ∧ pieces ends (c :: s) = (c :: first) :: rest := by
  obtain ⟨first, rest, hs⟩ := List.exists_cons_of_ne_nil (List.splitOnP_ne_nil ends s)
  refine ⟨first, rest, hs, ?_⟩
  rw [pieces, List.splitOnP_cons_eq_if_modifyHead, if_neg (by rw [h]; exact Bool.false_ne_true), hs,
    List.modifyHead_cons]

theorem passive_pieces_iff (s : List Char) :
    (∀ piece ∈ pieces ends s, Passive piece) ↔ BeginsPassive ends s ∧ LaterPassive ends s := by
  cases s with
  | nil => simp [pieces, List.splitOnP_nil, Passive, BeginsPassive, LaterPassive]
  | cons c s =>
      cases h : ends c with
      | true => simp [LaterPassive, pieces_cons_of_pos h, Passive, BeginsPassive, h]
      | false =>
          obtain ⟨first, rest, -, hs⟩ := pieces_cons_of_neg h s
          simp [LaterPassive, hs, Passive, BeginsPassive, h]

/-- A later piece begins behind a character that ends one. -/
theorem laterPassive_cons (c : Char) (s : List Char) :
    LaterPassive ends (c :: s) ↔ (ends c → BeginsPassive ends s) ∧ LaterPassive ends s := by
  cases h : ends c with
  | true =>
      rw [LaterPassive, pieces_cons_of_pos h, List.tail_cons, passive_pieces_iff]
      simp
  | false =>
      obtain ⟨first, rest, hs, hcons⟩ := pieces_cons_of_neg h s
      simp [LaterPassive, hs, hcons]

theorem returnsPassive_cons (c : Char) (s : List Char) :
    ReturnsPassive (c :: s) ↔ (c = '\r' → BeginsPassive endsLine s) ∧ ReturnsPassive s := by
  constructor
  · intro h
    exact ⟨fun hc => h [] s (by rw [hc]; rfl),
      fun before after hs => h (c :: before) after (by rw [hs]; rfl)⟩
  · rintro ⟨hfirst, hlater⟩ before after hs
    cases before with
    | nil =>
        obtain ⟨hc, rfl⟩ := List.cons.inj hs
        exact hfirst hc
    | cons d before =>
        obtain ⟨-, rfl⟩ := List.cons.inj hs
        exact hlater before after rfl

end Text

namespace Session

open Text (Passive BeginsPassive LaterPassive ReturnsPassive endsLine pieces)

/-- A character of an explanation as it stands in front of a program. -/
def commented (c : Char) : List Char := if c = '\n' then ['\n', ';', ' '] else [c]

/-- An explanation in front of a program, character by character. -/
theorem toList_commentBlock (explanation : String) :
    (commentBlock explanation).toList =
      ';' :: ' ' :: (explanation.toList.flatMap commented ++ ['\n', '\n']) := by
  have hjoin : ∀ s : List Char,
      Text.joinLines ((Text.splitLines s).map fun line => ';' :: ' ' :: line) =
        ';' :: ' ' :: s.flatMap commented := by
    intro s
    induction s with
    | nil => rfl
    | cons c s ih =>
        obtain ⟨line, more, hs⟩ := List.exists_cons_of_ne_nil (Text.splitLines_ne_nil s)
        rw [hs, List.map_cons] at ih
        by_cases hc : c = '\n'
        · rw [Text.splitLines, if_pos hc, hs, List.map_cons, List.map_cons, List.flatMap_cons,
            commented, if_pos hc, Text.joinLines, ih]
          · rfl
          · exact List.cons_ne_nil _ _
        · rw [Text.splitLines, if_neg hc, hs, List.flatMap_cons, commented, if_neg hc]
          -- the character joins the first line, behind its semicolon and its blank
          cases more with
          | nil => simpa [Text.joinLines] using ih
          | cons next more => simpa [Text.joinLines] using ih
  rw [commentBlock, String.toList_ofList, hjoin]
  rfl

/-- The character behind a carriage return is still the next one in front of a program. -/
theorem beginsPassive_commented (s : List Char) :
    BeginsPassive endsLine (s.flatMap commented ++ ['\n', '\n']) ↔ BeginsPassive endsLine s := by
  cases s with
  | nil => simp [BeginsPassive, endsLine]
  | cons c s =>
      by_cases hc : c = '\n'
      · simp [BeginsPassive, commented, hc, endsLine]
      · simp [BeginsPassive, commented, hc]

/-- The pieces that begin inside an explanation are those behind its carriage returns. -/
theorem laterPassive_commented (s : List Char) :
    LaterPassive endsLine (s.flatMap commented ++ ['\n', '\n']) ↔ ReturnsPassive s := by
  induction s with
  | nil =>
      have hend : LaterPassive endsLine ['\n', '\n'] := by
        unfold LaterPassive
        decide
      exact iff_of_true hend fun before after h => absurd h (by simp)
  | cons c s ih =>
      rw [Text.returnsPassive_cons, ← ih, ← beginsPassive_commented, List.flatMap_cons, commented]
      by_cases hc : c = '\n'
      · -- behind a line feed stands the semicolon that was put there
        subst hc
        simp [Text.laterPassive_cons, BeginsPassive, endsLine]
      · simp [Text.laterPassive_cons, endsLine, hc]

/-- Where only line feeds end a line, every line of an explanation is a comment. -/
theorem laterPassive_commented_newline (s : List Char) :
    LaterPassive (· = '\n') (s.flatMap commented ++ ['\n', '\n']) := by
  induction s with
  | nil =>
      unfold LaterPassive
      decide
  | cons c s ih =>
      rw [List.flatMap_cons, commented]
      by_cases hc : c = '\n'
      · subst hc
        simpa [Text.laterPassive_cons, BeginsPassive] using ih
      · simpa [Text.laterPassive_cons, hc] using ih

theorem passive_commentBlock_newline (explanation : String) :
    ∀ line ∈ pieces (· = '\n') (commentBlock explanation).toList, Passive line := by
  rw [toList_commentBlock, Text.passive_pieces_iff]
  exact ⟨by simp [BeginsPassive], by
    simpa [Text.laterPassive_cons] using laterPassive_commented_newline explanation.toList⟩

/-- **An explanation is nothing but comments unless a word stands behind a carriage return.** -/
theorem passive_commentBlock_iff (explanation : String) :
    (∀ piece ∈ pieces endsLine (commentBlock explanation).toList, Passive piece) ↔
      ReturnsPassive explanation.toList := by
  rw [toList_commentBlock, Text.passive_pieces_iff, ← laterPassive_commented]
  simp [Text.laterPassive_cons, BeginsPassive, endsLine]

/-- To be passed over is to hold no instruction. -/
theorem filter_instructs_eq_nil_iff (lines : List (List Char)) :
    lines.filter Program.instructs = [] ↔ ∀ line ∈ lines, Passive line := by
  rw [List.filter_eq_nil_iff]
  refine forall₂_congr fun line _ => ?_
  cases line with
  | nil => simp [Program.instructs, Passive]
  | cons c line => simp [Program.instructs, Passive]

/-- The last line feed of an explanation parts its pieces from those of the program. -/
theorem filter_instructs_annotated (explanation program : String) :
    (pieces endsLine (commentBlock explanation ++ program).toList).filter Program.instructs =
      (pieces endsLine (commentBlock explanation).toList).filter Program.instructs ++
        (pieces endsLine program.toList).filter Program.instructs := by
  obtain ⟨block, hblock⟩ : ∃ block, (commentBlock explanation).toList = block ++ ['\n'] :=
    ⟨';' :: ' ' :: (explanation.toList.flatMap commented ++ ['\n']), by
      rw [toList_commentBlock]; simp⟩
  have hends : endsLine '\n' = true := rfl
  rw [String.toList_append, hblock, List.append_assoc, List.singleton_append, pieces, pieces,
    pieces, List.splitOnP_append_cons _ _ hends, List.splitOnP_append_cons _ _ hends,
    List.splitOnP_nil, List.filter_append, List.filter_append]
  simp [Program.instructs]

/--
**An explanation goes in front of a program and leaves it as it is.** Its lines are
comments. To a controller it is nothing but comments, and the program holds the
instructions that it held before, exactly when nothing but comments stands behind its
carriage returns.
-/
theorem annotated_adds (s : Session) (explanation : String) :
    (s.dispatch (.annotated explanation)).program = commentBlock explanation ++ s.program ∧
      (∀ line ∈ pieces (· = '\n') (commentBlock explanation).toList, Passive line) ∧
      ((∀ piece ∈ pieces endsLine (commentBlock explanation).toList, Passive piece) ↔
        ReturnsPassive explanation.toList) ∧
      ((pieces endsLine (s.dispatch (.annotated explanation)).program.toList).filter
            Program.instructs =
          (pieces endsLine s.program.toList).filter Program.instructs ↔
        ReturnsPassive explanation.toList) := by
  refine ⟨rfl, passive_commentBlock_newline explanation, passive_commentBlock_iff explanation, ?_⟩
  rw [dispatch, filter_instructs_annotated, List.append_left_eq_self, filter_instructs_eq_nil_iff,
    passive_commentBlock_iff]

-- Behind a carriage return, the end of the program is an instruction like any other.
example : (pieces endsLine (commentBlock "Read on.\rM30").toList).filter Program.instructs =
    ["M30".toList] := by
  decide

end Session

end Milling
