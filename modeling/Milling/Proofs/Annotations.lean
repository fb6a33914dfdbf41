import Milling.Assistant
import Milling.Proofs.History
import Milling.Proofs.Lines

/-!
# What an explained program still holds

A service is shown the beginning of a program, and what it answers goes in front of
all of it. Both can be told apart again afterwards. The block of comments ends at the
first empty line of the text: every line of an explanation has a mark in front of it,
so none of them is empty, however many line feeds the explanation has and wherever
they stand. `parted?` reads an explained program in this way, and `peeled?` does so
again and again.

What a service is shown can be seen from outside only if it is kept, so the services
here keep it. A service that explains nothing, or cannot be reached, still leaves an
explanation behind, and never an empty one.
-/

namespace Milling

namespace Text

theorem newline_not_mem_of_mem_splitLines {s line : List Char} (h : line ∈ splitLines s) :
    '\n' ∉ line := by
  induction s generalizing line with
  | nil =>
      rw [List.mem_singleton.mp h]
      exact List.not_mem_nil
  | cons c s ih =>
      rw [splitLines] at h
      by_cases hc : c = '\n'
      · rw [if_pos hc] at h
        rcases List.mem_cons.mp h with rfl | h
        · exact List.not_mem_nil
        · exact ih h
      · obtain ⟨first, rest, hs⟩ := List.exists_cons_of_ne_nil (splitLines_ne_nil s)
        rw [if_neg hc, hs] at h
        rcases List.mem_cons.mp h with rfl | h
        · intro hmem
          rcases List.mem_cons.mp hmem with hmem | hmem
          · exact hc hmem.symm
          · exact ih (hs ▸ List.mem_cons_self) hmem
        · exact ih (hs ▸ List.mem_cons_of_mem _ h)

/-- Joined lines with a line feed behind them are cut into these lines again. -/
theorem splitLines_joinLines_append {lines : List (List Char)} (hne : lines ≠ [])
    (h : ∀ line ∈ lines, '\n' ∉ line) (rest : List Char) :
    splitLines (joinLines lines ++ '\n' :: rest) = lines ++ splitLines rest := by
  induction lines with
  | nil => exact absurd rfl hne
  | cons line lines ih =>
      have hline : '\n' ∉ line := h line List.mem_cons_self
      cases lines with
      | nil => exact splitLines_append hline rest
      | cons next lines =>
          have hlines := ih (List.cons_ne_nil _ _) fun l hl => h l (List.mem_cons_of_mem _ hl)
          rw [joinLines, List.append_assoc, List.cons_append, splitLines_append hline, hlines]
          · rfl
          · exact List.cons_ne_nil _ _

end Text

namespace Session

open Text (splitLines joinLines)

/-! ## Reading an explained program -/

/-- What stands behind the mark of a comment line. -/
def unmarked? : List Char → Option (List Char)
  | ';' :: ' ' :: text => some text
  | _ => none

/--
An explanation and the program behind it. The first empty line parts them: above it
stands the explanation, each line behind a mark, and below it the program.
-/
def parted? (text : String) : Option (String × String) :=
  let lines := splitLines text.toList
  match lines.dropWhile (!·.isEmpty) with
  | [] => none
  | _ :: below => do
    let above ← (lines.takeWhile (!·.isEmpty)).mapM unmarked?
    return (String.ofList (joinLines above), String.ofList (joinLines below))

/-- Takes explanations off a text, from the one in front to those behind it. -/
def peeled? : ℕ → String → Option (List String × String)
  | 0, text => some ([], text)
  | n + 1, text => do
    let (explanation, rest) ← parted? text
    let (explanations, last) ← peeled? n rest
    return (explanation :: explanations, last)

/-- The lines of an explained program: those of the explanation, an empty one, the program's. -/
theorem splitLines_explained (explanation program : String) :
    splitLines (commentBlock explanation ++ program).toList =
      (splitLines explanation.toList).map (fun line => ';' :: ' ' :: line) ++
        [] :: splitLines program.toList := by
  have hlines : ∀ line ∈ (splitLines explanation.toList).map fun line => ';' :: ' ' :: line,
      '\n' ∉ line := by
    intro line hline hmem
    obtain ⟨inner, hinner, rfl⟩ := List.mem_map.mp hline
    rcases List.mem_cons.mp hmem with hmem | hmem
    · exact absurd hmem (by decide)
    · rcases List.mem_cons.mp hmem with hmem | hmem
      · exact absurd hmem (by decide)
      · exact Text.newline_not_mem_of_mem_splitLines hinner hmem
  have hne : (splitLines explanation.toList).map (fun line => ';' :: ' ' :: line) ≠ [] := by
    rw [ne_eq, List.map_eq_nil_iff]
    exact Text.splitLines_ne_nil _
  rw [commentBlock, String.toList_append, String.toList_ofList, List.append_assoc,
    List.cons_append, List.singleton_append, Text.splitLines_joinLines_append hne hlines,
    Text.splitLines, if_pos rfl]

/-- **An explanation and its program are read back as they were**, whatever they are. -/
theorem parted?_explained (explanation program : String) :
    parted? (commentBlock explanation ++ program) = some (explanation, program) := by
  -- the mark keeps a line above the empty one from being empty
  have hmarked : ∀ line ∈ (splitLines explanation.toList).map (fun line => ';' :: ' ' :: line),
      (!line.isEmpty) = true := by
    intro line hline
    obtain ⟨inner, -, rfl⟩ := List.mem_map.mp hline
    rfl
  have hbare : ((splitLines explanation.toList).map fun line => ';' :: ' ' :: line).mapM unmarked? =
      some (splitLines explanation.toList) := by
    rw [List.mapM_map]
    show (splitLines explanation.toList).mapM (fun line => (pure line : Option _)) = _
    rw [List.mapM_pure, List.map_id']
    rfl
  rw [parted?, splitLines_explained, List.dropWhile_append_of_pos hmarked,
    List.takeWhile_append_of_pos hmarked, List.dropWhile_cons_of_neg (by decide),
    List.takeWhile_cons_of_neg (by decide), List.append_nil, hbare]
  dsimp only
  rw [Option.bind_eq_bind, Option.bind_some, Text.joinLines_splitLines, Text.joinLines_splitLines,
    String.ofList_toList, String.ofList_toList]
  rfl

theorem preamble_nil : preamble [] = "" := rfl

theorem preamble_cons (explanation : String) (given : List String) :
    preamble (explanation :: given) = preamble given ++ commentBlock explanation := by
  rw [preamble, List.reverse_cons, List.map_append, List.map_singleton, preamble,
    commentBlock_eq_block]
  simp

/-- The explanation given last is the first to come off. -/
theorem peeled?_preamble (given : List String) (program : String) :
    peeled? given.length (preamble given ++ program) = some (given.reverse, program) := by
  induction given using List.reverseRecOn with
  | nil =>
      rw [preamble_nil, String.empty_append]
      rfl
  | append_singleton given explanation ih =>
      rw [List.length_append, List.length_singleton, preamble_concat, String.append_assoc, peeled?,
        parted?_explained]
      dsimp only [Option.bind_eq_bind, Option.bind_some]
      rw [ih, List.reverse_append]
      rfl

end Session

namespace Assistant

open Text (splitLines)
open Session (commentBlock preamble preamble_nil preamble_cons splitLines_explained parted? peeled?
  parted?_explained peeled?_preamble)

/-! ## Asking a service -/

/-- A service that keeps what it is shown. -/
def recording (answer : String → Except Fault String) (text : String) :
    StateM (List String) (Except Fault String) := do
  modify (· ++ [text])
  return answer text

section Consult

variable {m : Type → Type} [Monad m]

/-- Has the program of a session explained, and lets the session know. -/
def consult (service : String → m (Except Fault String)) (s : Session) : m Session := do
  match ← annotation? service s.program with
  | some event => return s.dispatch event
  | none => return s

/-- Has the program explained by one service after the other. -/
def consultAll (services : List (String → m (Except Fault String))) (s : Session) : m Session :=
  services.foldlM (fun s service => consult service s) s

end Consult

/-- What is shown to services that are asked one after the other, and what each explains. -/
def exchange : List (String → Except Fault String) → String → List (String × String)
  | [], _ => []
  | answer :: answers, program =>
    let explanation := explanationOf (answer (shown program))
    (shown program, explanation) :: exchange answers (commentBlock explanation ++ program)

theorem length_exchange : ∀ (answers : List (String → Except Fault String)) (program : String),
    (exchange answers program).length = answers.length
  | [], _ => rfl
  | answer :: answers, program => by
      rw [exchange, List.length_cons, List.length_cons, length_exchange answers]

variable {answer : String → Except Fault String} {s : Session}

theorem explanationOf_ne_empty (reply : Except Fault String) : explanationOf reply ≠ "" := by
  have hfailed : unreachable ≠ "" := by decide
  have hsilent : nothingSaid ≠ "" := by decide
  cases reply with
  | error fault => exact hfailed
  | ok text =>
      rw [explanationOf]
      by_cases h : text = ""
      · rw [if_pos h]
        exact hsilent
      · rwa [if_neg h]

theorem run_annotation? {program : String} (h : program ≠ "") (seen : List String) :
    (annotation? (recording answer) program).run seen =
      (some (.annotated (explanationOf (answer (shown program)))), seen ++ [shown program]) := by
  rw [annotation?, if_neg h]
  rfl

/-- An explained program is not empty, so it can be explained again. -/
theorem program_ne_empty (explanation program : String) :
    commentBlock explanation ++ program ≠ "" := by
  intro h
  have hlines := congrArg (fun text => (splitLines text.toList).length) h
  rw [splitLines_explained, List.length_append, List.length_map, List.length_cons] at hlines
  have hempty : (splitLines "".toList).length = 1 := rfl
  have hpos := List.length_pos_of_ne_nil (Text.splitLines_ne_nil program.toList)
  omega

theorem run_consult (h : s.program ≠ "") (seen : List String) :
    (consult (recording answer) s).run seen =
      (s.dispatch (.annotated (explanationOf (answer (shown s.program)))),
        seen ++ [shown s.program]) := by
  rw [consult, StateT.run_bind, run_annotation? h]
  rfl

/-- **Explanations pile up in front of the program**, and nothing else of a session changes. -/
theorem run_consultAll : ∀ (answers : List (String → Except Fault String)) {s : Session}
    (seen : List String), s.program ≠ "" →
    ∃ t, (consultAll (answers.map recording) s).run seen =
        (t, seen ++ (exchange answers s.program).map Prod.fst) ∧
      t.drawing = s.drawing ∧ t.machine = s.machine ∧
      t.program = preamble ((exchange answers s.program).map Prod.snd) ++ s.program
  | [], s, seen, _ => by
      refine ⟨s, ?_, rfl, rfl, ?_⟩
      · rw [exchange, List.map_nil, List.map_nil, List.append_nil]
        rfl
      · rw [exchange, List.map_nil, preamble_nil, String.empty_append]
  | answer :: answers, s, seen, h => by
      let next := s.dispatch (.annotated (explanationOf (answer (shown s.program))))
      obtain ⟨t, hrun, hdrawing, hmachine, hprogram⟩ :=
        run_consultAll answers (s := next) (seen ++ [shown s.program]) (program_ne_empty _ _)
      refine ⟨t, ?_, hdrawing, hmachine, ?_⟩
      · rw [List.map_cons, consultAll, List.foldlM_cons, StateT.run_bind, run_consult h]
        rw [List.append_assoc] at hrun
        exact hrun
      · rw [hprogram, exchange, List.map_cons, preamble_cons, String.append_assoc]
        rfl

/-- What comes of showing the program of a session to a service. -/
structure Explained (answer : String → Except Fault String) (s : Session) (seen : List String)
    (given explanation : String) : Prop where
  /-- The service is asked once, and an event comes of it. -/
  asked : (annotation? (recording answer) s.program).run seen =
    (some (.annotated explanation), seen ++ [given])
  /-- It is given the beginning of the program, which is all of a short one. -/
  beginning : given.toList = s.program.toList.take (min 5000 s.program.length)
  said : explanation ≠ ""
  reply : ∀ text, answer given = .ok text → text ≠ "" → explanation = text
  silence : answer given = .ok "" → explanation = "Could not generate explanation."
  failure : ∀ fault, answer given = .error fault → explanation = "Error connecting to AI service."
  drawing : (s.dispatch (.annotated explanation)).drawing = s.drawing
  machine : (s.dispatch (.annotated explanation)).machine = s.machine
  mode : (s.dispatch (.annotated explanation)).mode = .manual
  /-- The explanation can be told from the program, and the program is all there. -/
  parted : parted? (s.dispatch (.annotated explanation)).program = some (explanation, s.program)

theorem explained_of_program (h : s.program ≠ "") (seen : List String) :
    Explained answer s seen (shown s.program) (explanationOf (answer (shown s.program))) where
  asked := run_annotation? h seen
  beginning := by
    rw [shown, String.toList_ofList, shownLimit, ← String.length_toList, List.take_eq_take_min]
  said := explanationOf_ne_empty _
  reply := by
    intro text hanswer hne
    rw [hanswer, explanationOf, if_neg hne]
  silence := by
    intro hanswer
    rw [hanswer]
    rfl
  failure := by
    intro fault hanswer
    rw [hanswer]
    rfl
  drawing := rfl
  machine := rfl
  mode := rfl
  parted := parted?_explained _ _

/--
**Explaining a program loses nothing.** A service sees the beginning of it and always
leaves an explanation, which can be read off the session's text again with the whole
program behind it. An empty program is shown to nobody. Where services are asked one
after the other, their explanations come off in reverse order, down to the program.
-/
theorem explained_parted (s : Session) (h : s.program ≠ "") (seen : List String) :
    (∀ answer, ∃ given explanation, Explained answer s seen given explanation) ∧
      (∀ answer, (annotation? (recording answer) "").run seen = (none, seen)) ∧
      ∀ answers : List (String → Except Fault String), ∃ t,
        (consultAll (answers.map recording) s).run seen =
          (t, seen ++ (exchange answers s.program).map Prod.fst) ∧
        t.drawing = s.drawing ∧ t.machine = s.machine ∧
        peeled? answers.length t.program =
          some (((exchange answers s.program).map Prod.snd).reverse, s.program) := by
  refine ⟨?_, ?_, ?_⟩
  · intro answer
    exact ⟨_, _, explained_of_program h seen⟩
  · intro answer
    rfl
  · intro answers
    obtain ⟨t, hrun, hdrawing, hmachine, hprogram⟩ := run_consultAll answers seen h
    have hlength : answers.length = ((exchange answers s.program).map Prod.snd).length := by
      rw [List.length_map, length_exchange]
    refine ⟨t, hrun, hdrawing, hmachine, ?_⟩
    rw [hprogram, hlength]
    exact peeled?_preamble _ _

/-- A session whose program was written by hand. -/
def byHand : Session := ⟨.empty, .standard, "G00 X0", .manual⟩

/-- An answer that tries to look like the end of its block, and a service that is not there. -/
def replies : List (String → Except Fault String) :=
  [fun _ => .ok "Goes home.\n\n; Done.\n", fun _ => .error (.explanation "offline")]

theorem explained_parted_byHand :
    byHand.program ≠ "" ∧ ∃ t,
      (consultAll (replies.map recording) byHand).run [] =
        (t, ["G00 X0", "; Goes home.\n; \n; ; Done.\n; \n\nG00 X0"]) ∧
      peeled? 2 t.program =
        some (["Error connecting to AI service.", "Goes home.\n\n; Done.\n"], "G00 X0") := by
  have h : byHand.program ≠ "" := by decide
  obtain ⟨t, hrun, -, -, hpeeled⟩ := (explained_parted byHand h []).2.2 replies
  refine ⟨h, t, ?_, ?_⟩
  · rw [hrun]
    exact congrArg (Prod.mk t) (by decide)
  · exact hpeeled.trans (by decide)

end Assistant

end Milling
