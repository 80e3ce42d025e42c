import QuoteLisp.Eval.Reduce
import QuoteLisp.Proofs.Source.Continuation

/-! Texts on lines below one another: they are parsed to the expressions of the one and then those of the other, and a
file that holds them is loaded like one file after the other. -/

namespace QuoteLisp

variable {H : Type}

section Text

variable {comments : Bool}

/-- The tokens of two texts with a new line between them: the new line ends the last token of the first one, and a
comment too. -/
theorem Tokenizes.newLine {one two : List Char} {tokens others : List Token} (first : Tokenizes comments one tokens)
    (second : Tokenizes comments two others) : Tokenizes comments (one ++ '\n' :: two) (tokens ++ others) := by
  obtain ⟨blanks, layout, reads⟩ := Reads.of_tokenizes first
  have longer := reads.extend fun token last =>
    (⟨fun _ => ⟨two, rfl⟩, fun point => by cases layout '.' (by simp [point])⟩ : token.Firm blanks ('\n' :: two))
  exact longer.tokenizes (.blanks layout (.blank (by decide) second))

/-- Tokens one after the other spell the trees of the ones and then those of the others. -/
theorem Spells.append {depth : Nat} {tokens others : List Token} {nodes more : List Node}
    (first : Spells depth tokens nodes) (second : Spells depth others more) :
    Spells depth (tokens ++ others) (nodes ++ more) := by
  induction first with
  | nil => exact second
  | atom isAtom _ ih => exact .atom isAtom (ih second)
  | list inner _ _ ih =>
    rw [List.append_assoc, List.cons_append]
    exact .list inner (ih second)

/-- Two texts that are accepted are accepted below one another, with the expressions of both. -/
theorem parse_below {one two : String} {tree tree' : Node} (first : parse comments one = .ok tree)
    (second : parse comments two = .ok tree') :
    parse comments (one ++ "\n" ++ two) = .ok (.branch .program (tree.children ++ tree'.children)) := by
  obtain ⟨nodes, done, rfl⟩ := parse_eq_ok.mp first
  obtain ⟨more, done', rfl⟩ := parse_eq_ok.mp second
  obtain ⟨tokens, tokenizes, spells⟩ := parseNodes_eq_ok.mp done
  obtain ⟨others, tokenizes', spells'⟩ := parseNodes_eq_ok.mp done'
  -- What is accepted is a program node over what the tokens spell.
  refine parse_eq_ok.mpr ⟨nodes ++ more, parseNodes_eq_ok.mpr ⟨tokens ++ others, ?_, spells.append spells'⟩, rfl⟩
  simpa using tokenizes.newLine tokenizes'

end Text

section Programs

/-- One step after another, unless the first one gives a wish to quit, which is then the result. -/
def Eval.thenUnlessQuit (first second : Eval H (Value H)) : Eval H (Value H) := do
  match ← first with
  | .quit code => pure (.quit code)
  | _ => second

/-- Expressions one after the other are run as two programs. -/
theorem runProgram_append (reduce : Reducer H) (front back : List (Value H)) :
    runProgram reduce (front ++ back) = (runProgram reduce front).thenUnlessQuit (runProgram reduce back) := by
  -- By induction on the first program; each of its expressions ends the run, or the rest of it decides.
  induction front with
  | nil => rfl
  | cons expr others ih =>
    funext s
    simp only [List.cons_append, runProgram, Eval.thenUnlessQuit, Eval.bind_apply, ih]
    cases guardedWith reduce expr s with
    | mk result t =>
      cases result with
      | error e => rfl
      | ok value => cases value <;> rfl

/-- Only a fatal failure gets through where others become error values. -/
theorem isFatal_of_guardedWith {reduce : Reducer H} {expr : Value H} {e : Error} {s t : State H}
    (failed : guardedWith reduce expr s = (.error e, t)) : e.isFatal := by
  simp only [guardedWith, Eval.outcome, Eval.bind_apply] at failed
  cases evaluated : evalWith reduce expr s with
  | mk outcome u =>
    rw [evaluated] at failed
    cases outcome with
    | ok value => cases failed
    | error e' =>
      by_cases fatal : e'.isFatal
      · simp only [if_pos fatal, Eval.fail_apply] at failed
        cases failed
        exact fatal
      · simp only [if_neg fatal] at failed
        cases failed

/-- Only a fatal failure ends a program. -/
theorem isFatal_of_runProgram {reduce : Reducer H} {program : List (Value H)} {e : Error} {s t : State H}
    (failed : runProgram reduce program s = (.error e, t)) : e.isFatal := by
  induction program generalizing s with
  | nil => cases failed
  | cons expr others ih =>
    simp only [runProgram, Eval.bind_apply] at failed
    cases evaluated : guardedWith reduce expr s with
    | mk outcome u =>
      rw [evaluated] at failed
      cases outcome with
      | error e' =>
        cases failed
        exact isFatal_of_guardedWith evaluated
      | ok value =>
        cases value with
        | quit code => cases failed
        | _ => exact ih failed

/-- A file whose expressions are found is run as the program that they are, whatever reduces them. -/
theorem loadWith_of_program {folder : Folder} {path : String} {program : List (Value H)}
    (found : folder.program path = .ok program) (reduce : Reducer H) :
    loadWith folder reduce path = runProgram reduce program := by
  funext s
  rw [loadWith, found]
  rfl

/-- A file whose expressions are found is run as the program that they are. -/
theorem Machine.load_of_program (m : Machine H) {path : String} {program : List (Value H)}
    (found : m.folder.program path = .ok program) : m.load path = runProgram m.reducer program :=
  loadWith_of_program found m.reducer

/-- A file that can be read and parsed is run as the program it holds. -/
theorem Machine.load_of_parse (m : Machine H) {path source : String} {tree : Node}
    (file : m.folder.read path = .ok source) (parses : parse true source = .ok tree) :
    m.load path = runProgram m.reducer (readAll tree.children) := by
  refine m.load_of_program ?_
  simp only [Folder.program, file, parses]

end Programs

/-- Loading is compositional. Two texts that are accepted are accepted with a new line between them, and the root has
the children of the first and then those of the second. A file of the joined text is loaded, from every state, like
the one file and then the other: with the same outcome, the same state and the same printed text; what is left of the
state after the first file is where the second one starts, unless the first gives a wish to quit or fails, and then its
failure is fatal. -/
theorem loading_is_compositional (one two : String) :
    (∀ (comments : Bool) (tree tree' : Node), parse comments one = .ok tree → parse comments two = .ok tree' →
      parse comments (one ++ "\n" ++ two) = .ok (.branch .program (tree.children ++ tree'.children))) ∧
    ∀ (m : Machine H) (tree tree' : Node) (joined first second : String),
      parse true one = .ok tree → parse true two = .ok tree' →
      m.folder.read joined = .ok (one ++ "\n" ++ two) → m.folder.read first = .ok one →
      m.folder.read second = .ok two →
      ∀ s : State H, m.load joined s = (m.load first).thenUnlessQuit (m.load second) s ∧
        ∀ e t, m.load first s = (.error e, t) → e.isFatal := by
  refine ⟨fun comments tree tree' => parse_below, ?_⟩
  intro m tree tree' joined first second parses parses' joinedFile firstFile secondFile s
  rw [m.load_of_parse joinedFile (parse_below parses parses'), m.load_of_parse firstFile parses,
    m.load_of_parse secondFile parses']
  refine ⟨?_, fun e t => isFatal_of_runProgram⟩
  have children : (Node.branch .program (tree.children ++ tree'.children)).children =
      tree.children ++ tree'.children := rfl
  rw [children, readAll_append, runProgram_append]

/-- The new line ends the comment of the first text, and what that text binds is seen by the second one. -/
theorem loading_is_compositional_comment :
    let m := Machine.plain 8 ⟨[("both", .text "(def {a} 2) ; two\n(exit a)"), ("one", .text "(def {a} 2) ; two"),
      ("two", .text "(exit a)")]⟩
    (∃ tree tree', parse true "(def {a} 2) ; two" = .ok tree ∧ parse true "(exit a)" = .ok tree' ∧
      parse true "(def {a} 2) ; two\n(exit a)" = .ok (.branch .program (tree.children ++ tree'.children))) ∧
    ∀ s, m.load "both" s = (m.load "one").thenUnlessQuit (m.load "two") s := by
  intro m
  obtain ⟨tree, parses⟩ : ∃ tree, parse true "(def {a} 2) ; two" = .ok tree := ⟨_, parse_of_assemble rfl⟩
  obtain ⟨tree', parses'⟩ : ∃ tree, parse true "(exit a)" = .ok tree := ⟨_, parse_of_assemble rfl⟩
  have composed := loading_is_compositional (H := Empty) "(def {a} 2) ; two" "(exit a)"
  exact ⟨⟨tree, tree', parses, parses', composed.1 true tree tree' parses parses'⟩, fun s =>
    (composed.2 m tree tree' "both" "one" "two" parses parses' rfl rfl rfl s).1⟩

end QuoteLisp
