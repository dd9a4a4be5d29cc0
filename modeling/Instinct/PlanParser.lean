/-
Instinct/PlanParser.lean

`LLMCompilerPlanerThoughtOutputParser::ParseResult`: the task graph that a
planner's text becomes.

The actions of the text are found by a regular expression, each becomes a task,
and the references in its arguments become its dependencies.  A `join` ends the
plan; where there is none, one is added.  Object ids are handed to the parser:
`ids n` is the id of the `n`-th task.

`Plan` is what the planner is asked for, a list of lines `i. name(arguments)`,
and `Plan.text` is its text.  On any such line the expression matches, with the
name up to the last opening and the arguments up to the first closing
parenthesis (`matchAt_actionRegex`).  So the graph is the plan exactly when the
plan is readable (`parseResult_follows_iff`).
-/
import Instinct.Agent
import Instinct.Patterns
import Instinct.Placeholders
import Mathlib.Data.List.Forall2
import Mathlib.Data.List.TakeWhile
import Mathlib.Algebra.Group.Int.Defs

namespace Instinct

open Patterns

/-! ### The expressions -/

/-- `.`: any character but a line break. -/
def isInLine (c : Char) : Bool := c ≠ '\n' && c ≠ '\r'

/-- `\(([^\)]*)\)` -/
def argumentsRegex : List (Piece Char) :=
  [.one (· = '('), .many (· ≠ ')'), .one (· = ')')]

/-- `(\d+)\.\s*(.+)\(([^\)]*)\)` -/
def actionRegex : List (Piece Char) :=
  [.some Char.isDigit, .one (· = '.'), .many isSpace, .some isInLine] ++ argumentsRegex

/-- `Thought:\s*(.+)` -/
def thoughtRegex : List (Piece Char) :=
  ("Thought:".toList.map fun c => .one (· = c)) ++ [.many isSpace, .some isInLine]

/-- The groups of a match of `ACTION_REGEX`. -/
structure ActionMatch where
  index : List Char
  name : List Char
  arguments : List Char
  deriving Repr, DecidableEq

/-- `action_match[1]`, `action_match[2]` and `action_match[3]`. -/
def ActionMatch.ofRuns (runs : List (List Char)) : ActionMatch where
  index := runs.getD 0 []
  name := runs.getD 3 []
  arguments := runs.getD 5 []

/-- `StringUtils::MatchPattern(content, ACTION_REGEX)`. -/
def actionMatches (content : List Char) : List ActionMatch :=
  (matches? actionRegex content).map .ofRuns

/-- The first group of the first match of `THOUGHT_REGEX`. -/
def thoughtLine (content : List Char) : List Char :=
  match matches? thoughtRegex content with
  | [] => []
  | runs :: _ => runs.getLastD []

/-! ### `ParseResult` -/

def endOfPlan : List Char := "<END_OF_PLAN>".toList

/-- `content.substr(0, content.find(marker))`, the whole text where the marker is not found. -/
def clipBefore (marker : List Char) : List Char → List Char
  | [] => []
  | c :: cs => if marker.isPrefixOf (c :: cs) then [] else c :: clipBefore marker cs

/-- `std::stol` of a text of digits. -/
def stol (digits : List Char) : Except Exn Int :=
  if Nat.ofDigitChars 10 digits 0 < 2 ^ 63 then .ok (Nat.ofDigitChars 10 digits 0)
  else .error (.other "stol: out of range")

/-- The dependencies that the arguments of a task name. -/
def namedDependencies (idx : Int) (arguments : List Char) : Except Exn (List Int) :=
  (dependencyMatches 0 arguments).mapM fun found => do
    assertTrue ((found.2 : Int) < idx) "Resolved invalid dependeant task index."
    pure (found.2 : Int)

/-- `1, ..., n`. -/
def firstIndices (n : Nat) : List Int := (List.range' 1 n).map Int.ofNat

/-- The dependencies that a `join` gets besides: the loop counts with an `int`. -/
def joinDependencies (idx : Int) : Except Exn (List Int) :=
  if idx < 2 ^ 31 then .ok (firstIndices (idx.toNat - 1))
  else .error (.undefinedBehaviour "i < idx")

/-- The tool call of a task. -/
def functionCall (id : String) (name arguments : String) : ToolCallObject where
  id := id
  type := .function
  function := some { name := name, arguments := arguments }

/-- The task of a match. -/
def planTask (id : String) (idx : Int) (found : ActionMatch) (dependencies : List Int) :
    LLMCompilerTask where
  index := idx
  toolCall := functionCall id (String.ofList found.name) (String.ofList found.arguments)
  dependencies := dependencies

/-- The tasks of the matches, up to the first `join`.  `n` tasks are there already. -/
def planTasks (ids : Nat → String) : Nat → List ActionMatch →
    Except Exn (List LLMCompilerTask)
  | _, [] => .ok []
  | n, found :: rest => do
      let idx ← stol found.index
      let dependencies ← namedDependencies idx found.arguments
      if (planTask (ids n) idx found dependencies).isJoin then do
        let earlier ← joinDependencies idx
        pure [planTask (ids n) idx found (dependencies ++ earlier)]
      else do
        let tasks ← planTasks ids (n + 1) rest
        pure (planTask (ids n) idx found dependencies :: tasks)

/-- Fill in a `join` where the plan has none. -/
def withJoin (ids : Nat → String) (tasks : List LLMCompilerTask) : List LLMCompilerTask :=
  if tasks.any (·.isJoin) then tasks
  else tasks ++
    [{ index := tasks.length + 1
       toolCall := functionCall (ids tasks.length) "join" ""
       dependencies := firstIndices tasks.length }]

/-- The tasks that are asked for at once: those without dependencies. -/
def firstCalls (tasks : List LLMCompilerTask) : List ToolCallObject :=
  (tasks.filter fun task => !task.isJoin && task.dependencies.isEmpty).map (·.toolCall)

/-- The thought that asks for the tasks; a finish where there are none. -/
def planThought (ids : Nat → String) (content : List Char) (tasks : List LLMCompilerTask) :
    AgentThought :=
  if tasks = [] then .finish { response := String.ofList content }
  else .continuation
    { toolCallMessage := some
        { content := String.ofList (thoughtLine content)
          toolCalls := firstCalls tasks }
      custom := .taskGraph { tasks := withJoin ids tasks } }

/-- `ParseResult`, from the text of the generation. -/
def parseResult (ids : Nat → String) (content : String) : Except Exn AgentThought := do
  let tasks ← planTasks ids 0 (actionMatches (clipBefore endOfPlan content.toList))
  pure (planThought ids (clipBefore endOfPlan content.toList) tasks)

/-! ### The match on one line -/

section Line

variable {digits name arguments w v tail : List Char}

/-- What `[^\)]*` takes. -/
def upToClosing (v : List Char) : List Char := v.takeWhile (· ≠ ')')

/-- How many characters `\s*` takes in front of a name: it leaves one to `.+`. -/
def blanksBefore (w : List Char) : Nat := min (w.takeWhile isSpace).length (w.length - 1)

/-- What `[^\)]*` takes is followed by a closing parenthesis. -/
theorem exists_closing (v tail : List Char) :
    ∃ rest, v ++ ')' :: tail = upToClosing v ++ ')' :: rest := by
  induction v with
  | nil => exact ⟨tail, rfl⟩
  | cons c v ih =>
      by_cases hc : c = ')'
      · subst hc
        exact ⟨v ++ ')' :: tail, by simp [upToClosing]⟩
      · obtain ⟨rest, hrest⟩ := ih
        refine ⟨rest, ?_⟩
        rw [List.cons_append, hrest]
        simp [upToClosing, hc]

theorem matchAt_argumentsRegex :
    matchAt argumentsRegex ('(' :: (v ++ ')' :: tail))
      = some [['('], upToClosing v, [')']] := by
  obtain ⟨rest, hrest⟩ := exists_closing v tail
  rw [argumentsRegex, matchAt_one_cons (by simp), hrest,
    matchAt_run rfl (Nat.zero_le _) (fun c hc => ?_) (by simp) (matchAt_one_cons (by simp))]
  · rfl
  · exact List.mem_takeWhile_imp hc

/-- Behind the last opening parenthesis of the line no arguments begin. -/
theorem matchAt_argumentsRegex_none {j : Nat} (hinv : ∀ c ∈ v, isInLine c = true ∧ c ≠ '(')
    (htail : ∀ c ∈ tail.head?, isInLine c = false) (hj : j ≤ v.length + 1) :
    matchAt argumentsRegex ((v ++ ')' :: tail).drop j) = none := by
  refine matchAt_one_of_not fun c hc => ?_
  rw [List.head?_drop] at hc
  rcases Nat.lt_trichotomy j v.length with hlt | rfl | hgt
  · rw [List.getElem?_append_left hlt] at hc
    simpa using (hinv c (List.mem_of_getElem? hc)).2
  · rw [List.getElem?_append_right (Nat.le_refl _), Nat.sub_self] at hc
    obtain rfl := Option.some.inj hc
    rfl
  · rw [List.getElem?_append_right (by omega), show j - v.length = 1 by omega,
      List.getElem?_cons_succ, ← List.head?_eq_getElem?] at hc
    have hbreak := htail c hc
    rw [decide_eq_false_iff_not]
    rintro rfl
    cases hbreak

/-- `.+` reaches to the end of the line. -/
theorem reach_line (hinw : ∀ c ∈ w, isInLine c = true)
    (hinv : ∀ c ∈ v, isInLine c = true ∧ c ≠ '(') (htail : ∀ c ∈ tail.head?, isInLine c = false) :
    (Piece.some isInLine).reach (w ++ '(' :: (v ++ ')' :: tail)) = w.length + v.length + 2 := by
  have hsplit : w ++ '(' :: (v ++ ')' :: tail) = (w ++ '(' :: (v ++ [')'])) ++ tail := by simp
  rw [hsplit, reach_append rfl (fun c hc => ?_) htail]
  · simp only [List.length_append, List.length_cons, List.length_nil]
    omega
  · simp only [List.mem_append, List.mem_cons, List.not_mem_nil, or_false] at hc
    rcases hc with hc | rfl | hc | rfl
    · exact hinw c hc
    · rfl
    · exact (hinv c hc).1
    · rfl

/-- `.+` takes the name up to the last opening parenthesis of the line. -/
theorem matchAt_nameRegex (hw : w ≠ []) (hinw : ∀ c ∈ w, isInLine c = true)
    (hinv : ∀ c ∈ v, isInLine c = true ∧ c ≠ '(') (htail : ∀ c ∈ tail.head?, isInLine c = false) :
    matchAt (.some isInLine :: argumentsRegex) (w ++ '(' :: (v ++ ')' :: tail))
      = some [w, ['('], upToClosing v, [')']] := by
  have hreach := reach_line hinw hinv htail
  have h := @matchAt_cons _ (.some isInLine) argumentsRegex (w ++ '(' :: (v ++ ')' :: tail))
    w.length _ (List.length_pos_iff.mpr hw) (by omega)
    (by rw [List.drop_left]; exact matchAt_argumentsRegex) fun m hm hle => ?_
  · rwa [List.take_left] at h
  · obtain ⟨j, rfl⟩ := Nat.exists_eq_add_of_lt hm
    rw [Nat.add_assoc, List.drop_length_add_append, List.drop_succ_cons]
    exact matchAt_argumentsRegex_none hinv htail (by omega)

/-- **The match on a line.**  The name reaches to the last opening parenthesis, without the
blanks in front of it, and the arguments to the first closing one behind. -/
theorem matchAt_actionRegex (hdigits : digits ≠ []) (hnumber : ∀ c ∈ digits, c.isDigit = true)
    (hw : w ≠ []) (hinw : ∀ c ∈ w, isInLine c = true)
    (hinv : ∀ c ∈ v, isInLine c = true ∧ c ≠ '(') (htail : ∀ c ∈ tail.head?, isInLine c = false) :
    matchAt actionRegex (digits ++ '.' :: (w ++ '(' :: (v ++ ')' :: tail)))
      = some [digits, ['.'], w.take (blanksBefore w), w.drop (blanksBefore w), ['('],
          upToClosing v, [')']] := by
  have hlength := List.length_pos_iff.mpr hw
  refine matchAt_run rfl (List.length_pos_iff.mpr hdigits) hnumber (by simp) ?_
  show matchAt (.one (· = '.') :: .many isSpace :: .some isInLine :: argumentsRegex) _ = _
  rw [matchAt_one_cons (by simp)]
  suffices h : matchAt (.many isSpace :: .some isInLine :: argumentsRegex)
      (w ++ '(' :: (v ++ ')' :: tail))
        = some [w.take (blanksBefore w), w.drop (blanksBefore w), ['('], upToClosing v, [')']] by
    rw [h]
    rfl
  have hreach : (Piece.many isSpace).reach (w ++ '(' :: (v ++ ')' :: tail))
      = (w.takeWhile isSpace).length := by
    show ((w ++ '(' :: (v ++ ')' :: tail)).takeWhile isSpace).length = _
    rw [List.takeWhile_append]
    split
    · rename_i hall
      simp [hall, show isSpace '(' = false from rfl]
    · rfl
  have hk : blanksBefore w ≤ (w.takeWhile isSpace).length := Nat.min_le_left _ _
  have hkw : blanksBefore w ≤ w.length - 1 := Nat.min_le_right _ _
  have hdrop : ∀ m, m ≤ w.length → (w ++ '(' :: (v ++ ')' :: tail)).drop m
      = w.drop m ++ '(' :: (v ++ ')' :: tail) := fun m hm => List.drop_append_of_le_length hm
  have h := @matchAt_cons _ (.many isSpace) (.some isInLine :: argumentsRegex)
    (w ++ '(' :: (v ++ ')' :: tail)) (blanksBefore w) _ (Nat.zero_le _)
    (by rw [hreach]; exact hk)
    (by
      rw [hdrop _ (by omega)]
      refine matchAt_nameRegex (fun hnil => ?_) (fun c hc => hinw c (List.mem_of_mem_drop hc))
        hinv htail
      rw [List.drop_eq_nil_iff] at hnil
      omega)
    fun m hm hle => ?_
  · rwa [List.take_append_of_le_length (by omega)] at h
  · -- one blank more, and nothing is left for the name
    have hrun : (w.takeWhile isSpace).length ≤ w.length := (List.takeWhile_prefix _).length_le
    rw [hreach] at hle
    obtain rfl : m = w.length := by
      rw [blanksBefore] at hm
      omega
    rw [List.drop_left]
    -- `.+` would have to begin with the opening parenthesis
    refine matchAt_cons_none fun n hlow hhigh => ?_
    have hrest := reach_line (w := []) nofun hinv htail
    rw [List.nil_append, List.length_nil] at hrest
    have hlow : 1 ≤ n := hlow
    obtain ⟨j, rfl⟩ := Nat.exists_eq_add_of_le' hlow
    exact matchAt_argumentsRegex_none hinv htail (by omega)

end Line

/-! ### Plans -/

/-- A place in the arguments of a task: a character, or a reference `$k` or `${k}`. -/
inductive Argument
  | char (c : Char)
  | reference (braced : Bool) (index : Nat)
  deriving Repr, DecidableEq

def Argument.text : Argument → List Char
  | .char c => [c]
  | .reference false k => '$' :: Nat.toDigits 10 k
  | .reference true k => '$' :: '{' :: (Nat.toDigits 10 k ++ ['}'])

def Argument.reference? : Argument → Option Nat
  | .char _ => none
  | .reference _ k => some k

/-- A character of the arguments is neither a line break nor a `$`. -/
def Argument.InLine : Argument → Prop
  | .char c => isInLine c = true ∧ c ≠ '$'
  | .reference _ _ => True

instance : DecidablePred Argument.InLine
  | .char _ => inferInstanceAs (Decidable (_ ∧ _))
  | .reference _ _ => inferInstanceAs (Decidable True)

/-- A line of a plan: one line, no parentheses in the name, and `$` in references only. -/
structure PlanLine where
  name : List Char
  arguments : List Argument
  nameInLine : ∀ c ∈ name, isInLine c = true ∧ c ≠ '(' ∧ c ≠ ')'
  argumentsInLine : ∀ argument ∈ arguments, argument.InLine

namespace PlanLine

def argumentsText (line : PlanLine) : List Char := line.arguments.flatMap (·.text)

def references (line : PlanLine) : List Nat := line.arguments.filterMap (·.reference?)

/-- `i. name(arguments)` -/
def text (line : PlanLine) (i : Nat) : List Char :=
  Nat.toDigits 10 i ++ '.' :: (' ' :: line.name ++ '(' :: (line.argumentsText ++ [')']))

def isJoin (line : PlanLine) : Bool := line.name = "join".toList

/-- The line as `ACTION_REGEX` should find it. -/
def found (line : PlanLine) (i : Nat) : ActionMatch where
  index := Nat.toDigits 10 i
  name := line.name
  arguments := line.argumentsText

/-- The expression finds the name and the arguments: the name is not begun by blanks that
`\s*` would take, and the arguments hold no parenthesis. -/
structure Readable (line : PlanLine) : Prop where
  name : line.name.length = 1 ∨ ∃ c ∈ line.name.head?, isSpace c = false
  opening : '(' ∉ line.argumentsText
  closing : ')' ∉ line.argumentsText

end PlanLine

/-- The text of the lines from the index `i` on; the last one may end in a line break. -/
def planText (newline : Bool) : Nat → List PlanLine → List Char
  | _, [] => []
  | i, line :: lines =>
      line.text i ++
        (if lines.isEmpty then (if newline then ['\n'] else [])
        else '\n' :: planText newline (i + 1) lines)

/-- A plan: its lines have the indices `1, 2, ...`, and refer to smaller ones. -/
structure Plan where
  lines : List PlanLine
  backward : ∀ i line, lines[i]? = some line → ∀ k ∈ line.references, 1 ≤ k ∧ k ≤ i

def Plan.text (plan : Plan) (newline : Bool) : String :=
  String.ofList (planText newline 1 plan.lines)

section PlanLine

variable {line : PlanLine} {i : Nat} {name v tail : List Char}

theorem isDigit_of_mem_toDigits {n : Nat} {c : Char} (h : c ∈ Nat.toDigits 10 n) :
    c.isDigit = true := Nat.isDigit_of_mem_toDigits (by decide) (by decide) h

theorem isInLine_of_isDigit {c : Char} (h : c.isDigit = true) : isInLine c = true := by
  have hn : c ≠ '\n' := by
    rintro rfl
    cases h
  have hr : c ≠ '\r' := by
    rintro rfl
    cases h
  simp [isInLine, hn, hr]

/-- The text of the arguments stays on its line. -/
theorem PlanLine.isInLine_argumentsText (line : PlanLine) :
    ∀ c ∈ line.argumentsText, isInLine c = true := by
  intro c hc
  obtain ⟨argument, hmem, hc⟩ := List.mem_flatMap.mp hc
  cases argument with
  | char c' =>
      obtain rfl := List.mem_singleton.mp hc
      exact (line.argumentsInLine _ hmem : isInLine _ = true ∧ _).1
  | reference braced k =>
      cases braced with
      | false =>
          rcases List.mem_cons.mp hc with rfl | hc
          · rfl
          · exact isInLine_of_isDigit (isDigit_of_mem_toDigits hc)
      | true =>
          rcases List.mem_cons.mp hc with rfl | hc
          · rfl
          rcases List.mem_cons.mp hc with rfl | hc
          · rfl
          rcases List.mem_append.mp hc with hc | hc
          · exact isInLine_of_isDigit (isDigit_of_mem_toDigits hc)
          · obtain rfl := List.mem_singleton.mp hc
            rfl

/-- The line up to its last opening parenthesis, and what is behind it. -/
theorem PlanLine.exists_split (line : PlanLine) : ∃ w v,
    ' ' :: line.name ++ '(' :: line.argumentsText = w ++ '(' :: v ∧ '(' ∉ v ∧ w ≠ [] ∧
      ('(' ∉ line.argumentsText → w = ' ' :: line.name ∧ v = line.argumentsText) ∧
      ('(' ∈ line.argumentsText → ∃ u, w = ' ' :: line.name ++ '(' :: u) := by
  by_cases hopen : '(' ∈ line.argumentsText
  · obtain ⟨v, u, hsplit, hnot⟩ := List.eq_append_cons_of_mem (List.mem_reverse.mpr hopen)
    have hargs : line.argumentsText = u.reverse ++ '(' :: v.reverse := by
      have h := congrArg List.reverse hsplit
      simpa using h
    refine ⟨' ' :: line.name ++ '(' :: u.reverse, v.reverse, ?_, by simpa using hnot, by simp,
      fun h => absurd hopen h, fun _ => ⟨_, rfl⟩⟩
    rw [hargs]
    simp
  · exact ⟨_, _, rfl, hopen, by simp, fun _ => ⟨rfl, rfl⟩, fun h => absurd h hopen⟩

theorem upToClosing_eq_self : upToClosing v = v ↔ ')' ∉ v := by
  rw [upToClosing, List.takeWhile_eq_self_iff]
  constructor
  · intro h hmem
    simpa using h _ hmem
  · intro h c hc
    simpa using fun heq : c = ')' => h (heq ▸ hc)

/-- Of the blanks in front of a name `\s*` takes one exactly when the name is readable. -/
theorem blanksBefore_eq_one : blanksBefore (' ' :: name) = 1 ↔
    name.length = 1 ∨ ∃ c ∈ name.head?, isSpace c = false := by
  cases name with
  | nil => simp [blanksBefore]
  | cons c cs =>
      rcases hc : isSpace c with - | -
      · simp [blanksBefore, hc, show isSpace ' ' = true from rfl]
      · simp only [blanksBefore, List.takeWhile_cons, hc, show isSpace ' ' = true from rfl,
          if_true, List.length_cons, List.head?_cons, Option.mem_def, Option.some.injEq,
          exists_eq_left', Bool.true_eq_false, or_false]
        omega

/-- The blanks end in front of the opening parenthesis. -/
theorem blanksBefore_le (w u : List Char) : blanksBefore (w ++ '(' :: u) ≤ w.length := by
  refine (Nat.min_le_left _ _).trans ?_
  rw [List.takeWhile_append]
  split
  · simp [show isSpace '(' = false from rfl]
  · exact (List.takeWhile_prefix _).length_le

/-- The name and the arguments are on the line. -/
theorem isInLine_of_mem {c : Char} (hc : c ∈ ' ' :: line.name ++ '(' :: line.argumentsText) :
    isInLine c = true := by
  rcases List.mem_append.mp hc with hc | hc
  · rcases List.mem_cons.mp hc with rfl | hc
    · rfl
    · exact (line.nameInLine c hc).1
  · rcases List.mem_cons.mp hc with rfl | hc
    · rfl
    · exact line.isInLine_argumentsText c hc

/-- A name that is read up to a later parenthesis is another one. -/
theorem drop_blanks_ne (u : List Char) :
    (' ' :: line.name ++ '(' :: u).drop (blanksBefore (' ' :: line.name ++ '(' :: u))
      ≠ line.name := by
  intro hname
  rw [List.drop_append_of_le_length (blanksBefore_le (' ' :: line.name) u)] at hname
  have hparen : '(' ∈ line.name := by
    rw [← hname]
    simp
  exact (line.nameInLine _ hparen).2.1 rfl

/-- **The match on a line of a plan.**  Something is found on every line; on a readable
line it is the line, on another it has another name or other arguments. -/
theorem actionMatches_text (htail : ∀ c ∈ tail.head?, isInLine c = false) :
    ∃ found rest, actionMatches (line.text i ++ tail) = found :: rest ∧
      found.index = Nat.toDigits 10 i ∧
      (line.Readable → found = line.found i ∧ rest = actionMatches tail) ∧
      (¬ line.Readable → ¬ (found.name = line.name ∧ found.arguments = line.argumentsText)) := by
  obtain ⟨w, v, hsplit, hv, hw, hshut, hopen⟩ := line.exists_split
  have htext : line.text i ++ tail
      = Nat.toDigits 10 i ++ '.' :: (w ++ '(' :: (v ++ ')' :: tail)) := by
    have h := congrArg (· ++ ')' :: tail) hsplit
    simp only [List.append_assoc, List.cons_append] at h
    simp only [PlanLine.text, List.append_assoc, List.cons_append, List.nil_append, h]
  have hin : ∀ c ∈ w ++ '(' :: v, isInLine c = true := fun c hc =>
    isInLine_of_mem (hsplit ▸ hc)
  have hmatch := @matchAt_actionRegex (Nat.toDigits 10 i) w v tail Nat.toDigits_ne_nil
    (fun c hc => isDigit_of_mem_toDigits hc) hw
    (fun c hc => hin c (List.mem_append_left _ hc))
    (fun c hc => ⟨hin c (List.mem_append_right _ (List.mem_cons_of_mem _ hc)),
      fun heq => hv (heq ▸ hc)⟩) htail
  rw [← htext] at hmatch
  have hpos := List.length_pos_iff.mpr (Nat.toDigits_ne_nil (n := i) (b := 10))
  have hwalk := matches?_of_some hmatch (by
    rw [List.flatten_cons, List.length_append]
    omega)
  refine ⟨⟨Nat.toDigits 10 i, w.drop (blanksBefore w), upToClosing v⟩, _,
    congrArg (List.map ActionMatch.ofRuns) hwalk, rfl, fun hline => ?_, fun hline heq => hline ?_⟩
  · obtain ⟨rfl, rfl⟩ := hshut hline.opening
    have hv := upToClosing_eq_self.mpr hline.closing
    have hblank := blanksBefore_eq_one.mpr hline.name
    refine ⟨by rw [hblank, hv]; rfl, ?_⟩
    -- the match is the whole line
    have hflat : [Nat.toDigits 10 i, ['.'],
        (' ' :: line.name).take (blanksBefore (' ' :: line.name)),
        (' ' :: line.name).drop (blanksBefore (' ' :: line.name)), ['('],
        upToClosing line.argumentsText, [')']].flatten = line.text i := by
      rw [hblank, hv]
      simp [PlanLine.text]
    rw [hflat, List.drop_left]
    rfl
  · obtain ⟨hname, hargs⟩ := heq
    have hshut' : '(' ∉ line.argumentsText := by
      intro hmem
      obtain ⟨u, rfl⟩ := hopen hmem
      exact drop_blanks_ne u hname
    obtain ⟨rfl, rfl⟩ := hshut hshut'
    refine ⟨blanksBefore_eq_one.mp ?_, hshut', upToClosing_eq_self.mp hargs⟩
    have hle : blanksBefore (' ' :: line.name) ≤ line.name.length := Nat.min_le_right _ _
    have hlength := congrArg List.length hname
    simp only [List.length_drop, List.length_cons] at hlength
    omega

end PlanLine

/-! ### References -/

section References

open Placeholders

variable {cs : List Char} {idx : Int} {dependencies : List Int}

/-- All dependencies that the arguments name lie below the task, or the parser throws. -/
theorem namedDependencies_eq_ok : namedDependencies idx cs = .ok dependencies ↔
    dependencies = (dependencyMatches 0 cs).map (fun found => (found.2 : Int)) ∧
      ∀ d ∈ dependencies, d < idx := by
  unfold namedDependencies
  induction dependencyMatches 0 cs generalizing dependencies with
  | nil =>
      constructor
      · intro h
        obtain rfl := Except.ok.inj h
        exact ⟨rfl, nofun⟩
      · rintro ⟨rfl, -⟩
        rfl
  | cons found rest ih =>
      rw [List.mapM_cons, checks_eq_ok]
      constructor
      · rintro ⟨d, hd, h⟩
        obtain ⟨⟨⟩, hlt, hd⟩ := checks_eq_ok.mp hd
        obtain ⟨ds, hds, h⟩ := checks_eq_ok.mp h
        obtain rfl := Except.ok.inj h
        obtain rfl := Except.ok.inj hd
        obtain ⟨rfl, hall⟩ := ih.mp hds
        refine ⟨rfl, fun d hd => ?_⟩
        rcases List.mem_cons.mp hd with rfl | hd
        · exact assertTrue_eq_ok.mp hlt
        · exact hall d hd
      · rintro ⟨rfl, hall⟩
        refine ⟨found.2, ?_, checks_eq_ok.mpr ⟨_, ih.mpr ⟨rfl, fun d hd => ?_⟩, rfl⟩⟩
        · exact checks_eq_ok.mpr ⟨(), assertTrue_of (hall _ List.mem_cons_self), rfl⟩
        · exact hall d (List.mem_cons_of_mem _ hd)

/-- What `\}?` takes. -/
def closingBrace (cs : List Char) : List Char := if cs.head? = some '}' then ['}'] else []

theorem closingBrace_prefix (cs : List Char) : closingBrace cs <+: cs := by
  rcases cs with - | ⟨c, cs⟩
  · exact List.prefix_refl _
  · by_cases hc : c = '}'
    · exact ⟨cs, by simp [closingBrace, hc]⟩
    · exact ⟨c :: cs, by simp [closingBrace, hc]⟩

theorem eq_of_mem_closingBrace {c : Char} (h : c ∈ closingBrace cs) : c = '}' := by
  unfold closingBrace at h
  split at h
  · exact List.mem_singleton.mp h
  · cases h

theorem dollar_not_mem_closingBrace (cs : List Char) : '$' ∉ closingBrace cs := by
  intro hmem
  cases eq_of_mem_closingBrace hmem

theorem dollar_ne {d : Char} (hd : d.isDigit = true) : '$' ≠ d := by
  rintro rfl
  cases hd

theorem dependencyAt?_unbraced {d : Char} (hd : d.isDigit = true) :
    dependencyAt? ('$' :: d :: cs) = some ('$' :: d :: closingBrace cs, d.toNat - '0'.toNat) := by
  unfold dependencyAt?
  split
  · rename_i heq
    obtain ⟨rfl, -⟩ := List.cons.inj (List.cons.inj heq).2
    cases hd
  · rename_i d' rest hbrace heq
    obtain ⟨rfl, rfl⟩ := List.cons.inj (List.cons.inj heq).2
    rw [if_pos hd]
    rfl
  · rename_i hnone
    exact absurd rfl (hnone d cs)

theorem dependencyAt?_braced {d : Char} (hd : d.isDigit = true) :
    dependencyAt? ('$' :: '{' :: d :: cs)
      = some ('$' :: '{' :: d :: closingBrace cs, d.toNat - '0'.toNat) := by
  rw [dependencyAt?, if_pos hd]
  rfl

/-- A match has a digit behind the `$`, perhaps in a brace, and a brace that follows. -/
theorem dependencyAt?_some {found : List Char × Nat} (h : dependencyAt? cs = some found) :
    ∃ d rest, d.isDigit = true ∧
      ((cs = '$' :: '{' :: d :: rest ∧ found.1 = '$' :: '{' :: d :: closingBrace rest) ∨
        (cs = '$' :: d :: rest ∧ found.1 = '$' :: d :: closingBrace rest)) := by
  unfold dependencyAt? at h
  split at h
  · rename_i d rest
    split at h
    · rename_i hd
      obtain rfl := Option.some.inj h
      exact ⟨d, rest, hd, .inl ⟨rfl, rfl⟩⟩
    · cases h
  · rename_i d rest _
    split at h
    · rename_i hd
      obtain rfl := Option.some.inj h
      exact ⟨d, rest, hd, .inr ⟨rfl, rfl⟩⟩
    · cases h
  · cases h

theorem marks_dependencyAt? : Marks '$' dependencyAt? := by
  intro cs found h
  obtain ⟨d, rest, hd, ⟨rfl, hfound⟩ | ⟨rfl, hfound⟩⟩ := dependencyAt?_some h
  · obtain ⟨behind, hbehind⟩ := closingBrace_prefix rest
    refine ⟨'{' :: d :: closingBrace rest, behind, hfound, ?_, ?_⟩
    · show _ = '$' :: '{' :: d :: (closingBrace rest ++ behind)
      rw [hbehind]
    · simp [dollar_not_mem_closingBrace, dollar_ne hd]
  · obtain ⟨behind, hbehind⟩ := closingBrace_prefix rest
    refine ⟨d :: closingBrace rest, behind, hfound, ?_, ?_⟩
    · show _ = '$' :: d :: (closingBrace rest ++ behind)
      rw [hbehind]
    · simp [dollar_not_mem_closingBrace, dollar_ne hd]

/-- The matches are placeholders, read from the left. -/
theorem dependencyMatches_eq (skip : Nat) (cs : List Char) :
    dependencyMatches skip cs = placeholders (tokensFrom dependencyAt? skip cs) := by
  induction cs generalizing skip with
  | nil => cases skip <;> rfl
  | cons c cs ih =>
      cases skip with
      | succ skip => exact ih skip
      | zero =>
          rw [dependencyMatches, tokensFrom]
          rcases dependencyAt? (c :: cs) with - | found
          · exact ih 0
          · exact congrArg (found :: ·) (ih _)

/-- No reference begins without a `$`. -/
theorem dependencyMatches_append {front back : List Char} (h : '$' ∉ front) :
    dependencyMatches 0 (front ++ back) = dependencyMatches 0 back := by
  rw [dependencyMatches_eq, dependencyMatches_eq]
  exact (congrArg placeholders (tokens_append marks_dependencyAt? h)).trans
    (placeholders_letters front _)

/-- Behind a match the walk goes on as if the closing brace had not been taken. -/
theorem dependencyMatches_some {text rest : List Char} {n : Nat}
    (h : dependencyAt? (text ++ rest) = some (text ++ closingBrace rest, n)) :
    dependencyMatches 0 (text ++ rest)
      = (text ++ closingBrace rest, n) :: dependencyMatches 0 rest := by
  obtain ⟨back, hback⟩ := closingBrace_prefix rest
  have hwhole : text ++ rest = text ++ closingBrace rest ++ back := by
    rw [List.append_assoc, hback]
  have hrest : dependencyMatches 0 rest = dependencyMatches 0 back := by
    conv_lhs => rw [← hback]
    exact dependencyMatches_append (dollar_not_mem_closingBrace rest)
  rw [hrest, dependencyMatches_eq, dependencyMatches_eq, hwhole]
  exact congrArg placeholders (tokens_placeholder marks_dependencyAt? (hwhole ▸ h))

/-- The first decimal digit of a number. -/
def leadingDigit (k : Nat) : Nat := ((Nat.toDigits 10 k).headD '0').toNat - '0'.toNat

theorem leadingDigit_of_lt {k : Nat} (h : k < 10) : leadingDigit k = k := by
  rw [leadingDigit, Nat.toDigits_of_lt_base h]
  exact Nat.toNat_digitChar_sub_48_of_lt_ten h

theorem leadingDigit_lt (k : Nat) : leadingDigit k < 10 := by
  obtain ⟨d, ds, hk⟩ := List.exists_cons_of_ne_nil (Nat.toDigits_ne_nil (n := k) (b := 10))
  have hd : d.isDigit = true := isDigit_of_mem_toDigits (hk ▸ List.mem_cons_self)
  rw [leadingDigit, hk]
  obtain ⟨hlow, hhigh⟩ := Char.isDigit_iff_toNat.mp hd
  simp only [Char.reduceToNat] at hlow hhigh
  show d.toNat - 48 < 10
  omega

/-- The first digit of a number from 1 on lies from 1 up to the number. -/
theorem leadingDigit_bounds (k : Nat) (hk : 1 ≤ k) : 1 ≤ leadingDigit k ∧ leadingDigit k ≤ k := by
  induction k using Nat.strongRecOn with
  | ind k ih =>
      by_cases hlt : k < 10
      · rw [leadingDigit_of_lt hlt]
        exact ⟨hk, Nat.le_refl k⟩
      · -- a longer number begins like its quotient
        have hhead : leadingDigit k = leadingDigit (k / 10) := by
          obtain ⟨d, ds, hds⟩ := List.exists_cons_of_ne_nil
            (Nat.toDigits_ne_nil (n := k / 10) (b := 10))
          rw [leadingDigit, leadingDigit, Nat.toDigits_of_base_le (by decide) (by omega), hds]
          rfl
        obtain ⟨hlow, hhigh⟩ := ih (k / 10) (by omega) (by omega)
        rw [hhead]
        exact ⟨hlow, by omega⟩

/-- The first digit behind a `$`, perhaps in a brace, is the match: what other digits there
are is not looked at. -/
theorem dependencyMatches_reference (braced : Bool) (k : Nat) (rest : List Char) :
    (dependencyMatches 0 ((Argument.reference braced k).text ++ rest)).map (·.2)
      = leadingDigit k :: (dependencyMatches 0 rest).map (·.2) := by
  obtain ⟨d, ds, hk⟩ := List.exists_cons_of_ne_nil (Nat.toDigits_ne_nil (n := k) (b := 10))
  have hdigits : ∀ c ∈ d :: ds, c.isDigit = true := fun c hc =>
    isDigit_of_mem_toDigits (hk ▸ hc)
  have hd := hdigits d List.mem_cons_self
  have hds : '$' ∉ ds := fun hmem => by
    have h := hdigits _ (List.mem_cons_of_mem d hmem)
    cases h
  have hlead : leadingDigit k = d.toNat - '0'.toNat := by rw [leadingDigit, hk]; rfl
  cases braced with
  | false =>
      have htext : (Argument.reference false k).text ++ rest = '$' :: d :: (ds ++ rest) := by
        rw [Argument.text, hk]
        rfl
      have hwalk := @dependencyMatches_some ['$', d] (ds ++ rest) _ (dependencyAt?_unbraced hd)
      rw [dependencyMatches_append hds] at hwalk
      rw [htext, hlead]
      exact congrArg (List.map (·.2)) hwalk
  | true =>
      have htext : (Argument.reference true k).text ++ rest
          = '$' :: '{' :: d :: (ds ++ ['}'] ++ rest) := by
        rw [Argument.text, hk]
        simp
      have hclosed : '$' ∉ ds ++ ['}'] := by simp [hds]
      have hwalk := @dependencyMatches_some ['$', '{', d] (ds ++ ['}'] ++ rest) _
        (dependencyAt?_braced hd)
      rw [dependencyMatches_append hclosed] at hwalk
      rw [htext, hlead]
      exact congrArg (List.map (·.2)) hwalk

theorem dependencyMatches_argumentsText (line : PlanLine) :
    (dependencyMatches 0 line.argumentsText).map (·.2) = line.references.map leadingDigit := by
  have h : ∀ arguments : List Argument, (∀ c, Argument.char c ∈ arguments → c ≠ '$') →
      (dependencyMatches 0 (arguments.flatMap (·.text))).map (·.2)
        = (arguments.filterMap (·.reference?)).map leadingDigit := by
    intro arguments hchar
    induction arguments with
    | nil => rfl
    | cons argument arguments ih =>
        have ih := ih fun c hc => hchar c (List.mem_cons_of_mem _ hc)
        rw [List.flatMap_cons]
        cases argument with
        | char c =>
            have hc : '$' ∉ [c] := fun hmem =>
              hchar c List.mem_cons_self (List.mem_singleton.mp hmem).symm
            exact (congrArg _ (dependencyMatches_append hc)).trans ih
        | reference braced k =>
            rw [dependencyMatches_reference, ih]
            rfl
  exact h line.arguments fun c hc => (line.argumentsInLine _ hc : isInLine c = true ∧ _).2

end References

/-! ### The matches in a plan -/

/-- The lines as `ACTION_REGEX` should find them, from the index `i` on. -/
def foundLines : Nat → List PlanLine → List ActionMatch
  | _, [] => []
  | i, line :: lines => line.found i :: foundLines (i + 1) lines

section Counted

variable {α β : Type} {build : Nat → List α → List β} {entry : Nat → α → β}

/-- A list that is built with a counter has an entry for each element. -/
theorem length_counted (hnil : ∀ i, build i [] = [])
    (hcons : ∀ i a as, build i (a :: as) = entry i a :: build (i + 1) as) (i : Nat)
    (as : List α) : (build i as).length = as.length := by
  induction as generalizing i with
  | nil => rw [hnil, List.length_nil, List.length_nil]
  | cons a as ih => rw [hcons, List.length_cons, List.length_cons, ih]

theorem getElem?_counted (hnil : ∀ i, build i [] = [])
    (hcons : ∀ i a as, build i (a :: as) = entry i a :: build (i + 1) as) (i j : Nat)
    (as : List α) : (build i as)[j]? = as[j]?.map (entry (i + j)) := by
  induction as generalizing i j with
  | nil => rw [hnil, List.getElem?_nil, List.getElem?_nil, Option.map_none]
  | cons a as ih =>
      rw [hcons]
      cases j with
      | zero => rfl
      | succ j =>
          rw [List.getElem?_cons_succ, List.getElem?_cons_succ, ih, Nat.add_right_comm,
            Nat.add_assoc]

end Counted

@[simp] theorem length_foundLines (i : Nat) (lines : List PlanLine) :
    (foundLines i lines).length = lines.length :=
  length_counted (fun _ => rfl) (fun _ _ _ => rfl) i lines

theorem getElem?_foundLines (i j : Nat) (lines : List PlanLine) :
    (foundLines i lines)[j]? = lines[j]?.map fun line => line.found (i + j) :=
  @getElem?_counted _ _ foundLines (fun i line => line.found i) (fun _ => rfl)
    (fun _ _ _ => rfl) i j lines

theorem actionMatches_break (cs : List Char) : actionMatches ('\n' :: cs) = actionMatches cs := by
  have hnone : matchAt actionRegex ('\n' :: cs) = none :=
    matchAt_of_head (by decide) fun c hc => by
      obtain rfl := Option.some.inj hc
      rfl
  exact congrArg (List.map ActionMatch.ofRuns) (matches?_of_none hnone)

/-- What follows a line in the text of a plan. -/
def lineTail (newline : Bool) (i : Nat) (lines : List PlanLine) : List Char :=
  if lines.isEmpty then (if newline then ['\n'] else []) else '\n' :: planText newline (i + 1) lines

theorem lineTail_head (newline : Bool) (i : Nat) (lines : List PlanLine) :
    ∀ c ∈ (lineTail newline i lines).head?, isInLine c = false := by
  intro c hc
  unfold lineTail at hc
  split at hc
  · split at hc
    · obtain rfl := Option.some.inj hc
      rfl
    · cases hc
  · obtain rfl := Option.some.inj hc
    rfl

theorem actionMatches_lineTail (newline : Bool) (i : Nat) (lines : List PlanLine) :
    actionMatches (lineTail newline i lines) = actionMatches (planText newline (i + 1) lines) := by
  cases lines with
  | nil => cases newline <;> rfl
  | cons line lines => exact actionMatches_break _

/-- In the text of readable lines the lines are found.  If there are others, something else
is found on the first of them. -/
theorem actionMatches_planText (newline : Bool) (i : Nat) (lines : List PlanLine) :
    ((∀ line ∈ lines, line.Readable) ∧
      actionMatches (planText newline i lines) = foundLines i lines) ∨
    ∃ front line back found rest, lines = front ++ line :: back ∧ ¬ line.Readable ∧
      actionMatches (planText newline i lines) = foundLines i front ++ found :: rest ∧
      ¬ (found.name = line.name ∧ found.arguments = line.argumentsText) := by
  induction lines generalizing i with
  | nil => exact .inl ⟨nofun, rfl⟩
  | cons line lines ih =>
      obtain ⟨found, rest, hmatches, -, hreadable, hnot⟩ :=
        @actionMatches_text line i _ (lineTail_head newline i lines)
      have hmatches : actionMatches (planText newline i (line :: lines)) = found :: rest := hmatches
      by_cases hline : line.Readable
      · obtain ⟨rfl, rfl⟩ := hreadable hline
        rw [actionMatches_lineTail] at hmatches
        rcases ih (i + 1) with ⟨hall, hrest⟩ | ⟨front, other, back, found, rest, hlines, hother,
          hrest, hne⟩
        · rw [hrest] at hmatches
          exact .inl ⟨List.forall_mem_cons.mpr ⟨hline, hall⟩, hmatches⟩
        · rw [hrest] at hmatches
          exact .inr ⟨line :: front, other, back, found, rest, by rw [hlines]; rfl, hother,
            hmatches, hne⟩
      · exact .inr ⟨[], line, lines, found, rest, rfl, hline, hmatches, hnot hline⟩

/-! ### The marker at the end of a plan -/

section Marker

variable {marker cs : List Char}

theorem clipBefore_prefix (marker cs : List Char) : clipBefore marker cs <+: cs := by
  induction cs with
  | nil => exact List.nil_prefix
  | cons c cs ih =>
      rw [clipBefore]
      split
      · exact List.nil_prefix
      · exact List.cons_prefix_cons.mpr ⟨rfl, ih⟩

/-- Nothing is cut off a text without the marker. -/
theorem clipBefore_eq_self (h : ¬ marker <:+: cs) : clipBefore marker cs = cs := by
  induction cs with
  | nil => rfl
  | cons c cs ih =>
      rw [List.infix_cons_iff] at h
      obtain ⟨hstart, hinside⟩ := not_or.mp h
      rw [clipBefore, if_neg (by rwa [List.isPrefixOf_iff_prefix]), ih hinside]

/-- What is left of a text holds no marker. -/
theorem not_infix_clipBefore (hmarker : marker ≠ []) : ¬ marker <:+: clipBefore marker cs := by
  induction cs with
  | nil => exact fun h => hmarker (List.infix_nil.mp h)
  | cons c cs ih =>
      rw [clipBefore]
      split
      · exact fun h => hmarker (List.infix_nil.mp h)
      · rename_i hstart
        rw [List.infix_cons_iff]
        rintro (h | h)
        · refine hstart (List.isPrefixOf_iff_prefix.mpr (h.trans ?_))
          exact List.cons_prefix_cons.mpr ⟨rfl, clipBefore_prefix marker cs⟩
        · exact ih h

/-- The groups of a match are parts of the text. -/
theorem infix_of_mem_actionMatches {found : ActionMatch} (h : found ∈ actionMatches cs) :
    found.name <:+: cs ∧ found.arguments <:+: cs := by
  obtain ⟨runs, hruns, rfl⟩ := List.mem_map.mp h
  have hflat := flatten_of_mem_matches? hruns
  have hget : ∀ j, runs.getD j [] <:+: cs := by
    intro j
    rw [List.getD_eq_getElem?_getD]
    rcases hrun : runs[j]? with - | run
    · exact List.nil_infix
    · exact (List.infix_of_mem_flatten (List.mem_of_getElem? hrun)).trans hflat
  exact ⟨hget 3, hget 5⟩

/-- A character that the marker does not hold keeps the marker on one side of it. -/
theorem infix_append_cons {a b : List Char} {c : Char} (hc : c ∉ marker)
    (h : marker <:+: a ++ c :: b) : marker <:+: a ∨ marker <:+: b := by
  rcases List.infix_append_iff_ne_nil.mp h with h | h | ⟨l₁, l₂, -, hl₂, rfl, -, hstart⟩
  · exact .inl h
  · rcases List.infix_cons_iff.mp h with h | h
    · rcases List.prefix_cons_iff.mp h with rfl | ⟨t, rfl, -⟩
      · exact .inl List.nil_infix
      · exact absurd List.mem_cons_self hc
    · exact .inr h
  · rcases List.prefix_cons_iff.mp hstart with rfl | ⟨t, rfl, -⟩
    · exact absurd rfl hl₂
    · exact absurd (List.mem_append_right _ List.mem_cons_self) hc

/-- The marker is in the text of a line only if it is in its name or its arguments. -/
theorem endOfPlan_infix_text {line : PlanLine} {i : Nat} (h : endOfPlan <:+: line.text i) :
    endOfPlan <:+: line.name ∨ endOfPlan <:+: line.argumentsText := by
  rcases infix_append_cons (by decide) h with hdigits | h
  · -- a number holds no `<`
    have hmem : '<' ∈ Nat.toDigits 10 i := hdigits.subset (by decide)
    have hdigit := isDigit_of_mem_toDigits hmem
    cases hdigit
  rcases infix_append_cons (a := ' ' :: line.name) (by decide) h with h | h
  · rcases infix_append_cons (a := []) (by decide) h with h | h
    · cases List.infix_nil.mp h
    · exact .inl h
  · rcases infix_append_cons (by decide) h with h | h
    · exact .inr h
    · cases List.infix_nil.mp h

theorem endOfPlan_infix_planText {newline : Bool} {i : Nat} {lines : List PlanLine}
    (h : endOfPlan <:+: planText newline i lines) :
    ∃ line ∈ lines, endOfPlan <:+: line.name ∨ endOfPlan <:+: line.argumentsText := by
  induction lines generalizing i with
  | nil => cases List.infix_nil.mp h
  | cons line lines ih =>
      have h : endOfPlan <:+: line.text i ++ lineTail newline i lines := h
      have hline : endOfPlan <:+: line.text i ∨ endOfPlan <:+: planText newline (i + 1) lines := by
        cases lines with
        | nil =>
            cases newline with
            | false => exact .inl (by simpa [lineTail] using h)
            | true => exact infix_append_cons (by decide) h
        | cons next lines => exact infix_append_cons (by decide) h
      rcases hline with hline | hrest
      · exact ⟨line, List.mem_cons_self, endOfPlan_infix_text hline⟩
      · obtain ⟨other, hmem, hother⟩ := ih hrest
        exact ⟨other, List.mem_cons_of_mem _ hmem, hother⟩

end Marker

/-! ### The tasks that are built -/

/-- The task that a match becomes. -/
structure BuiltFrom (found : ActionMatch) (task : LLMCompilerTask) : Prop where
  index : stol found.index = .ok task.index
  function : task.toolCall.functionOrDefault =
    { name := String.ofList found.name, arguments := String.ofList found.arguments }
  /-- The named dependencies, and for a `join` the tasks before it. -/
  dependencies : ∃ named, namedDependencies task.index found.arguments = .ok named ∧
    if task.isJoin then
      ∃ earlier, joinDependencies task.index = .ok earlier ∧ task.dependencies = named ++ earlier
    else task.dependencies = named

/-- The tasks are built of the first matches: of all of them, or up to a `join`. -/
theorem planTasks_ok {ids : Nat → String} {n : Nat} {found : List ActionMatch}
    {tasks : List LLMCompilerTask} (h : planTasks ids n found = .ok tasks) :
    ∃ used rest, found = used ++ rest ∧ List.Forall₂ BuiltFrom used tasks ∧
      (∀ task ∈ tasks.dropLast, task.isJoin = false) ∧
      (rest ≠ [] → ∃ task ∈ tasks.getLast?, task.isJoin = true) ∧
      ∀ j task, tasks[j]? = some task → task.toolCall.id = ids (n + j) := by
  induction found generalizing n tasks with
  | nil =>
      obtain rfl := Except.ok.inj h
      exact ⟨[], [], rfl, .nil, nofun, fun h => absurd rfl h, nofun⟩
  | cons first found ih =>
      obtain ⟨idx, hidx, h⟩ := checks_eq_ok.mp h
      obtain ⟨named, hnamed, h⟩ := checks_eq_ok.mp h
      split at h
      · rename_i hjoin
        obtain ⟨earlier, hearlier, h⟩ := checks_eq_ok.mp h
        obtain rfl := Except.ok.inj h
        refine ⟨[first], found, rfl, .cons ⟨hidx, rfl, named, hnamed, ?_⟩ .nil, nofun,
          fun _ => ⟨_, rfl, hjoin⟩, fun j task hj => ?_⟩
        · exact (if_pos hjoin).mpr ⟨earlier, hearlier, rfl⟩
        · cases j with
          | zero =>
              obtain rfl := Option.some.inj hj
              rfl
          | succ j => cases hj
      · rename_i hjoin
        obtain ⟨tasks', htasks, h⟩ := checks_eq_ok.mp h
        obtain rfl := Except.ok.inj h
        obtain ⟨used, rest, rfl, hbuilt, hbefore, hlast, hids⟩ := ih htasks
        refine ⟨first :: used, rest, rfl, .cons ⟨hidx, rfl, named, hnamed, ?_⟩ hbuilt, ?_, ?_, ?_⟩
        · exact (if_neg hjoin).mpr rfl
        · intro task hmem
          cases tasks' with
          | nil => cases hmem
          | cons second tasks' =>
              rcases List.mem_cons.mp hmem with rfl | hmem
              · exact Bool.eq_false_iff.mpr hjoin
              · exact hbefore task hmem
        · intro hrest
          obtain ⟨task, htask, hj⟩ := hlast hrest
          refine ⟨task, ?_, hj⟩
          rw [List.getLast?_cons, htask]
          rfl
        · intro j task hj
          cases j with
          | zero =>
              obtain rfl := Option.some.inj hj
              rfl
          | succ j => exact (hids j task hj).trans (by rw [show n + 1 + j = n + (j + 1) by omega])

/-! ### The graph of a plan -/

/-- What a plan says of a task. -/
structure PlanEntry where
  index : Nat
  name : List Char
  arguments : List Char
  dependencies : List Nat
  deriving Repr, DecidableEq

def PlanEntry.isJoin (entry : PlanEntry) : Bool := entry.name = "join".toList

/-- The task has the index, the name, the arguments and the set of dependencies. -/
structure PlanEntry.Describes (entry : PlanEntry) (task : LLMCompilerTask) : Prop where
  index : task.index = entry.index
  function : task.toolCall.functionOrDefault =
    { name := String.ofList entry.name, arguments := String.ofList entry.arguments }
  dependencies : ∀ d, d ∈ task.dependencies ↔ ∃ k ∈ entry.dependencies, (k : Int) = d

/-- A task depends on the indices it refers to, a `join` on all `total` others. -/
def PlanLine.entry (line : PlanLine) (total i : Nat) : PlanEntry where
  index := i
  name := line.name
  arguments := line.argumentsText
  dependencies :=
    if line.isJoin then (List.range' 1 total).filter (· ≠ i) else line.references

def planEntries (total : Nat) : Nat → List PlanLine → List PlanEntry
  | _, [] => []
  | i, line :: lines => line.entry total i :: planEntries total (i + 1) lines

/-- What the plan says, with a `join` at the end if it has none. -/
def Plan.entries (plan : Plan) : List PlanEntry :=
  planEntries plan.lines.length 1 plan.lines ++
    if plan.lines.any (·.isJoin) then []
    else
      [{ index := plan.lines.length + 1
         name := "join".toList
         arguments := []
         dependencies := List.range' 1 plan.lines.length }]

/-- The thought asks for the plan: its graph has exactly the tasks of the plan, and its
calls are those of the tasks without references. -/
def Plan.Follows (plan : Plan) (thought : AgentThought) : Prop :=
  ∃ request tasks,
    thought = .continuation
      { toolCallMessage := some request, custom := .taskGraph { tasks := tasks } } ∧
    List.Forall₂ PlanEntry.Describes plan.entries tasks ∧
    request.toolCalls = ((plan.entries.zip tasks).filter fun p =>
      !p.1.isJoin && p.1.dependencies.isEmpty).map (·.2.toolCall)

/-- The plans that the parser reads as they are meant. -/
structure Plan.Readable (plan : Plan) : Prop where
  nonempty : plan.lines ≠ []
  lines : ∀ line ∈ plan.lines, line.Readable
  unmarked : ∀ line ∈ plan.lines,
    ¬ endOfPlan <:+: line.name ∧ ¬ endOfPlan <:+: line.argumentsText
  /-- Nothing follows a `join`, and its index is an `int`. -/
  joinLast : ∀ i line, plan.lines[i]? = some line → line.isJoin = true →
    i + 1 = plan.lines.length ∧ i + 1 < 2 ^ 31
  /-- References have one digit.  (A `join` depends on all other tasks anyway.) -/
  references : ∀ line ∈ plan.lines, line.isJoin = false → ∀ k ∈ line.references, k < 10
  size : plan.lines.length < 2 ^ 63

theorem getElem?_planEntries (total i j : Nat) (lines : List PlanLine) :
    (planEntries total i lines)[j]? = lines[j]?.map fun line => line.entry total (i + j) :=
  @getElem?_counted _ _ (planEntries total) (fun i line => line.entry total i) (fun _ => rfl)
    (fun _ _ _ => rfl) i j lines

@[simp] theorem length_planEntries (total i : Nat) (lines : List PlanLine) :
    (planEntries total i lines).length = lines.length :=
  length_counted (fun _ => rfl) (fun _ _ _ => rfl) i lines

theorem getElem?_of_forall₂ {α β : Type} {R : α → β → Prop} {l : List α} {l' : List β}
    (h : List.Forall₂ R l l') {i : Nat} {a : α} (ha : l[i]? = some a) :
    ∃ b, l'[i]? = some b ∧ R a b := by
  obtain ⟨hi, rfl⟩ := List.getElem?_eq_some_iff.mp ha
  have hi' : i < l'.length := h.length_eq ▸ hi
  exact ⟨l'[i], List.getElem?_eq_getElem hi', h.get hi hi'⟩

theorem stol_toDigits {n : Nat} {value : Int} :
    stol (Nat.toDigits 10 n) = .ok value ↔ n < 2 ^ 63 ∧ value = n := by
  unfold stol
  rw [Nat.ofDigitChars_ten_toDigits]
  split
  · rename_i hlt
    exact ⟨fun h => ⟨hlt, (Except.ok.inj h).symm⟩, fun h => congrArg _ h.2.symm⟩
  · rename_i hlt
    exact ⟨nofun, fun h => absurd h.1 hlt⟩

theorem mem_firstIndices {n : Nat} {d : Int} :
    d ∈ firstIndices n ↔ ∃ k : Nat, 1 ≤ k ∧ k ≤ n ∧ (k : Int) = d := by
  unfold firstIndices
  rw [List.mem_map]
  constructor
  · rintro ⟨k, hk, rfl⟩
    obtain ⟨hlow, hhigh⟩ := List.mem_range'_1.mp hk
    exact ⟨k, hlow, by omega, rfl⟩
  · rintro ⟨k, hlow, hhigh, rfl⟩
    exact ⟨k, List.mem_range'_1.mpr ⟨hlow, by omega⟩, rfl⟩

/-! ### Readable plans become their graphs -/

section Forward

variable {ids : Nat → String}

/-- The task of the line with the index `n + 1`. -/
def lineTask (ids : Nat → String) (n : Nat) (line : PlanLine) : LLMCompilerTask :=
  planTask (ids n) (n + 1 : Nat) (line.found (n + 1))
    (line.references.map (fun k => (leadingDigit k : Int)) ++
      if line.isJoin then firstIndices n else [])

def lineTasks (ids : Nat → String) : Nat → List PlanLine → List LLMCompilerTask
  | _, [] => []
  | n, line :: lines => lineTask ids n line :: lineTasks ids (n + 1) lines

theorem isJoin_planTask {id : String} {idx : Int} {found : ActionMatch} {ds : List Int} :
    (planTask id idx found ds).isJoin = decide (found.name = "join".toList) := by
  have hofList : String.ofList found.name = "join" ↔ found.name = "join".toList := by
    rw [← String.ofList_inj, String.ofList_toList]
  exact decide_eq_decide.mpr hofList

theorem isJoin_planTask_found {id : String} {idx : Int} {line : PlanLine} {i : Nat}
    {ds : List Int} : (planTask id idx (line.found i) ds).isJoin = line.isJoin := isJoin_planTask

theorem namedDependencies_argumentsText {line : PlanLine} {n : Nat}
    (h : ∀ k ∈ line.references, 1 ≤ k ∧ k ≤ n) :
    namedDependencies (n + 1 : Nat) line.argumentsText
      = .ok (line.references.map fun k => (leadingDigit k : Int)) := by
  refine namedDependencies_eq_ok.mpr ⟨?_, fun d hd => ?_⟩
  · have hmatches := dependencyMatches_argumentsText line
    have hcast := congrArg (List.map fun d : Nat => (d : Int)) hmatches
    rw [List.map_map, List.map_map] at hcast
    exact hcast.symm
  · obtain ⟨k, hk, rfl⟩ := List.mem_map.mp hd
    obtain ⟨hlow, hhigh⟩ := h k hk
    have hle := (leadingDigit_bounds k hlow).2
    omega

/-- On readable lines every step of the loop goes through. -/
theorem planTasks_foundLines (n : Nat) (lines : List PlanLine)
    (hback : ∀ j line, lines[j]? = some line → ∀ k ∈ line.references, 1 ≤ k ∧ k ≤ n + j)
    (hjoin : ∀ j line, lines[j]? = some line → line.isJoin = true →
      j + 1 = lines.length ∧ n + j + 1 < 2 ^ 31)
    (hsize : n + lines.length < 2 ^ 63) :
    planTasks ids n (foundLines (n + 1) lines) = .ok (lineTasks ids n lines) := by
  induction lines generalizing n with
  | nil => rfl
  | cons line lines ih =>
      have hfirst := hback 0 line rfl
      rw [foundLines, planTasks]
      have hstol : stol (line.found (n + 1)).index = .ok ((n + 1 : Nat) : Int) :=
        stol_toDigits.mpr ⟨by simp only [List.length_cons] at hsize; omega, rfl⟩
      refine checks_eq_ok.mpr ⟨_, hstol, checks_eq_ok.mpr
        ⟨_, namedDependencies_argumentsText hfirst, ?_⟩⟩
      rw [isJoin_planTask_found]
      rcases hline : line.isJoin with - | -
      · rw [if_neg (by simp)]
        refine checks_eq_ok.mpr ⟨_, ih (n + 1) (fun j other hj => ?_) (fun j other hj hother => ?_)
          ?_, ?_⟩
        · intro k hk
          have h := hback (j + 1) other hj k hk
          omega
        · have h := hjoin (j + 1) other hj hother
          simp only [List.length_cons] at h
          omega
        · simp only [List.length_cons] at hsize
          omega
        · simp only [lineTasks, lineTask, hline, Bool.false_eq_true, if_false, List.append_nil]
          rfl
      · obtain ⟨hlast, hint⟩ := hjoin 0 line rfl hline
        obtain rfl : lines = [] := by
          simp only [List.length_cons] at hlast
          exact List.length_eq_zero_iff.mp (by omega)
        rw [if_pos rfl]
        refine checks_eq_ok.mpr ⟨firstIndices n, ?_, ?_⟩
        · have hlt : ((n + 1 : Nat) : Int) < 2 ^ 31 := by omega
          rw [joinDependencies, if_pos hlt]
          rfl
        · simp only [lineTasks, lineTask, hline]
          rfl

@[simp] theorem length_lineTasks (n : Nat) (lines : List PlanLine) :
    (lineTasks ids n lines).length = lines.length := by
  induction lines generalizing n with
  | nil => rfl
  | cons line lines ih => exact congrArg (· + 1) (ih (n + 1))

theorem any_isJoin_lineTasks (n : Nat) (lines : List PlanLine) :
    (lineTasks ids n lines).any (·.isJoin) = lines.any (·.isJoin) := by
  induction lines generalizing n with
  | nil => rfl
  | cons line lines ih =>
      rw [lineTasks, List.any_cons, List.any_cons, ih, lineTask, isJoin_planTask_found]

theorem describes_lineTask {line : PlanLine} {n total : Nat}
    (hback : ∀ k ∈ line.references, 1 ≤ k ∧ k ≤ n)
    (hreferences : line.isJoin = false → ∀ k ∈ line.references, k < 10)
    (hjoin : line.isJoin = true → n + 1 = total) :
    (line.entry total (n + 1)).Describes (lineTask ids n line) := by
  refine ⟨rfl, rfl, fun d => ?_⟩
  show d ∈ _ ++ _ ↔ ∃ k ∈ (if line.isJoin then _ else _), _
  rcases hline : line.isJoin with - | -
  · simp only [Bool.false_eq_true, if_false, List.append_nil, List.mem_map]
    refine exists_congr fun k => and_congr_right fun hk => ?_
    rw [leadingDigit_of_lt (hreferences hline k hk)]
  · obtain rfl := hjoin hline
    simp only [if_true, List.mem_append, List.mem_map, List.mem_filter, mem_firstIndices,
      decide_eq_true_eq, List.mem_range'_1]
    constructor
    · rintro (⟨k, hk, rfl⟩ | ⟨k, hlow, hhigh, rfl⟩)
      · -- what the line names itself lies among the tasks before it
        obtain ⟨hlow, hhigh⟩ := hback k hk
        obtain ⟨hpos, hle⟩ := leadingDigit_bounds k hlow
        exact ⟨leadingDigit k, ⟨⟨hpos, by omega⟩, by omega⟩, rfl⟩
      · exact ⟨k, ⟨⟨hlow, by omega⟩, by omega⟩, rfl⟩
    · rintro ⟨k, ⟨⟨hlow, hhigh⟩, hne⟩, rfl⟩
      exact .inr ⟨k, hlow, by omega, rfl⟩

theorem describes_lineTasks {total : Nat} (n : Nat) (lines : List PlanLine)
    (hback : ∀ j line, lines[j]? = some line → ∀ k ∈ line.references, 1 ≤ k ∧ k ≤ n + j)
    (hreferences : ∀ line ∈ lines, line.isJoin = false → ∀ k ∈ line.references, k < 10)
    (hjoin : ∀ j line, lines[j]? = some line → line.isJoin = true → n + j + 1 = total) :
    List.Forall₂ PlanEntry.Describes (planEntries total (n + 1) lines) (lineTasks ids n lines) := by
  induction lines generalizing n with
  | nil => exact .nil
  | cons line lines ih =>
      refine .cons (describes_lineTask (hback 0 line rfl) (hreferences line List.mem_cons_self)
        (hjoin 0 line rfl)) (ih (n + 1) (fun j other hj k hk => ?_)
          (fun other hmem => hreferences other (List.mem_cons_of_mem _ hmem))
          fun j other hj hother => ?_)
      · have h := hback (j + 1) other hj k hk
        omega
      · have h := hjoin (j + 1) other hj hother
        omega

/-- The calls of the first step are those of the tasks that the plan gives no dependencies. -/
theorem firstCalls_of_describes {entries : List PlanEntry} {tasks : List LLMCompilerTask}
    (h : List.Forall₂ PlanEntry.Describes entries tasks) :
    firstCalls tasks = ((entries.zip tasks).filter fun p =>
      !p.1.isJoin && p.1.dependencies.isEmpty).map (·.2.toolCall) := by
  induction h with
  | nil => rfl
  | @cons entry task entries tasks hfirst _ ih =>
      have hjoin : task.isJoin = entry.isJoin := by
        have hofList : String.ofList entry.name = "join" ↔ entry.name = "join".toList := by
          rw [← String.ofList_inj, String.ofList_toList]
        rw [LLMCompilerTask.isJoin, hfirst.function]
        exact decide_eq_decide.mpr hofList
      have hempty : task.dependencies.isEmpty = entry.dependencies.isEmpty := by
        rw [Bool.eq_iff_iff, List.isEmpty_iff, List.isEmpty_iff, List.eq_nil_iff_forall_not_mem,
          List.eq_nil_iff_forall_not_mem]
        constructor
        · exact fun h k hk => h k ((hfirst.dependencies k).mpr ⟨k, hk, rfl⟩)
        · intro h d hd
          obtain ⟨k, hk, -⟩ := (hfirst.dependencies d).mp hd
          exact h k hk
      rw [firstCalls, List.filter_cons, List.zip_cons_cons, List.filter_cons, hjoin, hempty]
      split
      · exact congrArg (task.toolCall :: ·) ih
      · exact ih

/-- The `join` that is filled in is asked for at no time. -/
theorem firstCalls_withJoin (tasks : List LLMCompilerTask) :
    firstCalls (withJoin ids tasks) = firstCalls tasks := by
  unfold withJoin
  split
  · rfl
  · unfold firstCalls
    rw [List.filter_append, List.map_append]
    simp [LLMCompilerTask.isJoin, functionCall, ToolCallObject.functionOrDefault]

theorem describes_withJoin {plan : Plan} (h : plan.Readable) :
    List.Forall₂ PlanEntry.Describes plan.entries
      (withJoin ids (lineTasks ids 0 plan.lines)) := by
  have hlines := @describes_lineTasks ids plan.lines.length 0 plan.lines
    (fun j line hj k hk => (Nat.zero_add j).symm ▸ plan.backward j line hj k hk) h.references
    fun j line hj hjoin => by
      have hlast := (h.joinLast j line hj hjoin).1
      omega
  unfold withJoin Plan.entries
  rw [any_isJoin_lineTasks]
  split
  · rwa [List.append_nil]
  · refine List.rel_append hlines (.cons ⟨?_, rfl, fun d => ?_⟩ .nil)
    · simp
    · rw [length_lineTasks, mem_firstIndices]
      simp only [List.mem_range'_1]
      refine exists_congr fun k => ?_
      omega

/-- A readable plan becomes its graph. -/
theorem parseResult_of_readable {plan : Plan} (h : plan.Readable) (newline : Bool) :
    ∃ thought, parseResult ids (plan.text newline) = .ok thought ∧ plan.Follows thought := by
  have hclip : clipBefore endOfPlan (plan.text newline).toList = planText newline 1 plan.lines := by
    rw [Plan.text, String.toList_ofList, clipBefore_eq_self]
    intro hinside
    obtain ⟨line, hmem, hline⟩ := endOfPlan_infix_planText hinside
    exact hline.elim (h.unmarked line hmem).1 (h.unmarked line hmem).2
  have hmatches : actionMatches (planText newline 1 plan.lines) = foundLines 1 plan.lines := by
    rcases actionMatches_planText newline 1 plan.lines with ⟨-, hfound⟩ |
      ⟨front, line, back, -, -, hlines, hline, -⟩
    · exact hfound
    · exact absurd (h.lines line (by simp [hlines])) hline
  have htasks := @planTasks_foundLines ids 0 plan.lines
    (fun j line hj k hk => (Nat.zero_add j).symm ▸ plan.backward j line hj k hk)
    (fun j line hj hjoin => by simpa using h.joinLast j line hj hjoin)
    (by simpa using h.size)
  have hne : lineTasks ids 0 plan.lines ≠ [] := fun hnil => h.nonempty (by
    have hlength := congrArg List.length hnil
    rw [length_lineTasks] at hlength
    exact List.length_eq_zero_iff.mp hlength)
  have hdescribes := @describes_withJoin ids _ h
  refine ⟨_, checks_eq_ok.mpr ⟨_, by rw [hclip, hmatches]; exact htasks, rfl⟩, ?_⟩
  rw [planThought, if_neg hne]
  refine ⟨_, _, rfl, hdescribes, ?_⟩
  rw [← firstCalls_of_describes hdescribes, firstCalls_withJoin]

end Forward

/-! ### Only readable plans do -/

section Backward

variable {ids : Nat → String} {plan : Plan} {newline : Bool} {thought : AgentThought}

theorem length_le_entries (plan : Plan) : plan.lines.length ≤ plan.entries.length := by
  rw [Plan.entries, List.length_append, length_planEntries]
  omega

theorem getElem?_entries {i : Nat} {line : PlanLine} (h : plan.lines[i]? = some line) :
    plan.entries[i]? = some (line.entry plan.lines.length (i + 1)) := by
  have hi : i < (planEntries plan.lines.length 1 plan.lines).length := by
    rw [length_planEntries]
    exact (List.getElem?_eq_some_iff.mp h).1
  rw [Plan.entries, List.getElem?_append_left hi, getElem?_planEntries, h, Nat.add_comm]
  rfl

/-- A thought that follows a plan comes from tasks that the plan describes. -/
theorem tasks_of_follows (h : parseResult ids (plan.text newline) = .ok thought)
    (hfollows : plan.Follows thought) : ∃ tasks,
      planTasks ids 0 (actionMatches (clipBefore endOfPlan (planText newline 1 plan.lines)))
        = .ok tasks ∧
      tasks ≠ [] ∧ List.Forall₂ PlanEntry.Describes plan.entries (withJoin ids tasks) := by
  obtain ⟨tasks, htasks, h⟩ := checks_eq_ok.mp h
  obtain rfl := Except.ok.inj h
  obtain ⟨request, tasks', hthought, hdescribes, -⟩ := hfollows
  unfold planThought at hthought
  split at hthought
  · cases hthought
  · rename_i hne
    obtain ⟨-, hgraph⟩ := AgentContinuation.mk.inj
      (AgentThought.continuation.inj hthought)
    obtain rfl := (LLMCompilerTaskGraph.mk.inj (Any.taskGraph.inj hgraph)).1
    rw [Plan.text, String.toList_ofList] at htasks
    exact ⟨tasks, htasks, hne, hdescribes⟩

/-- No task has the marker in its name or its arguments, as it was cut off. -/
theorem unmarked_of_follows (h : parseResult ids (plan.text newline) = .ok thought)
    (hfollows : plan.Follows thought) : ∀ line ∈ plan.lines,
      ¬ endOfPlan <:+: line.name ∧ ¬ endOfPlan <:+: line.argumentsText := by
  obtain ⟨tasks, htasks, -, hdescribes⟩ := tasks_of_follows h hfollows
  obtain ⟨used, rest, hfound, hbuilt, -⟩ := planTasks_ok htasks
  have hclean : ∀ task ∈ withJoin ids tasks,
      ¬ endOfPlan <:+: task.toolCall.functionOrDefault.name.toList ∧
        ¬ endOfPlan <:+: task.toolCall.functionOrDefault.arguments.toList := by
    have htask : ∀ task ∈ tasks,
        ¬ endOfPlan <:+: task.toolCall.functionOrDefault.name.toList ∧
          ¬ endOfPlan <:+: task.toolCall.functionOrDefault.arguments.toList := by
      intro task hmem
      obtain ⟨j, hj⟩ := List.getElem?_of_mem hmem
      obtain ⟨found, hfoundj, hfrom⟩ := getElem?_of_forall₂ hbuilt.flip hj
      have hmem : found ∈ actionMatches (clipBefore endOfPlan (planText newline 1 plan.lines)) := by
        rw [hfound]
        exact List.mem_append_left _ (List.mem_of_getElem? hfoundj)
      have hparts := infix_of_mem_actionMatches hmem
      have hnot := @not_infix_clipBefore endOfPlan (planText newline 1 plan.lines) (by decide)
      rw [hfrom.function, String.toList_ofList, String.toList_ofList]
      exact ⟨fun hin => hnot (hin.trans hparts.1), fun hin => hnot (hin.trans hparts.2)⟩
    intro task hmem
    unfold withJoin at hmem
    split at hmem
    · exact htask task hmem
    · rcases List.mem_append.mp hmem with hmem | hmem
      · exact htask task hmem
      · -- the filled in `join`
        obtain rfl := List.mem_singleton.mp hmem
        show ¬ endOfPlan <:+: "join".toList ∧ ¬ endOfPlan <:+: "".toList
        decide
  intro line hmem
  obtain ⟨i, hi⟩ := List.getElem?_of_mem hmem
  obtain ⟨task, htask, hdescribed⟩ := getElem?_of_forall₂ hdescribes (getElem?_entries hi)
  have h := hclean task (List.mem_of_getElem? htask)
  rw [hdescribed.function, String.toList_ofList, String.toList_ofList] at h
  exact h

theorem getElem?_withJoin {tasks : List LLMCompilerTask} {i : Nat} {task : LLMCompilerTask}
    (h : tasks[i]? = some task) : (withJoin ids tasks)[i]? = some task := by
  unfold withJoin
  split
  · exact h
  · rw [List.getElem?_append_left (List.getElem?_eq_some_iff.mp h).1]
    exact h

/-- The tasks are built line by line, and the lines are readable. -/
theorem built_of_describes {tasks : List LLMCompilerTask}
    (htasks : planTasks ids 0 (actionMatches (planText newline 1 plan.lines)) = .ok tasks)
    (hdescribes : List.Forall₂ PlanEntry.Describes plan.entries (withJoin ids tasks)) :
    (∀ line ∈ plan.lines, line.Readable) ∧
      List.Forall₂ BuiltFrom (foundLines 1 plan.lines) tasks ∧
      ∀ task ∈ tasks.dropLast, task.isJoin = false := by
  obtain ⟨used, rest, hfound, hbuilt, hbefore, hlast, -⟩ := planTasks_ok htasks
  -- a loop that breaks off early leaves too few tasks
  have hall : plan.lines.length ≤ used.length ∨ rest = [] := by
    by_contra hnot
    obtain ⟨hshort, hrest⟩ := not_or.mp hnot
    obtain ⟨task, htask, hjoin⟩ := hlast hrest
    have hsame : withJoin ids tasks = tasks :=
      if_pos (List.any_eq_true.mpr ⟨task, List.mem_of_getLast? htask, hjoin⟩)
    have hlength := hdescribes.length_eq
    rw [hsame, ← hbuilt.length_eq] at hlength
    have hle := length_le_entries plan
    omega
  rcases actionMatches_planText newline 1 plan.lines with ⟨hreadable, hmatches⟩ |
    ⟨front, line, back, found, rest', hlines, hline, hmatches, hne⟩
  · have hlength := congrArg List.length (hmatches.symm.trans hfound)
    rw [length_foundLines, List.length_append] at hlength
    obtain rfl : rest = [] := by
      rcases hall with hall | hall
      · exact List.length_eq_zero_iff.mp (by omega)
      · exact hall
    rw [List.append_nil] at hfound
    exact ⟨hreadable, (hmatches.symm.trans hfound) ▸ hbuilt, hbefore⟩
  · -- the task of the first line that is not readable is another one
    exfalso
    have hused : front.length < used.length := by
      rcases hall with hall | rfl
      · rw [hlines] at hall
        simp only [List.length_append, List.length_cons] at hall
        omega
      · have hlength := congrArg List.length (hmatches.symm.trans hfound)
        simp only [List.length_append, length_foundLines, List.length_cons,
          List.append_nil] at hlength
        omega
    have hget : used[front.length]? = some found := by
      rw [← @List.getElem?_append_left _ _ rest _ hused, ← hfound, hmatches,
        List.getElem?_append_right (by simp), length_foundLines, Nat.sub_self]
      rfl
    obtain ⟨task, htask, hfrom⟩ := getElem?_of_forall₂ hbuilt hget
    have hwith := @getElem?_withJoin ids _ _ _ htask
    have hentry : plan.lines[front.length]? = some line := by
      rw [hlines, List.getElem?_append_right (Nat.le_refl _), Nat.sub_self]
      rfl
    obtain ⟨task', htask', hdescribed⟩ :=
      getElem?_of_forall₂ hdescribes (getElem?_entries hentry)
    obtain rfl := Option.some.inj (hwith.symm.trans htask')
    have hfunction := hfrom.function.symm.trans hdescribed.function
    obtain ⟨hname, harguments⟩ := ToolCallFunctionObject.mk.inj hfunction
    exact hne ⟨String.ofList_inj.mp hname, String.ofList_inj.mp harguments⟩

theorem isJoin_of_builtFrom {line : PlanLine} {i : Nat} {task : LLMCompilerTask}
    (h : BuiltFrom (line.found i) task) : task.isJoin = line.isJoin := by
  have hofList : String.ofList line.name = "join" ↔ line.name = "join".toList := by
    rw [← String.ofList_inj, String.ofList_toList]
  rw [LLMCompilerTask.isJoin, h.function]
  exact decide_eq_decide.mpr hofList

/-- The task of a line is built from it, and is the one that the plan describes. -/
theorem exists_task_of_line {tasks : List LLMCompilerTask} {i : Nat} {line : PlanLine}
    (hbuilt : List.Forall₂ BuiltFrom (foundLines 1 plan.lines) tasks)
    (hdescribes : List.Forall₂ PlanEntry.Describes plan.entries (withJoin ids tasks))
    (hi : plan.lines[i]? = some line) : ∃ task, tasks[i]? = some task ∧
      BuiltFrom (line.found (i + 1)) task ∧
      (line.entry plan.lines.length (i + 1)).Describes task := by
  have hget : (foundLines 1 plan.lines)[i]? = some (line.found (i + 1)) := by
    rw [getElem?_foundLines, hi, Nat.add_comm]
    rfl
  obtain ⟨task, htask, hfrom⟩ := getElem?_of_forall₂ hbuilt hget
  obtain ⟨task', htask', hdescribed⟩ := getElem?_of_forall₂ hdescribes (getElem?_entries hi)
  obtain rfl := Option.some.inj ((@getElem?_withJoin ids _ _ _ htask).symm.trans htask')
  exact ⟨task, htask, hfrom, hdescribed⟩

/-- A `join` has an id that is an `int`, as its dependencies are counted up to it. -/
theorem lt_of_describes_join {line : PlanLine} {count i : Nat} {task : LLMCompilerTask}
    (hfrom : BuiltFrom (line.found i) task) (hdescribed : (line.entry count i).Describes task)
    (hjoin : line.isJoin = true) : i < 2 ^ 31 := by
  obtain ⟨named, -, hnamed⟩ := hfrom.dependencies
  rw [if_pos ((isJoin_of_builtFrom hfrom).trans hjoin)] at hnamed
  obtain ⟨earlier, hearlier, -⟩ := hnamed
  rw [joinDependencies, hdescribed.index] at hearlier
  split at hearlier
  · rename_i hlt
    have hlt : ((i : Nat) : Int) < 2 ^ 31 := hlt
    omega
  · cases hearlier

/-- A longer reference is not among the dependencies, which all have one digit. -/
theorem lt_ten_of_describes {line : PlanLine} {count i : Nat} {task : LLMCompilerTask}
    (hfrom : BuiltFrom (line.found i) task) (hdescribed : (line.entry count i).Describes task)
    (hjoin : line.isJoin = false) : ∀ k ∈ line.references, k < 10 := by
  intro k hk
  obtain ⟨named, hnamed, hdependencies⟩ := hfrom.dependencies
  rw [if_neg (by rw [isJoin_of_builtFrom hfrom, hjoin]; simp)] at hdependencies
  have hentry : k ∈ (line.entry count i).dependencies := by
    rw [PlanLine.entry, if_neg (by simp [hjoin])]
    exact hk
  have hmem := (hdescribed.dependencies k).mpr ⟨k, hentry, rfl⟩
  rw [hdependencies, (namedDependencies_eq_ok.mp hnamed).1] at hmem
  obtain ⟨found, hfound, hdigit⟩ := List.mem_map.mp hmem
  have hmem : found.2 ∈ (dependencyMatches 0 line.argumentsText).map (·.2) :=
    List.mem_map_of_mem hfound
  rw [dependencyMatches_argumentsText] at hmem
  obtain ⟨k', -, hk'⟩ := List.mem_map.mp hmem
  have hlt := leadingDigit_lt k'
  omega

theorem readable_of_follows (h : parseResult ids (plan.text newline) = .ok thought)
    (hfollows : plan.Follows thought) : plan.Readable := by
  have hunmarked := unmarked_of_follows h hfollows
  obtain ⟨tasks, htasks, hne, hdescribes⟩ := tasks_of_follows h hfollows
  rw [clipBefore_eq_self fun hinside => by
    obtain ⟨line, hmem, hline⟩ := endOfPlan_infix_planText hinside
    exact hline.elim (hunmarked line hmem).1 (hunmarked line hmem).2] at htasks
  obtain ⟨hreadable, hbuilt, hbefore⟩ := built_of_describes htasks hdescribes
  have hlength := hbuilt.length_eq
  rw [length_foundLines] at hlength
  have hstol : ∀ i line, plan.lines[i]? = some line → i + 1 < 2 ^ 63 := by
    intro i line hi
    obtain ⟨task, -, hfrom, -⟩ := exists_task_of_line hbuilt hdescribes hi
    exact (stol_toDigits.mp hfrom.index).1
  refine ⟨fun hnil => ?_, hreadable, hunmarked, fun i line hi hjoin => ?_,
    fun line hmem hjoin k hk => ?_, ?_⟩
  · rw [hnil] at hlength
    exact hne (List.length_eq_zero_iff.mp hlength.symm)
  · obtain ⟨task, htask, hfrom, hdescribed⟩ := exists_task_of_line hbuilt hdescribes hi
    refine ⟨?_, lt_of_describes_join hfrom hdescribed hjoin⟩
    -- a `join` among the others would not be one of the tasks before the last
    by_contra hlast
    have hi' := (List.getElem?_eq_some_iff.mp hi).1
    have hdrop : tasks.dropLast[i]? = some task := by
      rw [List.getElem?_dropLast, if_pos (by omega), htask]
    have htaskJoin := (isJoin_of_builtFrom hfrom).trans hjoin
    rw [hbefore task (List.mem_of_getElem? hdrop)] at htaskJoin
    cases htaskJoin
  · obtain ⟨i, hi⟩ := List.getElem?_of_mem hmem
    obtain ⟨task, -, hfrom, hdescribed⟩ := exists_task_of_line hbuilt hdescribes hi
    exact lt_ten_of_describes hfrom hdescribed hjoin k hk
  · rcases Nat.eq_zero_or_pos plan.lines.length with hzero | hpos
    · omega
    · have hget := List.getElem?_eq_getElem (l := plan.lines) (i := plan.lines.length - 1)
        (by omega)
      have h := hstol _ _ hget
      omega

end Backward

/-- **The graph is the plan, exactly when the plan is readable.**  For every plan, the
parser turns its text into a graph with exactly its tasks and dependencies, with a `join`
that depends on all others, and asks first for exactly the tasks without references, if
and only if the plan has a line, its arguments hold no parentheses, its names are not
begun by blanks, the marker of the end is in none of them, nothing follows a `join`, and
every reference has one digit. -/
theorem parseResult_follows_iff (ids : Nat → String) (plan : Plan) (newline : Bool) :
    (∃ thought, parseResult ids (plan.text newline) = .ok thought ∧ plan.Follows thought) ↔
      plan.Readable :=
  ⟨fun ⟨_, h, hfollows⟩ => readable_of_follows h hfollows,
    fun h => parseResult_of_readable h newline⟩

/-! ### Two plans that are read as others -/

/-- An id for every number. -/
def strokeId (n : Nat) : String := String.ofList (List.replicate n '|')

/-- `1. search({"q":"f(x)"})` -/
def bracketPlan : Plan where
  lines := [
    { name := "search".toList
      arguments := "\x7b\"q\":\"f(x)\"\x7d".toList.map .char
      nameInLine := by simp [isInLine]
      argumentsInLine := by decide }]
  backward i line h := by
    cases i with
    | zero =>
        obtain rfl := Option.some.inj h
        decide
    | succ i => cases h

def plainLine (arguments : List Argument) (h : ∀ argument ∈ arguments, argument.InLine) :
    PlanLine where
  name := "t".toList
  arguments := arguments
  nameInLine := by simp [isInLine]
  argumentsInLine := h

/-- Ten tasks without references, and `11. t($10)`. -/
def elevenTasks : Plan where
  lines := List.replicate 10 (plainLine [] nofun) ++
    [plainLine [.reference false 10] (by decide)]
  backward i line h := by
    by_cases hi : i < 10
    · rw [List.getElem?_append_left (by simpa using hi)] at h
      obtain rfl := List.eq_of_mem_replicate (List.mem_of_getElem? h)
      exact nofun
    · rw [List.getElem?_append_right (by simpa using hi)] at h
      obtain rfl := List.mem_singleton.mp (List.mem_of_getElem? h)
      intro k hk
      obtain rfl : k = 10 := by simpa [plainLine, PlanLine.references, Argument.reference?] using hk
      omega

/-- A parenthesis in the arguments moves the end of the name, and of a reference to the task
10 the digit 1 is left. -/
theorem parseResult_misreads :
    (actionMatches (planText false 1 bracketPlan.lines)
        = [⟨"1".toList, "search(\x7b\"q\":\"f".toList, "x".toList⟩] ∧
      ¬ ∃ thought, parseResult strokeId (bracketPlan.text false) = .ok thought ∧
        bracketPlan.Follows thought) ∧
    (namedDependencies 11 "$10".toList = .ok [1] ∧
      ¬ ∃ thought, parseResult strokeId (elevenTasks.text false) = .ok thought ∧
        elevenTasks.Follows thought) := by
  refine ⟨⟨by decide, ?_⟩, by decide, ?_⟩
  · rintro ⟨thought, h, hfollows⟩
    refine ((readable_of_follows h hfollows).lines _ List.mem_cons_self).opening ?_
    decide
  · rintro ⟨thought, h, hfollows⟩
    have hlast : plainLine [.reference false 10] (by decide) ∈ elevenTasks.lines :=
      List.mem_append_right _ List.mem_cons_self
    have hlt := (readable_of_follows h hfollows).references _ hlast (by decide) 10 (by decide)
    exact absurd hlt (by decide)

end Instinct
