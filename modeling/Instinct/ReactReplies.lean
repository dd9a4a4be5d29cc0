/-
Instinct/ReactReplies.lean

`ReACTAgentThoughtOutputParser`: what the planner of a ReACT agent reads out of a reply.

The thought is what stands before the first "Action: ", and the name and the input of the action
are taken from the last line that has their token.  The scratch pad of the next prompt prints
them again.  What is printed is read as it was if and only if each part keeps to its place
(`parseResult_actText_iff`), and of a part that was read once only the input can leave it.
-/
import Instinct.Chains
import Instinct.LocalToolkits
import Instinct.Splitting
import Instinct.StringUtils

namespace Instinct.React

open Chains LocalToolkits Splitting StringUtils

/-! ### The parser -/

/-- `ReACTAgentStepOutputParserOptions`. -/
structure ReACTAgentStepOutputParserOptions where
  finalAnswerTokens : String := "Final Answer: "
  actionNameToken : String := "Action: "
  actionInputToken : String := "Action Input: "

/-- `StringUtils::ReSplit` with `\n+`: a line that is empty counts at the start only. -/
def reSplitLines (content : List Char) : List (List Char) :=
  match content.splitOn '\n' with
  | [] => []
  | first :: rest => first :: rest.filter fun line => line ≠ []

/-- What is behind the first occurrence of the token. -/
def behind? (token : String) (text : List Char) : Option (List Char) :=
  (cut token.toList text).map Prod.snd

/-- What is behind the token, in the last line that has it. -/
def behindLast (token : String) (lines : List (List Char)) : List Char :=
  lines.foldl (fun found line => (behind? token line).getD found) []

/-- The thought that calls a function. -/
def actThought (id : String) (thought name arguments : List Char) : AgentThought :=
  .continuation {
    toolCallMessage := some {
      content := String.ofList thought
      toolCalls := [{
        id := id
        function := some { name := String.ofList name, arguments := String.ofList arguments } }] } }

section Parser

variable (options : ReACTAgentStepOutputParserOptions)

/-- The text before the first "Action: ". -/
def thoughtOf (content : List Char) : List Char :=
  ((cut options.actionNameToken.toList content).map fun halves => StringUtils.trim halves.1).getD []

/-- `ReACTAgentThoughtOutputParser::ParseResult`. -/
def parseResult (uuid : Uuid) (generation : Generation) : Except Exn AgentThought :=
  let content := generation.stringify.toList
  let thought := thoughtOf options content
  let lines := reSplitLines content
  let actionName := behindLast options.actionNameToken lines
  let actionInput := behindLast options.actionInputToken lines
  let finalAnswer := (behind? options.finalAnswerTokens content).getD []
  if isNotBlankString (String.ofList actionName) && isNotBlankString (String.ofList thought) then
    .ok (actThought uuid.val thought actionName actionInput)
  else if isNotBlankString (String.ofList finalAnswer) then
    .ok (.finish { response := String.ofList finalAnswer })
  else .error (.instinct "Illegal response for a ReACT agent.")

end Parser

/-- An action as the scratch pad prints it. -/
def actText (thought name arguments : List Char) : List Char :=
  thought ++ "\nAction: ".toList ++ name ++ "\nAction Input: ".toList ++ arguments

/-! ### Lines -/

section Lines

variable {token : String} {content : List Char} {lines : List (List Char)}

theorem behind?_nil (htoken : token.toList ≠ []) : behind? token [] = none := by
  rw [behind?, (cut_eq_none_iff htoken).mpr fun h => htoken (List.infix_nil.mp h)]
  rfl

/-- What is behind the token in one of two parts of the lines. -/
theorem behindLast_append (front back : List (List Char)) :
    behindLast token (front ++ back)
      = back.foldl (fun found line => (behind? token line).getD found)
          (behindLast token front) :=
  List.foldl_append

/-- Empty lines do not matter. -/
theorem behindLast_reSplitLines (htoken : token.toList ≠ []) (content : List Char) :
    behindLast token (reSplitLines content) = behindLast token (content.splitOn '\n') := by
  rw [reSplitLines]
  split
  · rename_i h
    rw [h]
  · rename_i first rest h
    rw [h, behindLast, behindLast, List.foldl_cons, List.foldl_cons]
    generalize (behind? token first).getD [] = found
    clear h
    induction rest generalizing found with
    | nil => rfl
    | cons line rest ih =>
        rw [List.foldl_cons, ← ih]
        by_cases hline : line = []
        · rw [List.filter_cons_of_neg (by simpa using hline), hline, behind?_nil htoken]
          rfl
        · rw [List.filter_cons_of_pos (by simpa using hline), List.foldl_cons]

theorem mem_of_behind? {text rest : List Char} (h : behind? token text = some rest) {c : Char}
    (hc : c ∈ rest) : c ∈ text := by
  obtain ⟨⟨before, after⟩, hcut, rfl⟩ := Option.map_eq_some_iff.mp h
  rw [append_of_cut hcut]
  exact List.mem_append_right _ (List.mem_append_right _ hc)

/-- What is found in lines is part of a line. -/
theorem notMem_behindLast {c : Char} (h : ∀ line ∈ lines, c ∉ line) :
    c ∉ behindLast token lines := by
  refine List.foldlRecOn (motive := fun found => c ∉ found) lines _ List.not_mem_nil
    fun found hfound line hline => ?_
  cases hbehind : behind? token line with
  | none => exact hfound
  | some rest => exact fun hc => h line hline (mem_of_behind? hbehind hc)

theorem notMem_behindLast_reSplitLines (htoken : token.toList ≠ []) :
    '\n' ∉ behindLast token (reSplitLines content) := by
  rw [behindLast_reSplitLines htoken]
  exact notMem_behindLast fun line => notMem_of_mem_splitOn

/-- Nothing is found in lines without the token. -/
theorem behindLast_eq_nil (h : ∀ line ∈ lines, behind? token line = none) :
    behindLast token lines = [] := by
  induction lines with
  | nil => rfl
  | cons line lines ih =>
      rw [behindLast, List.foldl_cons, h line List.mem_cons_self]
      exact ih fun other hother => h other (List.mem_cons_of_mem _ hother)

end Lines

/-! ### Printed actions -/

section Printed

variable {thought name arguments : List Char}

/-- The default tokens. -/
def actionNameToken : List Char := "Action: ".toList

def actionInputToken : List Char := "Action Input: ".toList

theorem actText_eq : actText thought name arguments
    = thought ++ '\n' ::
        (actionNameToken ++ (name ++ '\n' :: (actionInputToken ++ arguments))) := by
  simp only [actText, List.append_assoc]
  rfl

theorem actionNameToken_ne : actionNameToken ≠ [] := by decide

theorem notMem_actionNameToken : '\n' ∉ actionNameToken := by decide

/-- An occurrence of "Action: " does not begin in "Action Input: ". -/
theorem cut_actionInputToken (arguments : List Char) :
    cut actionNameToken (actionInputToken ++ arguments)
      = (cut actionNameToken arguments).map fun halves =>
          (actionInputToken ++ halves.1, halves.2) := by
  have hname : actionNameToken = ['A', 'c', 't', 'i', 'o', 'n', ':', ' '] := rfl
  have hinput : actionInputToken
      = ['A', 'c', 't', 'i', 'o', 'n', ' ', 'I', 'n', 'p', 'u', 't', ':', ' '] := rfl
  simp only [hname, hinput, List.cons_append, List.nil_append, cut, List.isPrefixOf,
    Char.reduceBEq, Bool.true_and, Bool.false_and, Bool.false_eq_true, if_false, Option.map_map]
  rfl

/-- The printed thought is read up to the action behind it. -/
theorem thoughtOf_actText (h : ¬ actionNameToken <:+: thought) :
    thoughtOf {} (actText thought name arguments) = StringUtils.trim thought := by
  have hcut : cut actionNameToken (actText thought name arguments)
      = some (thought ++ ['\n'], name ++ '\n' :: (actionInputToken ++ arguments)) := by
    rw [actText_eq, cut_append_cons notMem_actionNameToken
      ((cut_eq_none_iff actionNameToken_ne).mpr h) actionNameToken_ne,
      cut_self_append actionNameToken_ne]
    rfl
  show ((cut actionNameToken _).map _).getD [] = _
  rw [hcut]
  exact StringUtils.trim_concat_space rfl thought

/-- With a token in it, it is not. -/
theorem thoughtOf_actText_ne (h : actionNameToken <:+: thought) :
    thoughtOf {} (actText thought name arguments) ≠ thought := by
  obtain ⟨⟨before, after⟩, hcut⟩ : ∃ halves, cut actionNameToken thought = some halves :=
    Option.ne_none_iff_exists'.mp fun hnone => (cut_eq_none_iff actionNameToken_ne).mp hnone h
  show ((cut actionNameToken _).map _).getD [] ≠ _
  rw [actText_eq, cut_append hcut]
  intro heq
  have hlength := congrArg List.length (append_of_cut hcut)
  have hle := length_trim_le before
  rw [show StringUtils.trim before = thought from heq, List.length_append, List.length_append] at *
  have hpos := List.length_pos_iff.mpr actionNameToken_ne
  omega

theorem splitOn_actText (hname : '\n' ∉ name) (harguments : '\n' ∉ arguments) :
    (actText thought name arguments).splitOn '\n'
      = thought.splitOn '\n' ++ [actionNameToken ++ name, actionInputToken ++ arguments] := by
  have hfirst : '\n' ∉ actionNameToken ++ name :=
    fun h => (List.mem_append.mp h).elim notMem_actionNameToken hname
  have hsecond : '\n' ∉ actionInputToken ++ arguments :=
    fun h => (List.mem_append.mp h).elim (by decide) harguments
  rw [actText_eq, List.splitOn_append_cons_self, ← List.append_assoc,
    List.splitOn_append_cons_self_of_not_mem hfirst, List.splitOn_eq_singleton hsecond]

/-- The name is read from the line of the action, unless its token is in the input. -/
theorem actionName_actText (h : ¬ actionNameToken <:+: thought) (hname : '\n' ∉ name)
    (harguments : '\n' ∉ arguments) :
    behindLast "Action: " (reSplitLines (actText thought name arguments))
      = (behind? "Action: " arguments).getD name := by
  have hnone : ∀ line ∈ thought.splitOn '\n', behind? "Action: " line = none := by
    intro line hline
    rw [behind?, Option.map_eq_none_iff]
    exact (cut_eq_none_iff actionNameToken_ne).mpr
      fun hinside => h (hinside.trans (isInfix_of_mem_splitOn hline))
  have hline : behind? "Action: " (actionNameToken ++ name) = some name :=
    congrArg (Option.map Prod.snd) (cut_self_append actionNameToken_ne name)
  have hlast : behind? "Action: " (actionInputToken ++ arguments)
      = behind? "Action: " arguments := by
    rw [behind?, behind?]
    refine (congrArg (Option.map Prod.snd) (cut_actionInputToken arguments)).trans ?_
    rw [Option.map_map]
    rfl
  rw [behindLast_reSplitLines actionNameToken_ne, splitOn_actText hname harguments,
    behindLast_append, behindLast_eq_nil hnone]
  simp only [List.foldl, hline, hlast, Option.getD_some]

/-- The input is read from its line. -/
theorem actionInput_actText (hname : '\n' ∉ name) (harguments : '\n' ∉ arguments) :
    behindLast "Action Input: " (reSplitLines (actText thought name arguments)) = arguments := by
  have hlast : behind? "Action Input: " (actionInputToken ++ arguments) = some arguments :=
    congrArg (Option.map Prod.snd) (cut_self_append (by decide) arguments)
  rw [behindLast_reSplitLines (by decide), splitOn_actText hname harguments, behindLast_append]
  simp only [List.foldl, hlast, Option.getD_some]

/-- Each part of an action keeps to its place when it is printed. -/
structure KeepsPlace (thought name arguments : List Char) : Prop where
  trimmed : StringUtils.trim thought = thought
  thought_ne : thought ≠ []
  unmarked : ¬ actionNameToken <:+: thought
  name_ne : StringUtils.trim name ≠ []
  nameLine : '\n' ∉ name
  argumentsLine : '\n' ∉ arguments
  /-- A token in the input is followed by the name. -/
  argumentsName : ∀ rest, behind? "Action: " arguments = some rest → rest = name

theorem actThought_inj {id id' : String} {thought' name' arguments' : List Char} :
    actThought id thought name arguments = actThought id' thought' name' arguments' ↔
      id = id' ∧ thought = thought' ∧ name = name' ∧ arguments = arguments' := by
  refine ⟨fun h => ?_, by rintro ⟨rfl, rfl, rfl, rfl⟩; rfl⟩
  simp only [actThought, AgentThought.continuation.injEq, AgentContinuation.mk.injEq,
    Option.some.injEq, Message.mk.injEq, List.cons.injEq, ToolCallObject.mk.injEq,
    ToolCallFunctionObject.mk.injEq, String.ofList_inj, true_and, and_true] at h
  exact ⟨h.2.1, h.1, h.2.2.1, h.2.2.2⟩

/-- When a reply is read as an action. -/
theorem parseResult_eq_act_iff {uuid : Uuid} {generation : Generation} :
    parseResult {} uuid generation = .ok (actThought uuid.val thought name arguments) ↔
      thoughtOf {} generation.stringify.toList = thought ∧
      behindLast "Action: " (reSplitLines generation.stringify.toList) = name ∧
      behindLast "Action Input: " (reSplitLines generation.stringify.toList) = arguments ∧
      StringUtils.trim name ≠ [] ∧ StringUtils.trim thought ≠ [] := by
  rw [parseResult]
  simp only [Bool.and_eq_true, isNotBlankString_ofList_iff]
  split
  · rename_i hread
    rw [Except.ok.injEq, actThought_inj]
    constructor
    · rintro ⟨-, rfl, rfl, rfl⟩
      exact ⟨rfl, rfl, rfl, hread⟩
    · rintro ⟨rfl, rfl, rfl, -⟩
      exact ⟨rfl, rfl, rfl, rfl⟩
  · rename_i hread
    constructor
    · split <;> exact nofun
    · rintro ⟨rfl, rfl, rfl, hname, hthought⟩
      exact absurd ⟨hname, hthought⟩ hread

/-- **What is printed is read as it was** if and only if each part keeps its place. -/
theorem parseResult_actText_iff (uuid : Uuid) (thought name arguments : List Char) :
    parseResult {} uuid { text := String.ofList (actText thought name arguments) }
        = .ok (actThought uuid.val thought name arguments) ↔
      KeepsPlace thought name arguments := by
  rw [parseResult_eq_act_iff]
  show thoughtOf {} (String.toList (String.ofList _)) = _ ∧
    behindLast _ (reSplitLines (String.toList (String.ofList _))) = _ ∧
    behindLast _ (reSplitLines (String.toList (String.ofList _))) = _ ∧ _ ↔ _
  rw [String.toList_ofList]
  constructor
  · rintro ⟨hthought, hname, harguments, hnameNe, hthoughtNe⟩
    have hunmarked : ¬ actionNameToken <:+: thought := fun h => thoughtOf_actText_ne h hthought
    have htrim := hthought
    rw [thoughtOf_actText hunmarked] at htrim
    have hnameLine : '\n' ∉ name := by
      rw [← hname]
      exact notMem_behindLast_reSplitLines actionNameToken_ne
    have hargumentsLine : '\n' ∉ arguments := by
      rw [← harguments]
      exact notMem_behindLast_reSplitLines (by decide)
    rw [actionName_actText hunmarked hnameLine hargumentsLine] at hname
    refine ⟨htrim, fun hnil => hthoughtNe (by rw [hnil]; rfl), hunmarked, hnameNe, hnameLine,
      hargumentsLine, fun rest hrest => ?_⟩
    rwa [hrest] at hname
  · intro h
    rw [thoughtOf_actText h.unmarked, actionName_actText h.unmarked h.nameLine h.argumentsLine,
      actionInput_actText h.nameLine h.argumentsLine, h.trimmed]
    refine ⟨rfl, ?_, rfl, h.name_ne, h.thought_ne⟩
    cases hbehind : behind? "Action: " arguments with
    | none => rfl
    | some rest => exact h.argumentsName rest hbehind

end Printed

/-! ### Actions that were read -/

/-- An action that a reply can be read as. -/
structure Act where
  thought : List Char
  name : List Char
  arguments : List Char
  trimmed : StringUtils.trim thought = thought
  thought_ne : thought ≠ []
  unmarked : ¬ actionNameToken <:+: thought
  name_ne : StringUtils.trim name ≠ []
  nameLine : '\n' ∉ name
  argumentsLine : '\n' ∉ arguments

theorem trim_thoughtOf (content : List Char) :
    StringUtils.trim (thoughtOf {} content) = thoughtOf {} content := by
  rw [thoughtOf]
  rcases cut _ content with - | ⟨before, after⟩
  · rfl
  · exact trim_trim before

theorem not_infix_thoughtOf (content : List Char) :
    ¬ actionNameToken <:+: thoughtOf {} content := by
  show ¬ _ <:+: ((cut actionNameToken content).map _).getD []
  rcases hcut : cut actionNameToken content with - | ⟨before, after⟩
  · exact fun h => actionNameToken_ne (List.infix_nil.mp h)
  · exact fun h =>
      not_infix_before actionNameToken_ne hcut (h.trans (StringUtils.trim_isInfix before))

/-- What a reply decides. -/
inductive Decision
  | call (act : Act)
  | finish (response : List Char)

/-- The decision, as a thought. -/
def Decision.toThought (id : String) : Decision → AgentThought
  | .call act => actThought id act.thought act.name act.arguments
  | .finish response => .finish { response := String.ofList response }

/-- What is read out of a reply. -/
def decision (content : List Char) : Except Exn Decision :=
  if h : StringUtils.trim (behindLast "Action: " (reSplitLines content)) ≠ [] ∧
      StringUtils.trim (thoughtOf {} content) ≠ [] then
    .ok (.call {
      thought := thoughtOf {} content
      name := behindLast "Action: " (reSplitLines content)
      arguments := behindLast "Action Input: " (reSplitLines content)
      trimmed := trim_thoughtOf content
      thought_ne := fun hnil => h.2 (by rw [hnil]; rfl)
      unmarked := not_infix_thoughtOf content
      name_ne := h.1
      nameLine := notMem_behindLast_reSplitLines actionNameToken_ne
      argumentsLine := notMem_behindLast_reSplitLines (by decide) })
  else if StringUtils.trim ((behind? "Final Answer: " content).getD []) ≠ [] then
    .ok (.finish ((behind? "Final Answer: " content).getD []))
  else .error (.instinct "Illegal response for a ReACT agent.")

/-- The parser reads what a reply decides. -/
theorem parseResult_eq_decision (uuid : Uuid) (generation : Generation) :
    parseResult {} uuid generation
      = (decision generation.stringify.toList).map (Decision.toThought uuid.val) := by
  rw [parseResult, decision]
  simp only [Bool.and_eq_true, isNotBlankString_ofList_iff]
  split
  · rw [Except.map, Decision.toThought]
  · split
    · rw [Except.map, Decision.toThought]
    · rw [Except.map]

theorem exists_act_of_parseResult {uuid : Uuid} {generation : Generation}
    {thought name arguments : List Char}
    (h : parseResult {} uuid generation = .ok (actThought uuid.val thought name arguments)) :
    ∃ act : Act, act.thought = thought ∧ act.name = name ∧ act.arguments = arguments := by
  rw [parseResult_eq_decision] at h
  obtain ⟨d, -, hd⟩ := map_eq_ok.mp h
  cases d with
  | call act =>
      obtain ⟨-, hthought, hname, harguments⟩ := actThought_inj.mp hd
      exact ⟨act, hthought, hname, harguments⟩
  | finish response => cases hd

/-- **Main result.**  A printed action is read as it was if and only if each part keeps its place.
For an action that was read out of a reply this depends on its input alone: where the input has an
"Action: ", the name has to be what follows the first one. -/
theorem printed_action_is_read_iff :
    (∀ (uuid : Uuid) (thought name arguments : List Char),
      parseResult {} uuid { text := String.ofList (actText thought name arguments) }
          = .ok (actThought uuid.val thought name arguments) ↔
        KeepsPlace thought name arguments) ∧
    ∀ (uuid : Uuid) (generation : Generation) (thought name arguments : List Char),
      parseResult {} uuid generation = .ok (actThought uuid.val thought name arguments) →
      ∀ uuid' : Uuid,
        (parseResult {} uuid' { text := String.ofList (actText thought name arguments) }
            = .ok (actThought uuid'.val thought name arguments) ↔
          ∀ rest, behind? "Action: " arguments = some rest → rest = name) := by
  refine ⟨parseResult_actText_iff, fun uuid generation thought name arguments h uuid' => ?_⟩
  obtain ⟨act, rfl, rfl, rfl⟩ := exists_act_of_parseResult h
  rw [parseResult_actText_iff]
  exact ⟨KeepsPlace.argumentsName, fun hplace => ⟨act.trimmed, act.thought_ne, act.unmarked,
    act.name_ne, act.nameLine, act.argumentsLine, hplace⟩⟩

end Instinct.React
