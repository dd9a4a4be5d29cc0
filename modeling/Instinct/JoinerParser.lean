/-
Instinct/JoinerParser.lean

`LLMCompilerJoinerResultOutputParser::ParseResult`: what the executor reads out of the
joiner's reply.

The thought is the first line of it behind the blanks, and the action is what stands in
front of the last opening parenthesis of its line.  With one such parenthesis behind
an `Action:` the groups of the expression are determined, wherever it begins to match
(`groups_of_matchAt`), and a reply without parentheses in its text is read as it was
meant (`parseJoinerResult_reads`).  Whether replanning is enabled is not looked at.
-/
import Instinct.PlanParser
import Mathlib.Data.List.Basic
import Mathlib.Data.List.Infix

namespace Instinct

open Patterns

/-! ### The parser -/

/-- The options that the parser is given. -/
structure LLMCompilerJoinerResultOutputParserOptions where
  replanActionName : String := "Replan"
  answerForUnknown : String := "Unknown"
  replanEnabled : Bool := false

def actionToken : List Char := ['A', 'c', 't', 'i', 'o', 'n', ':']

/-- `Action:\s*(.+)\(([^\)]*)\)` -/
def joinerActionRegex : List (Piece Char) :=
  literally actionToken ++ .many isSpace :: .some isInLine :: argumentsRegex

/-- `action_match[1]`, the action name. -/
def actionGroup (runs : List (List Char)) : List Char := runs.getD 8 []

/-- `action_match[2]`, the answer. -/
def answerGroup (runs : List (List Char)) : List Char := runs.getD 10 []

/-- `ParseResult`, on the text of the generation. -/
def parseJoinerResult (options : LLMCompilerJoinerResultOutputParserOptions) (content : String) :
    LLMCompilerJoinerResult :=
  let result : LLMCompilerJoinerResult := { thought := String.ofList (thoughtLine content.toList) }
  let result :=
    match matches? joinerActionRegex content.toList with
    | [] => result
    | runs :: _ =>
        { result with
          isReplan := options.replanActionName.toList <:+: actionGroup runs
          answer := String.ofList (answerGroup runs) }
  if !result.isReplan && isBlankString result.answer then
    { result with answer := options.answerForUnknown }
  else result

/-! ### Replies -/

/-- The actions that the joiner is asked to choose from. -/
inductive JoinerAction
  | finish
  | replan
  deriving DecidableEq

def JoinerAction.name : JoinerAction → String
  | .finish => "Finish"
  | .replan => "Replan"

/-- The reply in the format that the joiner is asked for. -/
def joinerReply (thought : String) (action : JoinerAction) (text : String) : String :=
  "Thought: " ++ thought ++ "\nAction: " ++ action.name ++ "(" ++ text ++ ")"

/-- The first line behind the blanks. -/
def firstLine (text : List Char) : List Char := (text.dropWhile isSpace).takeWhile isInLine

/-! ### The groups of a match -/

section Groups

variable {cs front args rest : List Char} {runs : List (List Char)}

theorem exists_of_matchAt_argumentsRegex (h : matchAt argumentsRegex cs = some runs) :
    ∃ args rest, cs = '(' :: (args ++ ')' :: rest) ∧ ')' ∉ args ∧
      runs = [['('], args, [')']] := by
  obtain ⟨_, _, rfl, hinside, rfl⟩ := 
    @exists_of_matchAt_literally _ _ _ _ ['('] _ h
  obtain ⟨args, _, _, rfl, -, hargs, hclosing, rfl⟩ := exists_of_matchAt_cons hinside
  obtain ⟨rest, _, rfl, hend, rfl⟩ := 
    @exists_of_matchAt_literally _ _ _ _ [')'] _ hclosing
  obtain rfl := Option.some.inj hend
  refine ⟨args, rest, rfl, fun hmem => ?_, rfl⟩
  simpa using hargs ')' hmem

/-- Where the expression matches, and what its groups are there. -/
theorem exists_of_matchAt_joiner (h : matchAt joinerActionRegex cs = some runs) :
    ∃ blanks name args rest,
      cs = actionToken ++ blanks ++ name ++ '(' :: (args ++ ')' :: rest) ∧
      (∀ c ∈ blanks, isSpace c = true) ∧ (∀ c ∈ name, isInLine c = true) ∧ name ≠ [] ∧
      ')' ∉ args ∧ actionGroup runs = name ∧ answerGroup runs = args := by
  obtain ⟨_, _, rfl, hbehind, rfl⟩ := exists_of_matchAt_literally h
  obtain ⟨blanks, _, _, rfl, -, hblanks, hline, rfl⟩ := exists_of_matchAt_cons hbehind
  obtain ⟨name, _, _, rfl, hleast, hname, hparens, rfl⟩ := exists_of_matchAt_cons hline
  obtain ⟨args, rest, rfl, hargs, rfl⟩ := exists_of_matchAt_argumentsRegex hparens
  exact ⟨blanks, name, args, rest, by simp only [List.append_assoc], hblanks, hname,
    List.length_pos_iff.mp hleast, hargs, rfl, rfl⟩

/-- The only opening parenthesis stands behind the name, and the only closing one behind the
answer. -/
theorem groups_unique {name text : List Char} (hfront : '(' ∉ front) (hopening : '(' ∉ text)
    (hclosing : ')' ∉ text)
    (h : front ++ '(' :: (text ++ [')']) = name ++ '(' :: (args ++ ')' :: rest)) :
    front = name ∧ text = args := by
  have hbehind : '(' ∉ text ++ [')'] := by simpa using hopening
  obtain ⟨rfl, -, hrest⟩ := (List.append_cons_inj_of_notMem hfront hbehind).mp h
  exact ⟨rfl, ((List.append_cons_inj_of_notMem hclosing List.not_mem_nil).mp hrest).1⟩

end Groups

/-! ### The groups in a reply -/

section Reply

variable {thought text : List Char} {action : JoinerAction} {cs name : List Char}

/-- What stands in front of the thought. -/
def thoughtToken : List Char := ['T', 'h', 'o', 'u', 'g', 'h', 't', ':', ' ']

/-- The line of the action, up to its opening parenthesis, with the break in front of it. -/
def actionLine (action : JoinerAction) : List Char :=
  '\n' :: (actionToken ++ ' ' :: action.name.toList)

theorem suffix_append {α : Type} {l a b : List α} (h : l <:+ a ++ b) :
    l <:+ b ∨ ∃ x, x ≠ [] ∧ x <:+ a ∧ l = x ++ b := by
  rcases List.suffix_or_suffix_of_suffix h (List.suffix_append a b) with hsuffix | ⟨x, rfl⟩
  · exact .inl hsuffix
  · rcases eq_or_ne x [] with rfl | hx
    · exact .inl List.suffix_rfl
    · exact .inr ⟨x, hx, (List.suffix_append_self_iff).mp h, rfl⟩

/-- A token in front of a character that it does not have is the beginning of what stands there. -/
theorem exists_behind_token {token r x l : List Char} {c : Char} (hc : c ∉ token)
    (h : token ++ r = x ++ c :: l) : ∃ r', x = token ++ r' ∧ r = r' ++ c :: l := by
  rcases List.append_eq_append_iff.mp h with ⟨r', rfl, rfl⟩ | ⟨z, rfl, hz⟩
  · exact ⟨r', rfl, rfl⟩
  · cases z with
    | nil => exact ⟨[], by rw [List.append_nil, List.append_nil], hz.symm⟩
    | cons d z =>
        obtain rfl := (List.cons.inj hz).1
        exact absurd (List.mem_append_right x List.mem_cons_self) hc

theorem notMem_actionLine : '(' ∉ actionLine action := by
  cases action <;> decide

/-- The name of an action has neither a break, nor a blank, nor a colon in it. -/
theorem mem_name {c : Char} (hc : c ∈ action.name.toList) :
    isInLine c = true ∧ isSpace c = false ∧ c ≠ ':' := by
  have hall : (action.name.toList.all fun c => isInLine c && !isSpace c && c != ':') = true := by
    cases action <;> rfl
  simpa [and_assoc] using List.all_eq_true.mp hall c hc

/-- Where an `Action:` begins in front of the text of a reply, no opening parenthesis follows up to
the one of the action. -/
theorem notMem_of_suffix {rest : List Char}
    (hthought : ∀ front back, thought = front ++ actionToken ++ back → '(' ∉ back)
    (h : actionToken ++ rest <:+ thoughtToken ++ thought ++ actionLine action) :
    '(' ∉ actionToken ++ rest := by
  rcases suffix_append h with hline | ⟨x, -, hx, heq⟩
  · exact fun hmem => notMem_actionLine (hline.subset hmem)
  · -- the token lies in front of the line break
    obtain ⟨back, rfl, rfl⟩ := exists_behind_token (by decide) heq
    have hback : '(' ∉ back := by
      rcases suffix_append hx with ⟨front, hfront⟩ | ⟨y, hy, hsuffix, hwhole⟩
      · exact hthought front back (by rw [← hfront, List.append_assoc])
      · -- no token begins in front of the thought
        obtain ⟨c, y, rfl⟩ := List.exists_cons_of_ne_nil hy
        obtain rfl := (List.cons.inj hwhole).1
        exact absurd (hsuffix.subset List.mem_cons_self) (by decide : 'A' ∉ thoughtToken)
    rw [List.mem_append, List.mem_append, not_or, not_or]
    exact ⟨by decide, hback, notMem_actionLine⟩

/-- The blanks behind the token end with one of them, or with the colon of the token. -/
theorem eq_or_isSpace_of_concat {front blanks w : List Char} {c : Char}
    (hblanks : ∀ c ∈ blanks, isSpace c = true)
    (h : front ++ (actionToken ++ blanks) = w ++ [c]) : c = ':' ∨ isSpace c = true := by
  rcases List.eq_nil_or_concat blanks with rfl | ⟨blanks, d, rfl⟩
  · have hlast := congrArg List.getLast? h
    rw [List.append_nil, List.getLast?_append, List.getLast?_concat] at hlast
    exact .inl (Option.some.inj hlast).symm
  · rw [List.concat_eq_append, ← List.append_assoc, ← List.append_assoc] at h
    obtain rfl := (List.cons.inj (List.append_inj_right' h rfl)).1
    exact .inr (hblanks d (by simp))

/-- A name in front of the parenthesis is that of the action, with what stands before it on the
line. -/
theorem suffix_of_name {front blanks : List Char} (hname : ∀ c ∈ name, isInLine c = true)
    (hblanks : ∀ c ∈ blanks, isSpace c = true)
    (h : actionToken ++ blanks ++ name <:+ front ++ actionLine action) :
    action.name.toList <:+ name ∧ name <:+ actionLine action := by
  have hsuffix : name <:+ front ++ actionLine action := (List.suffix_append _ _).trans h
  have hline : actionLine action = '\n' :: (actionToken ++ [' ']) ++ action.name.toList := by
    cases action <;> rfl
  constructor
  · have haction : action.name.toList <:+ front ++ actionLine action :=
      hline ▸ (List.suffix_append _ _).trans (List.suffix_append _ _)
    rcases List.suffix_or_suffix_of_suffix haction hsuffix with hshort | ⟨x, hx⟩
    · exact hshort
    · rcases List.eq_nil_or_concat x with rfl | ⟨x, c, rfl⟩
      · exact hx ▸ List.suffix_rfl
      · -- the name would begin inside that of the action
        obtain ⟨q, hq⟩ := h
        have hends : q ++ (actionToken ++ blanks)
            = front ++ '\n' :: (actionToken ++ [' ']) ++ x ++ [c] := by
          rw [hline, ← hx, List.concat_eq_append] at hq
          apply @List.append_cancel_right _ _ name
          simpa only [List.append_assoc, List.cons_append] using hq
        have hc : c ∈ action.name.toList := hx ▸ by simp
        obtain ⟨-, hspace, hcolon⟩ := mem_name hc
        rcases eq_or_isSpace_of_concat hblanks hends with heq | hblank
        · exact absurd heq hcolon
        · exact Bool.noConfusion (hspace.symm.trans hblank)
  · rcases suffix_append hsuffix with hin | ⟨x, -, -, rfl⟩
    · exact hin
    · have hbreak := hname '\n' (List.mem_append_right x List.mem_cons_self)
      cases hbreak

/-- **The groups are determined.**  Wherever the expression matches in a reply, the answer is the
text, and the name ends with that of the action. -/
theorem groups_of_matchAt {runs : List (List Char)}
    (hthought : ∀ front back, thought = front ++ actionToken ++ back → '(' ∉ back)
    (hopening : '(' ∉ text) (hclosing : ')' ∉ text)
    (hsuffix : cs <:+ thoughtToken ++ thought ++ actionLine action ++ '(' :: (text ++ [')']))
    (h : matchAt joinerActionRegex cs = some runs) :
    action.name.toList <:+ actionGroup runs ∧ actionGroup runs <:+ actionLine action ∧
      answerGroup runs = text := by
  obtain ⟨blanks, name, args, rest, rfl, hblanks, hname, -, -, rfl, rfl⟩ :=
    exists_of_matchAt_joiner h
  rcases suffix_append hsuffix with hbehind | ⟨x, -, hx, heq⟩
  · -- behind the parenthesis there is no other one
    have htext : '(' ∉ text ++ [')'] := by simpa using hopening
    rcases List.suffix_cons_iff.mp hbehind with heq | hin
    · exact absurd (List.cons.inj heq).1 (by decide)
    · exact absurd (hin.subset (by simp)) htext
  · have htoken : actionToken
          ++ (blanks ++ actionGroup runs ++ '(' :: (answerGroup runs ++ ')' :: rest))
        = x ++ '(' :: (text ++ [')']) := by
      rw [← heq]
      simp only [List.append_assoc]
    obtain ⟨r, rfl, -⟩ := exists_behind_token (by decide) htoken
    obtain ⟨hfront, htext⟩ :=
      groups_unique (notMem_of_suffix hthought hx) hopening hclosing heq.symm
    rw [hfront] at hx
    obtain ⟨haction, hline⟩ := suffix_of_name hname hblanks hx
    exact ⟨haction, hline, htext.symm⟩

/-- The expression matches at the action. -/
theorem matches?_joiner_ne_nil (front : List Char)
    (htext : ∀ c ∈ text, isInLine c = true ∧ c ≠ '(') :
    matches? joinerActionRegex (front ++ actionLine action ++ '(' :: (text ++ [')'])) ≠ [] := by
  have hmatch : matchAt (.some isInLine :: argumentsRegex)
      (action.name.toList ++ '(' :: (text ++ ')' :: []))
        = some [action.name.toList, ['('], upToClosing text, [')']] := by
    refine matchAt_nameRegex ?_ ?_ htext nofun
    · cases action <;> decide
    · exact fun c hc => (mem_name hc).1
  have hhead : ∀ a ∈ (action.name.toList ++ '(' :: (text ++ ')' :: [])).head?,
      isSpace a = false := by
    intro a ha
    cases action
    · obtain rfl := Option.some.inj ha
      rfl
    · obtain rfl := Option.some.inj ha
      rfl
  have hblank : matchAt (.many isSpace :: .some isInLine :: argumentsRegex)
      ([' '] ++ (action.name.toList ++ '(' :: (text ++ ')' :: []))) = some ([' '] :: _) :=
    matchAt_run rfl (Nat.zero_le _) (List.forall_mem_singleton.mpr rfl) hhead hmatch
  have hline : matchAt
      (literally actionToken ++ (.many isSpace :: .some isInLine :: argumentsRegex))
      (actionToken ++ ([' '] ++ (action.name.toList ++ '(' :: (text ++ ')' :: [])))) = _ :=
    matchAt_literally actionToken _
  rw [hblank] at hline
  have hne : matches? _ (front ++ ['\n'] ++ _) ≠ [] :=
    matches?_ne_nil (by simp [actionToken]) hline
  have hall : front ++ ['\n']
        ++ (actionToken ++ ([' '] ++ (action.name.toList ++ '(' :: (text ++ ')' :: []))))
      = front ++ actionLine action ++ '(' :: (text ++ [')']) := by
    simp [actionLine]
  rwa [hall] at hne

/-- The first line of a thought stands behind its blanks, begins with a character that is none,
and ends in front of a break. -/
theorem exists_firstLine (hthought : ∃ c ∈ thought, isSpace c = false) :
    ∃ c line behind, firstLine thought = c :: line ∧ isSpace c = false ∧
      thought = thought.takeWhile isSpace ++ (firstLine thought ++ behind) ∧
      ∀ a ∈ behind.head?, isInLine a = false := by
  rcases hmore : thought.dropWhile isSpace with - | ⟨c, more⟩
  · obtain ⟨c, hmem, hc⟩ := hthought
    rw [List.dropWhile_eq_nil_iff.mp hmore c hmem] at hc
    cases hc
  have hc : isSpace c = false := by
    have h := List.head?_dropWhile_not isSpace thought
    rw [hmore] at h
    exact h
  have hinline : isInLine c = true := by
    by_contra hbreak
    have hor : c = '\n' ∨ c = '\r' := by
      simpa [isInLine, or_iff_not_imp_left] using hbreak
    rcases hor with rfl | rfl
    · cases hc
    · cases hc
  have hfirst : firstLine thought = c :: more.takeWhile isInLine := by
    rw [firstLine, hmore, List.takeWhile_cons_of_pos hinline]
  refine ⟨c, _, (c :: more).dropWhile isInLine, hfirst, hc, ?_, fun a ha => ?_⟩
  · rw [firstLine, hmore, List.takeWhile_append_dropWhile, ← hmore,
      List.takeWhile_append_dropWhile]
  · have h := List.head?_dropWhile_not isInLine (c :: more)
    rcases hdrop : (c :: more).dropWhile isInLine with - | ⟨d, rest⟩
    · rw [hdrop] at ha
      cases ha
    · rw [hdrop] at ha h
      obtain rfl := Option.some.inj ha
      exact h

/-- The thought is the first line behind the blanks. -/
theorem thoughtLine_reply (hthought : ∃ c ∈ thought, isSpace c = false) {tail : List Char}
    (htail : ∀ c ∈ tail.head?, isInLine c = false) :
    thoughtLine (thoughtToken ++ thought ++ tail) = firstLine thought := by
  obtain ⟨c, line, behind, hfirst, hc, hsplit, hbehind⟩ := exists_firstLine hthought
  have hhead : ∀ a ∈ (behind ++ tail).head?, isInLine a = false := by
    cases behind with
    | nil => exact htail
    | cons d behind => exact hbehind
  have hline : matchAt [.some isInLine] (firstLine thought ++ (behind ++ tail))
      = some [firstLine thought] := by
    refine matchAt_run rfl ?_ (fun a ha => List.mem_takeWhile_imp ha) hhead rfl
    rw [hfirst]
    exact Nat.succ_le_succ (Nat.zero_le _)
  have hblanks : matchAt [.many isSpace, .some isInLine]
      ((' ' :: thought.takeWhile isSpace) ++ (firstLine thought ++ (behind ++ tail)))
      = some [' ' :: thought.takeWhile isSpace, firstLine thought] := by
    refine matchAt_run rfl (Nat.zero_le _)
      (List.forall_mem_cons.mpr ⟨rfl, fun a ha => List.mem_takeWhile_imp ha⟩) (fun a ha => ?_) hline
    rw [hfirst] at ha
    obtain rfl := Option.some.inj ha
    exact hc
  have hmatch : matchAt (literally "Thought:".toList ++ [.many isSpace, .some isInLine])
      ("Thought:".toList
        ++ ((' ' :: thought.takeWhile isSpace) ++ (firstLine thought ++ (behind ++ tail)))) = _ :=
    matchAt_literally _ _
  rw [hblanks] at hmatch
  have hall : thoughtToken ++ thought ++ tail = "Thought:".toList
      ++ ((' ' :: thought.takeWhile isSpace) ++ (firstLine thought ++ (behind ++ tail))) := by
    conv_lhs => rw [hsplit]
    simp only [List.append_assoc]
    rfl
  have hmatches : matches? thoughtRegex _ = _ := matches?_of_some hmatch (by simp)
  rw [thoughtLine, hall, hmatches]
  rfl

end Reply

/-! ### What the parser reads -/

theorem toList_joinerReply (thought : String) (action : JoinerAction) (text : String) :
    (joinerReply thought action text).toList
      = thoughtToken ++ thought.toList ++ actionLine action ++ '(' :: (text.toList ++ [')']) := by
  rw [joinerReply]
  simp only [String.toList_append]
  cases action <;> simp [actionLine, thoughtToken, actionToken, JoinerAction.name]

section Read

variable {options : LLMCompilerJoinerResultOutputParserOptions} {thought text : String}
variable {action : JoinerAction}

theorem parseJoinerResult_joinerReply (hoptions : options.replanActionName = "Replan")
    (hsome : isBlankString thought = false)
    (hthought : ∀ front back, thought = front ++ "Action:" ++ back → '(' ∉ back.toList)
    (htext : ∀ c ∈ text.toList, isInLine c = true ∧ c ≠ '(' ∧ c ≠ ')') :
    parseJoinerResult options (joinerReply thought action text)
      = { thought := String.ofList (firstLine thought.toList)
          isReplan := decide (action = .replan)
          answer :=
            if action = .finish ∧ isBlankString text = true then options.answerForUnknown
            else text } := by
  have hvisible : ∃ c ∈ thought.toList, isSpace c = false := by
    simpa [isBlankString] using hsome
  have htoken : ∀ front back, thought.toList = front ++ actionToken ++ back → '(' ∉ back := by
    intro front back h
    have hstring : thought = String.ofList front ++ "Action:" ++ String.ofList back := by
      refine String.toList_injective ?_
      simp only [String.toList_append, String.toList_ofList]
      exact h
    simpa using hthought _ _ hstring
  have hopening : '(' ∉ text.toList := fun hmem => (htext _ hmem).2.1 rfl
  have hclosing : ')' ∉ text.toList := fun hmem => (htext _ hmem).2.2 rfl
  have hne := @matches?_joiner_ne_nil text.toList action (thoughtToken ++ thought.toList)
    fun c hc => ⟨(htext c hc).1, (htext c hc).2.1⟩
  have hline := @thoughtLine_reply thought.toList hvisible
    (actionLine action ++ '(' :: (text.toList ++ [')'])) fun c hc => by
      obtain rfl := Option.some.inj hc
      rfl
  rw [← List.append_assoc] at hline
  rcases hmatches : matches? joinerActionRegex (joinerReply thought action text).toList
    with - | ⟨runs, others⟩
  · rw [toList_joinerReply] at hmatches
    exact absurd hmatches hne
  · obtain ⟨cs, hsuffix, hmatch⟩ := exists_matchAt_of_mem (hmatches ▸ List.mem_cons_self)
    rw [toList_joinerReply] at hsuffix
    obtain ⟨haction, hin, hanswer⟩ := groups_of_matchAt htoken hopening hclosing hsuffix hmatch
    have hreplan : options.replanActionName.toList <:+: actionGroup runs ↔ action = .replan := by
      rw [hoptions]
      cases action with
      | replan => exact iff_of_true haction.isInfix rfl
      | finish =>
          refine iff_of_false (fun h => ?_) (JoinerAction.noConfusion ·)
          exact absurd (h.trans hin.isInfix) (by decide)
    rw [parseJoinerResult, hmatches, toList_joinerReply, hline]
    simp only [hreplan, hanswer, String.ofList_toList]
    cases action with
    | replan => rfl
    | finish =>
        by_cases hblank : isBlankString text = true
        · simp [hblank]
        · simp [hblank]

end Read

/-- A reply is read as it was meant, the blanks in front of its thought aside. -/
structure ReadsReply (options : LLMCompilerJoinerResultOutputParserOptions) (thought : String)
    (action : JoinerAction) (text : String) (result : LLMCompilerJoinerResult) : Prop where
  thought : result.thought = String.ofList (firstLine thought.toList)
  isReplan : result.isReplan = true ↔ action = .replan
  answer : action = .finish →
    result.answer = if isBlankString text then options.answerForUnknown else text

/-- **The reply is read** whatever words it has, and whether replanning is enabled or not. -/
theorem parseJoinerResult_reads (options : LLMCompilerJoinerResultOutputParserOptions)
    (hoptions : options.replanActionName = "Replan") {thought text : String}
    (action : JoinerAction) (hsome : isBlankString thought = false)
    (hthought : ∀ front back, thought = front ++ "Action:" ++ back → '(' ∉ back.toList)
    (htext : ∀ c ∈ text.toList, isInLine c = true ∧ c ≠ '(' ∧ c ≠ ')') :
    ReadsReply options thought action text
      (parseJoinerResult options (joinerReply thought action text)) := by
  rw [parseJoinerResult_joinerReply hoptions hsome hthought htext]
  refine ⟨rfl, decide_eq_true_iff, ?_⟩
  rintro rfl
  simp only [true_and]

/-- An answer that speaks of replanning is an answer. -/
theorem parseJoinerResult_reads_answer :
    ReadsReply { answerForUnknown := "None" } "I could Replan." .finish "Replan or Finish"
      (parseJoinerResult { answerForUnknown := "None" }
        (joinerReply "I could Replan." .finish "Replan or Finish")) := by
  refine parseJoinerResult_reads _ rfl .finish (by decide) (fun front back h => ?_)
    (by simp [isInLine])
  have hcolon : ':' ∈ "I could Replan.".toList := by
    rw [h]
    simp
  exact absurd hcolon (by decide)

/-- The joiner replans where that is not enabled. -/
theorem parseJoinerResult_replans :
    ¬ ∀ (options : LLMCompilerJoinerResultOutputParserOptions) (thought : String)
      (action : JoinerAction) (text : String), options.replanActionName = "Replan" →
      (∀ c ∈ text.toList, isInLine c = true) →
      (parseJoinerResult options (joinerReply thought action text)).thought = thought ∧
      ((parseJoinerResult options (joinerReply thought action text)).isReplan = true ↔
        action = .replan ∧ options.replanEnabled = true) ∧
      (action = .finish →
        (parseJoinerResult options (joinerReply thought action text)).answer
          = if isBlankString text then options.answerForUnknown else text) := by
  intro h
  obtain ⟨-, hreplan, -⟩ := h {} "wrong" .replan "" rfl (by simp)
  have hread := @parseJoinerResult_joinerReply {} "wrong" "" .replan rfl (by decide)
    (fun front back h => by
      have hcolon : ':' ∈ "wrong".toList := by
        rw [h]
        simp
      exact absurd hcolon (by decide)) (by simp)
  rw [hread] at hreplan
  exact absurd (hreplan.mp rfl).2 (by decide)

end Instinct
