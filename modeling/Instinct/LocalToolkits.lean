/-
Instinct/LocalToolkits.lean

`LocalToolkitsWorker` over a list of toolkits.

The worker picks a call once for each toolkit that has a tool for it (`pickCalls_eq`),
counts the calls it was given, and answers as many of the picked ones.  If these are
fewer, it reads past them and throws (`exists_answered_iff`).  If they are more, earlier
calls are answered twice and the last ones not (`keys_take_picked_iff`).  So it throws
for errors of tools only, and answers each supported call once otherwise, under the
condition of `localToolkitsWorker_answersSupported_iff`.

With one toolkit the picked calls are those of the task handler's worker
(`filterToolCalls_eq`).
-/
import Instinct.Handler

namespace Instinct.LocalToolkits

open Effects

/-! ### Tools and toolkits -/

/-- What `StringUtils::GenerateUUIDString` gives. -/
abbrev Uuid := { text : String // isNotBlankString text = true }

/-- A function tool, by the name of its schema and by what it makes of a call. -/
structure BaseFunctionTool where
  name : String
  run : ToolCallObject → Except Exn FunctionToolResult

/-- `BaseFunctionTool::Invoke`.  A call without an id is given one. -/
def BaseFunctionTool.invoke (tool : BaseFunctionTool) (uuid : Uuid) (invocation : ToolCallObject) :
    Except Exn FunctionToolResult :=
  (tool.run invocation).map fun result =>
    { result with
      invocationId := if isBlankString invocation.id then uuid.val else invocation.id }

/-- `e.what()` of a `std::runtime_error`, which an `InstinctException` is not. -/
def runtimeError? : Exn → Option String
  | .runtime what => some what
  | _ => none

/-- `InvokeWithRetry_`, where `execute` is told how many attempts there were. -/
def invokeWithRetry (execute : Nat → String → Except Exn String) (maxAttempts : Nat)
    (invocation : ToolCallObject) (retryCount : Nat) : Except Exn FunctionToolResult :=
  match execute retryCount invocation.functionOrDefault.arguments with
  | .ok value => .ok { returnValue := value }
  | .error e =>
      match runtimeError? e with
      | none => .error e
      | some what =>
          if retryCount + 1 < maxAttempts then
            invokeWithRetry execute maxAttempts invocation (retryCount + 1)
          else .ok { exception := what }
termination_by maxAttempts - retryCount

/-- A tool that is given by its `Execute`. -/
def executeTool (name : String) (maxAttempts : Nat) (execute : Nat → String → Except Exn String) :
    BaseFunctionTool where
  name := name
  run invocation := invokeWithRetry execute maxAttempts invocation 0

/-- The tools of a `LocalFunctionToolkit`.  A name counts for the tool registered first. -/
abbrev FunctionToolkit := List BaseFunctionTool

/-- `functions_map_`, as a function. -/
def FunctionToolkit.toolNamed? (toolkit : FunctionToolkit) (name : String) :
    Option BaseFunctionTool :=
  toolkit.find? fun tool => tool.name = name

/-- `LookupFunctionTool`. -/
def FunctionToolkit.lookupFunctionTool (toolkit : FunctionToolkit) (name : String) :
    Except Exn (Option BaseFunctionTool) := do
  assertTrue (isNotBlankString name) "Lookup by name is supported only."
  pure (toolkit.toolNamed? name)

/-! ### `LocalToolkitsWorker` -/

/-- A call, once for each of some toolkits that has a tool for it. -/
def pickCall (call : ToolCallObject) : List FunctionToolkit → Except Exn (List ToolCallObject)
  | [] => pure []
  | toolkit :: toolkits => do
      let tool ← toolkit.lookupFunctionTool call.functionOrDefault.name
      let picked ← pickCall call toolkits
      pure (if tool.isSome then call :: picked else picked)

/-- `filtered_tool_calls`. -/
def pickCalls (toolkits : List FunctionToolkit) :
    List ToolCallObject → Except Exn (List ToolCallObject)
  | [] => pure []
  | call :: calls => do
      let first ← pickCall call toolkits
      let others ← pickCalls toolkits calls
      pure (first ++ others)

/-- Invoke a call in the first toolkit that has a tool for it. -/
def invokeCall (uuid : Uuid) (call : ToolCallObject) :
    List FunctionToolkit → Except Exn FunctionToolResult
  | [] => .error (.instinct ("Unresolved invocation: id=" ++ call.id ++ ", name="
      ++ call.functionOrDefault.name))
  | toolkit :: toolkits => do
      match ← toolkit.lookupFunctionTool call.functionOrDefault.name with
      | some tool => tool.invoke uuid call
      | none => invokeCall uuid call toolkits

/-- Answer the picked calls at some indices.  The futures are waited for in this order. -/
def answerPicked (toolkits : List FunctionToolkit) (uuids : Nat → Uuid)
    (picked : List ToolCallObject) (indices : List Nat) : Except Exn (List Message) :=
  indices.mapM fun i => do
    let call ← toolCallAt picked i
    let result ← invokeCall (uuids i) call toolkits
    functionMessage result

/-- The calls of `continuation.tool_call_message()`. -/
def requestedCalls (continuation : AgentContinuation) : List ToolCallObject :=
  (continuation.toolCallMessage.getD {}).toolCalls

/-- `LocalToolkitsWorker::Invoke`. -/
def localToolkitsWorker (toolkits : List FunctionToolkit) (uuids : Nat → Uuid)
    (continuation : AgentContinuation) : Except Exn AgentObservation := do
  let filtered ← pickCalls toolkits (requestedCalls continuation)
  if filtered = [] then pure {}
  else do
    -- the calls are counted, not the filtered ones
    let messages ← answerPicked toolkits uuids filtered
      (List.range (requestedCalls continuation).length)
    pure { toolMessages := messages }

theorem hasError_of_invokeWithRetry {execute : Nat → String → Except Exn String}
    {maxAttempts retryCount : Nat} {invocation : ToolCallObject} {result : FunctionToolResult}
    (h : invokeWithRetry execute maxAttempts invocation retryCount = .ok result) :
    result.hasError = false := by
  fun_induction invokeWithRetry execute maxAttempts invocation retryCount with
  | case1 =>
      obtain rfl := Except.ok.inj h
      rfl
  | case2 => cases h
  | case3 _ _ _ _ _ _ ih => exact ih h
  | case4 =>
      obtain rfl := Except.ok.inj h
      rfl

/-- A tool that is given by its `Execute` never says that its result is an error: it throws, or
the text of a `std::runtime_error` is in the result. -/
theorem hasError_executeTool {name : String} {maxAttempts : Nat}
    {execute : Nat → String → Except Exn String} {invocation : ToolCallObject}
    {result : FunctionToolResult}
    (h : (executeTool name maxAttempts execute).run invocation = .ok result) :
    result.hasError = false :=
  hasError_of_invokeWithRetry h

/-! ### What is expected of the worker -/

section Expected

variable (toolkits : List FunctionToolkit)

/-- Some toolkit has a tool for the call. -/
def Supported (call : ToolCallObject) : Prop :=
  ∃ toolkit ∈ toolkits, ∃ tool ∈ toolkit, tool.name = call.functionOrDefault.name

instance : DecidablePred (Supported toolkits) := fun call =>
  inferInstanceAs (Decidable (∃ toolkit ∈ toolkits, ∃ tool ∈ toolkit,
    tool.name = call.functionOrDefault.name))

/-- The first tool for a call. -/
def toolFor? (call : ToolCallObject) : Option BaseFunctionTool :=
  toolkits.findSome? fun toolkit => toolkit.toolNamed? call.functionOrDefault.name

/-- The tool for the call throws, or its result says that it is an error. -/
def ReportsError (call : ToolCallObject) : Prop :=
  ∃ tool ∈ toolFor? toolkits call, ∀ result, tool.run call = .ok result → result.hasError = true

/-- The result of a call, if there is a tool for it that does not report an error. -/
def value? (call : ToolCallObject) : Option String :=
  (toolFor? toolkits call).bind fun tool =>
    match tool.run call with
    | .ok result => if result.hasError then none else some result.returnValue
    | .error _ => none

/-- The message of a call that carries its id and its result. -/
structure IsAnswer (call : ToolCallObject) (message : Message) : Prop where
  role : message.role = "tool"
  id : message.toolCallId = call.id
  content : value? toolkits call = some message.content

/-- The worker throws for an error of a tool only, and otherwise answers each supported call once,
in the order of the calls. -/
def AnswersSupported (calls : List ToolCallObject) : Except Exn AgentObservation → Prop
  | .error _ => ∃ call ∈ calls, ReportsError toolkits call
  | .ok observation =>
      List.Forall₂ (IsAnswer toolkits) (calls.filter fun call => Supported toolkits call)
        observation.toolMessages

/-- The toolkits that have a tool for the call. -/
def supporters (call : ToolCallObject) : Nat :=
  toolkits.countP fun toolkit => (toolkit.toolNamed? call.functionOrDefault.name).isSome

/-- Each call, once for each toolkit that has a tool for it. -/
def picked (calls : List ToolCallObject) : List ToolCallObject :=
  calls.flatMap fun call => List.replicate (supporters toolkits call) call

/-- A name is looked up that is blank. -/
def LooksUpBlank (calls : List ToolCallObject) : Prop :=
  toolkits ≠ [] ∧ ∃ call ∈ calls, isBlankString call.functionOrDefault.name = true

/-- Each call has a tool and an id, and a call with tools in several toolkits has the id and the
result of all behind it. -/
structure Alike (calls : List ToolCallObject) : Prop where
  supported : ∀ call ∈ calls, Supported toolkits call
  ids : ∀ call ∈ calls, isBlankString call.id = false
  later : calls.Pairwise fun call later => 2 ≤ supporters toolkits call →
    later.id = call.id ∧ value? toolkits later = value? toolkits call

/-- An error is reported where the worker throws, or else there is nothing to answer, or as many
calls to answer as there are. -/
def Fits (calls : List ToolCallObject) : Prop :=
  (LooksUpBlank toolkits calls ∧ ∃ call ∈ calls, ReportsError toolkits call) ∨
  (¬ LooksUpBlank toolkits calls ∧
    ((∀ call ∈ calls, ¬ Supported toolkits call) ∨
      (∃ call ∈ (picked toolkits calls).take calls.length, ReportsError toolkits call) ∨
      Alike toolkits calls))

end Expected

/-! ### Copies -/

section Copies

variable {α β : Type} {copies : α → Nat} {key : α → β}

/-- In front of copies of the items stand some of a key.  These are the keys of the items if and
only if no item has another. -/
theorem take_replicate_append_iff {l : List α} (hcopies : ∀ x ∈ l, 1 ≤ copies x) {k : β} {m : Nat}
    (hm : 1 ≤ m) :
    (List.replicate m k ++ l.flatMap fun x => List.replicate (copies x) (key x)).take l.length
      = l.map key ↔ ∀ x ∈ l, key x = k := by
  induction l generalizing m with
  | nil => simp
  | cons x l ih =>
      obtain ⟨m, rfl⟩ := Nat.exists_eq_succ_of_ne_zero (Nat.one_le_iff_ne_zero.mp hm)
      rw [List.replicate_succ, List.cons_append, List.length_cons, List.take_succ_cons,
        List.map_cons, List.cons.injEq, List.forall_mem_cons, eq_comm]
      refine and_congr_right fun hkey => ?_
      have hx := hcopies x List.mem_cons_self
      rw [List.flatMap_cons, hkey, ← List.append_assoc, List.replicate_append_replicate]
      exact ih (fun y hy => hcopies y (List.mem_cons_of_mem _ hy)) (by omega)

/-- The first copies have the keys of the items if and only if an item with several copies has the
key of all behind it. -/
theorem take_copies_iff {l : List α} (hcopies : ∀ x ∈ l, 1 ≤ copies x) :
    (l.flatMap fun x => List.replicate (copies x) (key x)).take l.length = l.map key ↔
      l.Pairwise fun x later => 2 ≤ copies x → key later = key x := by
  induction l with
  | nil => simp
  | cons x l ih =>
      have hx := hcopies x List.mem_cons_self
      have hl : ∀ y ∈ l, 1 ≤ copies y := fun y hy => hcopies y (List.mem_cons_of_mem _ hy)
      obtain ⟨m, hm⟩ := Nat.exists_eq_succ_of_ne_zero (Nat.one_le_iff_ne_zero.mp hx)
      rw [List.flatMap_cons, hm, List.replicate_succ, List.cons_append, List.length_cons,
        List.take_succ_cons, List.map_cons, List.cons.injEq, List.pairwise_cons]
      simp only [true_and]
      rcases Nat.eq_zero_or_pos m with rfl | hpos
      · rw [List.replicate_zero, List.nil_append, ih hl]
        simp [hm]
      · rw [take_replicate_append_iff hl hpos]
        have htwo : 2 ≤ copies x := by omega
        refine ⟨fun hsame => ⟨fun y hy _ => hsame y hy, ?_⟩, fun h y hy => h.1 y hy htwo⟩
        exact List.pairwise_of_forall_mem_list
          fun y hy z hz _ => (hsame z hz).trans (hsame y hy).symm

end Copies

/-! ### One call -/

section OneCall

variable {toolkits : List FunctionToolkit} {call : ToolCallObject} {calls : List ToolCallObject}

theorem isSome_toolNamed?_iff {toolkit : FunctionToolkit} {name : String} :
    (toolkit.toolNamed? name).isSome = true ↔ ∃ tool ∈ toolkit, tool.name = name := by
  simp [FunctionToolkit.toolNamed?]

theorem one_le_supporters_iff : 1 ≤ supporters toolkits call ↔ Supported toolkits call := by
  rw [supporters, Nat.one_le_iff_ne_zero, Nat.ne_zero_iff_zero_lt, List.countP_pos_iff]
  simp only [isSome_toolNamed?_iff]
  rfl

theorem isSome_toolFor?_iff : (toolFor? toolkits call).isSome = true ↔ Supported toolkits call := by
  rw [toolFor?, List.findSome?_isSome_iff]
  simp only [isSome_toolNamed?_iff]
  rfl

theorem mem_picked_iff : call ∈ picked toolkits calls ↔ call ∈ calls ∧ Supported toolkits call := by
  rw [picked, List.mem_flatMap, ← one_le_supporters_iff]
  constructor
  · rintro ⟨other, hmem, hcall⟩
    obtain ⟨hne, rfl⟩ := List.mem_replicate.mp hcall
    exact ⟨hmem, Nat.one_le_iff_ne_zero.mpr hne⟩
  · rintro ⟨hmem, hone⟩
    exact ⟨call, hmem, List.mem_replicate.mpr ⟨Nat.one_le_iff_ne_zero.mp hone, rfl⟩⟩

/-- A call that has a tool has a result, or an error is reported. -/
theorem reportsError_iff : ReportsError toolkits call ↔
    Supported toolkits call ∧ value? toolkits call = none := by
  rw [← isSome_toolFor?_iff, ReportsError, value?]
  rcases toolFor? toolkits call with - | tool
  · simp
  · rcases hrun : tool.run call with e | result
    · simp [hrun]
    · simp [hrun]

theorem lookupFunctionTool_eq {toolkit : FunctionToolkit} {name : String}
    (hname : isBlankString name = false) :
    toolkit.lookupFunctionTool name = .ok (toolkit.toolNamed? name) :=
  checks_eq_ok.mpr ⟨(), assertTrue_of (isNotBlankString_eq_true.mpr hname), rfl⟩

theorem lookupFunctionTool_blank {toolkit : FunctionToolkit} {name : String}
    (hname : isBlankString name = true) : ∃ e, toolkit.lookupFunctionTool name = .error e := by
  refine ⟨.client "Lookup by name is supported only.", ?_⟩
  rw [FunctionToolkit.lookupFunctionTool, assertTrue, if_neg (by simp [isNotBlankString, hname])]
  rfl

/-- The call is invoked in the first toolkit that has a tool for it. -/
theorem invokeCall_eq {uuid : Uuid} {tool : BaseFunctionTool}
    (hname : isBlankString call.functionOrDefault.name = false)
    (htool : toolFor? toolkits call = some tool) :
    invokeCall uuid call toolkits = tool.invoke uuid call := by
  induction toolkits with
  | nil => cases htool
  | cons toolkit toolkits ih =>
      rw [toolFor?, List.findSome?_cons] at htool
      rw [invokeCall, lookupFunctionTool_eq hname]
      show (match toolkit.toolNamed? call.functionOrDefault.name with
        | some tool => tool.invoke uuid call
        | none => invokeCall uuid call toolkits) = _
      rcases hfirst : toolkit.toolNamed? call.functionOrDefault.name with - | first
      · rw [hfirst] at htool
        exact ih htool
      · rw [hfirst] at htool
        obtain rfl := Option.some.inj htool
        rfl

/-- No toolkit has a tool for the call. -/
theorem invokeCall_of_none {uuid : Uuid}
    (hname : isBlankString call.functionOrDefault.name = false)
    (hnone : toolFor? toolkits call = none) :
    invokeCall uuid call toolkits = .error (.instinct ("Unresolved invocation: id=" ++ call.id
      ++ ", name=" ++ call.functionOrDefault.name)) := by
  induction toolkits with
  | nil => rfl
  | cons toolkit toolkits ih =>
      rw [toolFor?, List.findSome?_cons] at hnone
      rw [invokeCall, lookupFunctionTool_eq hname]
      show (match toolkit.toolNamed? call.functionOrDefault.name with
        | some tool => tool.invoke uuid call
        | none => invokeCall uuid call toolkits) = _
      rcases hfirst : toolkit.toolNamed? call.functionOrDefault.name with - | first
      · rw [hfirst] at hnone
        exact ih hnone
      · rw [hfirst] at hnone
        cases hnone

/-- The message of a call with a result. -/
def answerMessage (uuid : Uuid) (call : ToolCallObject) (value : String) : Message where
  role := "tool"
  toolCallId := if isBlankString call.id then uuid.val else call.id
  content := value

theorem isBlankString_answerMessage {uuid : Uuid} {value : String} :
    isBlankString (answerMessage uuid call value).toolCallId = false := by
  rw [answerMessage]
  split
  · exact isNotBlankString_eq_true.mp uuid.property
  · rename_i hblank
    exact Bool.eq_false_of_not_eq_true hblank

theorem answerMessage_id {uuid : Uuid} {value : String} (hid : isBlankString call.id = false) :
    (answerMessage uuid call value).toolCallId = call.id := by
  rw [answerMessage, if_neg (by simp [hid])]

/-- A picked call is answered if and only if it has a result. -/
theorem answer_eq_ok_iff {uuid : Uuid} {message : Message}
    (hname : isBlankString call.functionOrDefault.name = false)
    (hsupported : Supported toolkits call) :
    (invokeCall uuid call toolkits >>= functionMessage) = .ok message ↔
      ∃ value, value? toolkits call = some value ∧ answerMessage uuid call value = message := by
  obtain ⟨tool, htool⟩ := Option.isSome_iff_exists.mp (isSome_toolFor?_iff.mpr hsupported)
  rw [invokeCall_eq hname htool, value?, htool, Option.bind_some, BaseFunctionTool.invoke]
  rcases tool.run call with e | result
  · simp [Except.map, checks_eq_ok]
  · rw [Except.map, checks_eq_ok]
    by_cases herror : result.hasError = true
    · simp [functionMessage, herror]
    · simp [functionMessage, herror, answerMessage]

end OneCall

/-! ### All calls -/

section AllCalls

variable {toolkits : List FunctionToolkit} {calls : List ToolCallObject} {uuids : Nat → Uuid}

theorem pickCall_eq {call : ToolCallObject}
    (hname : toolkits ≠ [] → isBlankString call.functionOrDefault.name = false) :
    pickCall call toolkits = .ok (List.replicate (supporters toolkits call) call) := by
  induction toolkits with
  | nil => rfl
  | cons toolkit toolkits ih =>
      have hnot := hname (List.cons_ne_nil _ _)
      refine checks_eq_ok.mpr ⟨_, lookupFunctionTool_eq hnot,
        checks_eq_ok.mpr ⟨_, ih fun _ => hnot, ?_⟩⟩
      rw [supporters, supporters, List.countP_cons]
      split
      · rfl
      · rfl

theorem pickCalls_eq (h : ¬ LooksUpBlank toolkits calls) :
    pickCalls toolkits calls = .ok (picked toolkits calls) := by
  induction calls with
  | nil => rfl
  | cons call calls ih =>
      have hname : toolkits ≠ [] → isBlankString call.functionOrDefault.name = false := by
        intro hne
        by_contra hblank
        exact h ⟨hne, call, List.mem_cons_self, by simpa using hblank⟩
      have hothers : ¬ LooksUpBlank toolkits calls := by
        rintro ⟨hne, other, hmem, hblank⟩
        exact h ⟨hne, other, List.mem_cons_of_mem _ hmem, hblank⟩
      exact checks_eq_ok.mpr ⟨_, pickCall_eq hname, checks_eq_ok.mpr ⟨_, ih hothers, rfl⟩⟩

/-- A lookup by a blank name throws. -/
theorem pickCalls_blank (h : LooksUpBlank toolkits calls) :
    ∃ e, pickCalls toolkits calls = .error e := by
  obtain ⟨hne, call, hmem, hblank⟩ := h
  rcases hpicked : pickCalls toolkits calls with e | filtered
  · exact ⟨e, rfl⟩
  · exfalso
    induction calls generalizing filtered with
    | nil => cases hmem
    | cons first calls ih =>
        obtain ⟨copies, hcopies, hpicked⟩ := checks_eq_ok.mp hpicked
        obtain ⟨others, hothers, -⟩ := checks_eq_ok.mp hpicked
        rcases List.mem_cons.mp hmem with rfl | hmem
        · obtain ⟨toolkit, toolkits, rfl⟩ := List.exists_cons_of_ne_nil hne
          obtain ⟨_, htool, -⟩ := checks_eq_ok.mp hcopies
          obtain ⟨e, he⟩ := @lookupFunctionTool_blank toolkit _ hblank
          rw [he] at htool
          cases htool
        · exact ih hmem others hothers

/-- The picked call of an index has a result, and this is its message. -/
def Answered (toolkits : List FunctionToolkit) (uuids : Nat → Uuid) (calls : List ToolCallObject)
    (i : Nat) (message : Message) : Prop :=
  ∃ call, (picked toolkits calls)[i]? = some call ∧
    ∃ value, value? toolkits call = some value ∧ answerMessage (uuids i) call value = message

theorem name_of_mem_picked (h : ¬ LooksUpBlank toolkits calls) {call : ToolCallObject}
    (hmem : call ∈ picked toolkits calls) :
    isBlankString call.functionOrDefault.name = false := by
  obtain ⟨hcall, toolkit, htoolkit, -⟩ := mem_picked_iff.mp hmem
  by_contra hblank
  exact h ⟨List.ne_nil_of_mem htoolkit, call, hcall, by simpa using hblank⟩

theorem answerPicked_eq_ok_iff (h : ¬ LooksUpBlank toolkits calls) {n : Nat}
    {messages : List Message} :
    answerPicked toolkits uuids (picked toolkits calls) (List.range n) = .ok messages ↔
      List.Forall₂ (Answered toolkits uuids calls) (List.range n) messages := by
  rw [answerPicked, mapM_eq_ok_iff]
  refine iff_of_eq (congrArg (List.Forall₂ · _ _) (funext₂ fun i message => propext ?_))
  rw [checks_eq_ok, Answered]
  refine exists_congr fun call => ?_
  rw [toolCallAt]
  rcases hat : (picked toolkits calls)[i]? with - | other
  · simp
  · have hmem := List.mem_of_getElem? hat
    simp only [Except.ok.injEq, Option.some.injEq]
    refine and_congr_right fun hcall => ?_
    obtain rfl := hcall
    exact answer_eq_ok_iff (name_of_mem_picked h hmem) (mem_picked_iff.mp hmem).2

/-- There is a message at each index unless the picked calls end before or one of them reports an
error. -/
theorem exists_answered_iff {n : Nat} :
    (∃ messages, List.Forall₂ (Answered toolkits uuids calls) (List.range n) messages) ↔
      n ≤ (picked toolkits calls).length ∧
        ∀ call ∈ (picked toolkits calls).take n, ¬ ReportsError toolkits call := by
  have hpoint : (∃ messages, List.Forall₂ (Answered toolkits uuids calls) (List.range n) messages)
      ↔ ∀ i < n, ∃ message, Answered toolkits uuids calls i message := by
    constructor
    · rintro ⟨messages, hall⟩ i hi
      obtain ⟨message, -, hmessage⟩ := exists_of_forall₂ hall.flip i (List.mem_range.mpr hi)
      exact ⟨message, hmessage⟩
    · intro hall
      have : Nonempty Message := ⟨{}⟩
      choose! message hmessage using hall
      exact ⟨(List.range n).map message, List.forall₂_map_right_iff.mpr
        (List.forall₂_same.mpr fun i hi => hmessage i (List.mem_range.mp hi))⟩
  rw [hpoint]
  constructor
  · intro hall
    have hlength : n ≤ (picked toolkits calls).length := by
      by_contra hlt
      obtain ⟨_, call, hcall, -⟩ := hall (picked toolkits calls).length (by omega)
      rw [List.getElem?_eq_none (Nat.le_refl _)] at hcall
      cases hcall
    refine ⟨hlength, fun call hmem herror => ?_⟩
    obtain ⟨i, hi, rfl⟩ := List.mem_take_iff_getElem.mp hmem
    obtain ⟨_, call, hcall, value, hvalue, -⟩ := hall i (by omega)
    rw [List.getElem?_eq_getElem (by omega)] at hcall
    obtain rfl := Option.some.inj hcall
    rw [(reportsError_iff.mp herror).2] at hvalue
    cases hvalue
  · rintro ⟨hlength, hnone⟩ i hi
    have hlt : i < (picked toolkits calls).length := by omega
    have hmem : (picked toolkits calls)[i] ∈ (picked toolkits calls).take n :=
      List.mem_take_iff_getElem.mpr ⟨i, by omega, rfl⟩
    have hsupported := (mem_picked_iff.mp (List.getElem_mem hlt)).2
    rcases hvalue : value? toolkits (picked toolkits calls)[i] with - | value
    · exact absurd (reportsError_iff.mpr ⟨hsupported, hvalue⟩) (hnone _ hmem)
    · exact ⟨_, _, List.getElem?_eq_getElem hlt, value, hvalue, rfl⟩

/-- The id and the result of a call. -/
def answerKey (toolkits : List FunctionToolkit) (call : ToolCallObject) : String × Option String :=
  (call.id, value? toolkits call)

/-- Where every call has a tool, the first picked calls are the calls, as far as their answers go,
if and only if a call with several tools is answered as all behind it. -/
theorem keys_take_picked_iff (hsupported : ∀ call ∈ calls, Supported toolkits call) :
    ((picked toolkits calls).take calls.length).map (answerKey toolkits)
      = calls.map (answerKey toolkits) ↔
    calls.Pairwise fun call later => 2 ≤ supporters toolkits call →
      later.id = call.id ∧ value? toolkits later = value? toolkits call := by
  have hcopies := @take_copies_iff _ _ (supporters toolkits) (answerKey toolkits) calls
    fun call hmem => one_le_supporters_iff.mpr (hsupported call hmem)
  simp only [answerKey, Prod.mk.injEq] at hcopies
  rw [← hcopies, List.map_take, picked, List.map_flatMap]
  simp only [List.map_replicate]
  rfl

/-- What the message of an index says of the call that is picked there. -/
theorem exists_value_at {messages : List Message}
    (hanswered : List.Forall₂ (Answered toolkits uuids calls) (List.range calls.length) messages)
    {i : Nat} (hi : i < calls.length) (hpicked : i < (picked toolkits calls).length)
    (hmessage : i < messages.length) :
    ∃ value, value? toolkits (picked toolkits calls)[i] = some value ∧
      answerMessage (uuids i) (picked toolkits calls)[i] value = messages[i] := by
  have hrange : i < (List.range calls.length).length := by rwa [List.length_range]
  have hget := (List.forall₂_iff_get.mp hanswered).2 i hrange hmessage
  simp only [List.get_eq_getElem, List.getElem_range] at hget
  obtain ⟨call, hcall, value, hvalue, hanswer⟩ := hget
  rw [List.getElem?_eq_getElem hpicked] at hcall
  obtain rfl := Option.some.inj hcall
  exact ⟨value, hvalue, hanswer⟩

/-- The messages answer the supported calls if and only if the calls are alike where they have to
be. -/
theorem isAnswer_iff_alike {messages : List Message}
    (hanswered : List.Forall₂ (Answered toolkits uuids calls) (List.range calls.length) messages) :
    List.Forall₂ (IsAnswer toolkits) (calls.filter fun call => Supported toolkits call) messages ↔
      Alike toolkits calls := by
  have hn : messages.length = calls.length :=
    hanswered.length_eq.symm.trans List.length_range
  have hlength := (exists_answered_iff.mp ⟨messages, hanswered⟩).1
  have hat : ∀ i (hi : i < calls.length), ∃ value,
      value? toolkits (picked toolkits calls)[i] = some value ∧
        answerMessage (uuids i) (picked toolkits calls)[i] value = messages[i] :=
    fun i hi => exists_value_at hanswered hi (by omega) (by omega)
  constructor
  · intro h
    have hall : ∀ call ∈ calls, Supported toolkits call := by
      have hfilter := List.length_filter_eq_length_iff.mp (h.length_eq.trans hn)
      exact fun call hmem => of_decide_eq_true (hfilter call hmem)
    rw [List.filter_eq_self.mpr fun call hmem => decide_eq_true (hall call hmem)] at h
    have hanswer : ∀ i (hi : i < calls.length), IsAnswer toolkits calls[i] messages[i] :=
      fun i hi => (List.forall₂_iff_get.mp h).2 i hi (by omega)
    have hid : ∀ call ∈ calls, isBlankString call.id = false := by
      intro call hmem
      obtain ⟨i, hi, rfl⟩ := List.getElem_of_mem hmem
      obtain ⟨value, -, hmessage⟩ := hat i hi
      rw [← (hanswer i hi).id, ← hmessage]
      exact isBlankString_answerMessage
    refine ⟨hall, hid, (keys_take_picked_iff hall).mp ?_⟩
    refine List.ext_getElem (by simp; omega) fun i hleft hright => ?_
    rw [List.getElem_map, List.getElem_map, List.getElem_take]
    have hi : i < calls.length := by simpa using hright
    obtain ⟨value, hvalue, hmessage⟩ := hat i hi
    have hmem : (picked toolkits calls)[i] ∈ calls := (mem_picked_iff.mp (List.getElem_mem _)).1
    refine Prod.ext ?_ ?_
    · show (picked toolkits calls)[i].id = calls[i].id
      rw [← (hanswer i hi).id, ← hmessage, answerMessage_id (hid _ hmem)]
    · show value? toolkits (picked toolkits calls)[i] = value? toolkits calls[i]
      rw [(hanswer i hi).content, hvalue, ← hmessage]
      rfl
  · rintro ⟨hall, hid, hlater⟩
    rw [List.filter_eq_self.mpr fun call hmem => decide_eq_true (hall call hmem)]
    have hkeys := (keys_take_picked_iff hall).mpr hlater
    refine List.forall₂_iff_get.mpr ⟨hn.symm, fun i hi hi' => ?_⟩
    obtain ⟨value, hvalue, hmessage⟩ := hat i hi
    have hkey : answerKey toolkits (picked toolkits calls)[i] = answerKey toolkits calls[i] := by
      have h := congrArg (fun keys => keys[i]?) hkeys
      simpa [hi, List.getElem?_take, show i < (picked toolkits calls).length by omega] using h
    have hmem : (picked toolkits calls)[i] ∈ calls := (mem_picked_iff.mp (List.getElem_mem _)).1
    rw [List.get_eq_getElem, List.get_eq_getElem, ← hmessage]
    refine ⟨rfl, ?_, ?_⟩
    · rw [answerMessage_id (hid _ hmem)]
      exact congrArg Prod.fst hkey
    · exact (congrArg Prod.snd hkey).symm.trans hvalue

theorem length_le_picked (h : ∀ call ∈ calls, Supported toolkits call) :
    calls.length ≤ (picked toolkits calls).length := by
  induction calls with
  | nil => exact Nat.zero_le _
  | cons call calls ih =>
      have hone := one_le_supporters_iff.mpr (h call List.mem_cons_self)
      have hothers := ih fun other hmem => h other (List.mem_cons_of_mem _ hmem)
      rw [picked, List.flatMap_cons, List.length_append, List.length_replicate, List.length_cons]
      exact (Nat.add_comm _ _).trans_le (Nat.add_le_add hone hothers)

variable (uuids) in
/-- Where the picked calls are not all answered, an error is reported if and only if a call that
comes to its turn reports it, or calls have no tool. -/
theorem exists_reportsError_iff (hpicked : picked toolkits calls ≠ [])
    (hnot : ¬ ∃ messages,
      List.Forall₂ (Answered toolkits uuids calls) (List.range calls.length) messages) :
    (∃ call ∈ calls, ReportsError toolkits call) ↔
      (∀ call ∈ calls, ¬ Supported toolkits call) ∨
        (∃ call ∈ (picked toolkits calls).take calls.length, ReportsError toolkits call) ∨
        Alike toolkits calls := by
  rw [exists_answered_iff] at hnot
  have hturn : calls.length ≤ (picked toolkits calls).length →
      ∃ call ∈ (picked toolkits calls).take calls.length, ReportsError toolkits call := by
    intro hlength
    by_contra hnone
    push Not at hnone
    exact hnot ⟨hlength, hnone⟩
  have hmem : ∀ call ∈ (picked toolkits calls).take calls.length, call ∈ calls :=
    fun call hcall => (mem_picked_iff.mp (List.mem_of_mem_take hcall)).1
  constructor
  · rintro ⟨call, hcall, herror⟩
    refine .inr (.inl ?_)
    rcases le_total calls.length (picked toolkits calls).length with hle | hle
    · exact hturn hle
    · refine ⟨call, ?_, herror⟩
      rw [List.take_of_length_le hle]
      exact mem_picked_iff.mpr ⟨hcall, (reportsError_iff.mp herror).1⟩
  · rintro (hnone | ⟨call, hcall, herror⟩ | halike)
    · obtain ⟨call, hcall⟩ := List.exists_mem_of_ne_nil _ hpicked
      obtain ⟨hcall, hsupported⟩ := mem_picked_iff.mp hcall
      exact absurd hsupported (hnone call hcall)
    · exact ⟨call, hmem call hcall, herror⟩
    · obtain ⟨call, hcall, herror⟩ := hturn (length_le_picked halike.supported)
      exact ⟨call, hmem call hcall, herror⟩

end AllCalls

/-- **The worker** throws for errors of tools only and else answers each supported call once, in
order, if and only if the calls fit the toolkits. -/
theorem localToolkitsWorker_answersSupported_iff (toolkits : List FunctionToolkit)
    (uuids : Nat → Uuid) (continuation : AgentContinuation) :
    AnswersSupported toolkits (requestedCalls continuation)
        (localToolkitsWorker toolkits uuids continuation) ↔
      Fits toolkits (requestedCalls continuation) := by
  generalize hcalls : requestedCalls continuation = calls
  by_cases hblank : LooksUpBlank toolkits calls
  · obtain ⟨e, he⟩ := pickCalls_blank hblank
    have hthrows : localToolkitsWorker toolkits uuids continuation = .error e := by
      rw [localToolkitsWorker, hcalls, he]
      rfl
    rw [hthrows, Fits]
    simp only [hblank, true_and, not_true_eq_false, false_and, or_false]
    rfl
  · have hpick := pickCalls_eq hblank
    have hfits : Fits toolkits calls ↔ (∀ call ∈ calls, ¬ Supported toolkits call) ∨
        (∃ call ∈ (picked toolkits calls).take calls.length, ReportsError toolkits call) ∨
        Alike toolkits calls := by
      simp only [Fits, hblank, false_and, false_or, not_false_eq_true, true_and]
    rw [hfits]
    by_cases hpicked : picked toolkits calls = []
    · have hnone : ∀ call ∈ calls, ¬ Supported toolkits call := by
        intro call hmem hsupported
        exact List.ne_nil_of_mem (mem_picked_iff.mpr ⟨hmem, hsupported⟩) hpicked
      have hreturns : localToolkitsWorker toolkits uuids continuation = .ok {} := by
        rw [localToolkitsWorker, hcalls, hpick, hpicked]
        rfl
      refine iff_of_true ?_ (.inl hnone)
      rw [hreturns, AnswersSupported, List.filter_eq_nil_iff.mpr fun call hmem =>
        by simpa using hnone call hmem]
      exact .nil
    · have hworker : localToolkitsWorker toolkits uuids continuation
          = (answerPicked toolkits uuids (picked toolkits calls)
              (List.range calls.length)).map fun messages => { toolMessages := messages } := by
        rw [localToolkitsWorker, hcalls, hpick]
        show (if picked toolkits calls = [] then _ else _) = _
        rw [if_neg hpicked]
        cases answerPicked toolkits uuids (picked toolkits calls) (List.range calls.length) <;> rfl
      rw [hworker]
      rcases hanswers : answerPicked toolkits uuids (picked toolkits calls)
        (List.range calls.length) with e | messages
      · refine exists_reportsError_iff uuids hpicked fun ⟨messages, hall⟩ => ?_
        rw [(answerPicked_eq_ok_iff hblank).mpr hall] at hanswers
        cases hanswers
      · have hall := (answerPicked_eq_ok_iff hblank).mp hanswers
        obtain ⟨-, hnoError⟩ := exists_answered_iff.mp ⟨messages, hall⟩
        refine (isAnswer_iff_alike hall).trans ⟨fun h => .inr (.inr h), ?_⟩
        rintro (hnone | ⟨call, hmem, herror⟩ | halike)
        · obtain ⟨call, hcall⟩ := List.exists_mem_of_ne_nil _ hpicked
          obtain ⟨hcall, hsupported⟩ := mem_picked_iff.mp hcall
          exact absurd hsupported (hnone call hcall)
        · exact absurd herror (hnoError call hmem)
        · exact halike

/-! ### Tools of the user -/

/-- The worker of the task handler picks the calls of its only toolkit. -/
theorem filterToolCalls_eq {schemas : Toolkit} {toolkit : FunctionToolkit} (hne : schemas ≠ [])
    (hnames : toolkit.map (·.name) = schemas.map (·.name)) (calls : List ToolCallObject) :
    filterToolCalls schemas calls = pickCalls [toolkit] calls := by
  have hsame : ∀ name, (schemas.any fun tool => tool.name = name)
      = (toolkit.toolNamed? name).isSome := by
    intro name
    have hany := congrArg (List.any · fun other => decide (other = name)) hnames
    rw [List.any_map, List.any_map] at hany
    rw [Bool.eq_iff_iff, isSome_toolNamed?_iff]
    refine (iff_of_eq (congrArg (· = true) hany.symm)).trans ?_
    simp
  induction calls with
  | nil => rfl
  | cons call calls ih =>
      rw [filterToolCalls, if_neg hne, pickCalls, pickCall, FunctionToolkit.lookupFunctionTool, ih]
      simp only [hsame]
      cases assertTrue (isNotBlankString call.functionOrDefault.name)
        "Lookup by name is supported only." with
      | error e => rfl
      | ok _ =>
          cases pickCalls [toolkit] calls with
          | error e => rfl
          | ok others =>
              show Except.ok (if (toolkit.toolNamed? call.functionOrDefault.name).isSome = true
                then call :: others else others) = Except.ok ((if (toolkit.toolNamed?
                  call.functionOrDefault.name).isSome = true then [call] else []) ++ others)
              split
              · rfl
              · rfl

/-- A tool that always finds something. -/
def searchTool : BaseFunctionTool where
  name := "search"
  run _ := .ok { returnValue := "found" }

/-- A search, and a question that only the user has a tool for. -/
def searchAndAsk : AgentContinuation where
  toolCallMessage := some {
    toolCalls := [
      { id := "call_1", function := some { name := "search" } },
      { id := "call_2", function := some { name := "ask" } }] }

/-- The call of the user stops the worker, and no tool has reported an error. -/
theorem localToolkitsWorker_user_tool :
    ¬ ∀ (toolkits : List FunctionToolkit) (uuids : Nat → Uuid) (continuation : AgentContinuation),
      AnswersSupported toolkits (requestedCalls continuation)
        (localToolkitsWorker toolkits uuids continuation) := by
  intro h
  have hthrows : localToolkitsWorker [[searchTool]] (fun _ => ⟨"uuid", by decide⟩) searchAndAsk
      = .error (.other "vector::_M_range_check") := rfl
  have hright := h [[searchTool]] (fun _ => ⟨"uuid", by decide⟩) searchAndAsk
  rw [hthrows] at hright
  obtain ⟨call, -, tool, htool, herror⟩ := hright
  have hsearch : tool = searchTool := by
    obtain ⟨toolkit, htoolkit, hfound⟩ := List.exists_of_findSome?_eq_some htool
    rw [List.mem_singleton.mp htoolkit] at hfound
    exact List.mem_singleton.mp (List.mem_of_find?_eq_some hfound)
  rw [hsearch] at herror
  exact absurd (herror _ rfl) (by decide)

end Instinct.LocalToolkits
