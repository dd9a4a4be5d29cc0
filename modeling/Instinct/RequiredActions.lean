/-
Instinct/RequiredActions.lean

What `OnAgentPause_` leaves: the tool calls that wait for an output, in the required
action of the run, and the outputs that are there, in the step.

The flag that tells whether a tool call is done is overwritten by every completed
message, so that only the last message counts (`isDone_eq`), while the outputs are
set by all of them (`setOutputs_eq`).  The two agree if and only if the last message
answers every call that any message answers (`onAgentPause_partitions_iff`).
-/
import Instinct.Setup

namespace Instinct

open Effects

/-! ### Answers to tool calls -/

/-- A completed message answers the tool call. -/
def isAnswered (completed : List Message) (toolCall : ToolCallObject) : Bool :=
  completed.any fun message => message.toolCallId = toolCall.id

/-- The tool calls of a pause that no completed message answers. -/
def AgentPause.pendingCalls (pause : AgentPause) : List ToolCallObject :=
  (pause.toolCallMessage.getD {}).toolCalls.filter fun toolCall =>
    !isAnswered pause.completed toolCall

/-- The last message that answers the call with an id. -/
def latestAnswer (completed : List Message) (id : String) : Option Message :=
  completed.reverse.find? fun message => message.toolCallId = id

/-- A call of a step with the output that is in the messages, if there is one. -/
def ToolCallDetail.answered (completed : List Message) (call : ToolCallDetail) : ToolCallDetail :=
  if call.type = .function then
    (latestAnswer completed call.id).elim call fun message => call.setOutput message.content
  else call

section Answers

variable {completed : List Message}

/-- The flag is what the last message says. -/
theorem isDone_eq (completed : List Message) (toolCall : ToolCallObject) :
    isDone completed toolCall
      = completed.getLast?.any fun message => message.toolCallId = toolCall.id := by
  rcases List.eq_nil_or_concat completed with rfl | ⟨front, last, rfl⟩
  · rfl
  · rw [isDone, List.concat_eq_append, List.foldl_append, List.getLast?_concat]
    rfl

theorem isAnswered_of_isDone {toolCall : ToolCallObject} (h : isDone completed toolCall = true) :
    isAnswered completed toolCall = true := by
  rw [isDone_eq] at h
  rcases hlast : completed.getLast? with - | last
  · rw [hlast] at h
    cases h
  · rw [hlast] at h
    exact List.any_eq_true.mpr ⟨last, List.mem_of_getLast? hlast, h⟩

theorem latestAnswer_cons (message : Message) (rest : List Message) (id : String) :
    latestAnswer (message :: rest) id
      = (latestAnswer rest id).or (if message.toolCallId = id then some message else none) := by
  rw [latestAnswer, List.reverse_cons, List.find?_append, List.find?_singleton]
  simp only [decide_eq_true_eq]
  rfl

/-- A later message overwrites the output of an earlier one. -/
theorem answered_cons (message : Message) (rest : List Message) (call : ToolCallDetail) :
    ToolCallDetail.answered rest
        (if call.id = message.toolCallId ∧ call.type = .function then
          call.setOutput message.content else call)
      = ToolCallDetail.answered (message :: rest) call := by
  by_cases htype : call.type = .function
  · by_cases hid : call.id = message.toolCallId
    · have hset : (call.setOutput message.content).type = .function := htype
      have hsame : (call.setOutput message.content).id = call.id := rfl
      rw [if_pos ⟨hid, htype⟩, ToolCallDetail.answered, ToolCallDetail.answered, if_pos hset,
        if_pos htype, hsame, latestAnswer_cons, if_pos hid.symm]
      cases latestAnswer rest call.id with
      | none => rfl
      | some later => rfl
    · have hne : ¬ message.toolCallId = call.id := fun h => hid h.symm
      rw [if_neg fun h => hid h.1, ToolCallDetail.answered, ToolCallDetail.answered,
        latestAnswer_cons, if_neg hne, Option.or_none]
  · rw [if_neg fun h => htype h.2, ToolCallDetail.answered, ToolCallDetail.answered,
      if_neg htype, if_neg htype]

/-- The outputs are those of the last messages. -/
theorem setOutputs_eq (completed : List Message) (calls : List ToolCallDetail) :
    setOutputs (fun call => call.type = .function) completed calls
      = calls.map (ToolCallDetail.answered completed) := by
  induction completed generalizing calls with
  | nil =>
      have hid : ToolCallDetail.answered [] = id := by
        funext call
        rw [ToolCallDetail.answered]
        exact ite_self call
      rw [hid, List.map_id]
      rfl
  | cons message rest ih =>
      show setOutputs _ rest (calls.map _) = _
      rw [ih, List.map_map]
      refine List.map_congr_left fun call _ => ?_
      rw [← answered_cons, Function.comp_apply]
      simp only [decide_eq_true_eq]

theorem not_isDone_of_pending {pause : AgentPause} {toolCall : ToolCallObject}
    (h : toolCall ∈ pause.pendingCalls) :
    toolCall ∈ (pause.toolCallMessage.getD {}).toolCalls.filter fun toolCall =>
      !isDone pause.completed toolCall := by
  obtain ⟨hmem, hnot⟩ := List.mem_filter.mp h
  refine List.mem_filter.mpr ⟨hmem, ?_⟩
  rw [Bool.not_eq_true', Bool.eq_false_iff] at hnot ⊢
  exact fun hdone => hnot (isAnswered_of_isDone hdone)

/-- The calls that wait are those that no message answers. -/
theorem waits_iff {pause : AgentPause} {toolCall : ToolCallObject}
    (hmem : toolCall ∈ (pause.toolCallMessage.getD {}).toolCalls) :
    (∃ waiting ∈ pause.pendingCalls.map requiredToolCall, waiting.id = toolCall.id)
      ↔ isAnswered pause.completed toolCall = false := by
  constructor
  · rintro ⟨waiting, hwaiting, hid⟩
    obtain ⟨pending, hpending, rfl⟩ := List.mem_map.mp hwaiting
    have hnot := (List.mem_filter.mp hpending).2
    have hsame : pending.id = toolCall.id := hid
    rw [isAnswered, ← hsame]
    exact Bool.not_eq_true' _ ▸ hnot
  · intro hnot
    refine ⟨requiredToolCall toolCall, List.mem_map_of_mem ?_, rfl⟩
    exact List.mem_filter.mpr ⟨hmem, Bool.not_eq_true' _ ▸ hnot⟩

/-- The flag agrees with the messages exactly where the last one answers every call that is
answered. -/
theorem filter_isDone_eq_iff (toolCalls : List ToolCallObject) :
    (toolCalls.filter fun toolCall => !isDone completed toolCall).map requiredToolCall
        = (toolCalls.filter fun toolCall => !isAnswered completed toolCall).map requiredToolCall
      ↔ ∀ toolCall ∈ toolCalls, isAnswered completed toolCall = true →
          isDone completed toolCall = true := by
  constructor
  · intro heq toolCall hmem hanswered
    -- what is left out by the messages is left out by the flag
    have hsub : (toolCalls.filter fun toolCall => !isAnswered completed toolCall).Sublist
        (toolCalls.filter fun toolCall => !isDone completed toolCall) := by
      apply List.monotone_filter_right
      intro other hother
      rw [Bool.not_eq_true', Bool.eq_false_iff] at hother ⊢
      exact fun hdone => hother (isAnswered_of_isDone hdone)
    have hlength := congrArg List.length heq
    rw [List.length_map, List.length_map] at hlength
    have hfilter := hsub.eq_of_length hlength.symm
    by_contra hdone
    have hpending : toolCall ∈ toolCalls.filter fun toolCall => !isDone completed toolCall :=
      List.mem_filter.mpr ⟨hmem, by rw [Bool.not_eq_true] at hdone; rw [hdone]; rfl⟩
    rw [← hfilter, List.mem_filter, hanswered] at hpending
    cases hpending.2
  · intro h
    apply congrArg
    refine List.filter_congr fun toolCall hmem => congrArg Bool.not ?_
    cases hanswered : isAnswered completed toolCall with
    | true => exact h toolCall hmem hanswered
    | false =>
        rw [← Bool.not_eq_true]
        intro hdone
        rw [isAnswered_of_isDone hdone] at hanswered
        cases hanswered

end Answers

/-! ### The calls of `OnAgentPause_` -/

/-- A tool call of a message that `ModifyRun` lets pass. -/
structure ToolCallObject.Complete (toolCall : ToolCallObject) : Prop where
  id : isBlankString toolCall.id = false
  name : isBlankString toolCall.functionOrDefault.name = false
  arguments : isBlankString toolCall.functionOrDefault.arguments = false

theorem checks_requiredToolCall (toolCall : ToolCallObject) :
    Checks (checkRequiredToolCall (requiredToolCall toolCall)) toolCall.Complete := by
  have htype : (requiredToolCall toolCall).type ≠ .unknownRunToolCallObjectType := nofun
  refine (Checks.bind (checks_assertTrue _) fun _ _ => Checks.bind (checks_assertNotBlank _)
    fun _ _ => Checks.bind (checks_assertNotBlank _) fun _ _ => checks_assertNotBlank _).congr ?_
  exact ⟨fun ⟨_, hid, hname, harguments⟩ => ⟨hid, hname, harguments⟩,
    fun h => ⟨htype, h.id, h.name, h.arguments⟩⟩

section Pause

variable {config : HandlerConfig} {outside : Outside} {run : RunObject} {s : Store}
variable {pause : AgentPause} {stored : RunObject} {last : RunStepObject}

theorem checks_pauseRunRequest (hthread : isBlankString run.threadId = false)
    (hid : isBlankString run.id = false) :
    Checks (checkModifyRun (pauseRunRequest pause run))
      (∀ toolCall ∈ (pause.toolCallMessage.getD {}).toolCalls.filter fun toolCall =>
        !isDone pause.completed toolCall, toolCall.Complete) := by
  have hcalls := checks_forM checks_requiredToolCall
    ((pause.toolCallMessage.getD {}).toolCalls.filter fun toolCall =>
      !isDone pause.completed toolCall)
  rw [List.forM_eq_forM, ← List.forM_map, ← List.forM_eq_forM] at hcalls
  -- the request of a pause has no metadata, so its conversion goes through
  refine (Checks.bind (checks_assertNotBlank _) fun _ _ => Checks.bind (checks_assertNotBlank _)
    fun _ _ => Checks.bind hcalls fun _ _ => checks_ok rfl).congr ?_
  exact ⟨fun ⟨_, _, h, _⟩ => h, fun h => ⟨hthread, hid, h, trivial⟩⟩

/-- The step update goes through, and the run update decides. -/
theorem onAgentPause_run (hthread : isBlankString run.threadId = false)
    (hid : isBlankString run.id = false) (hlast : s.lastOfPage run = some last) :
    (onAgentPause pause run).run (Call.exec config outside) s
      = (modifyRun (pauseRunRequest pause run) >>= fun _ => pure ())
          (s.assignRunStep (pauseStepRequest pause run last)) := by
  have hmem := mem_of_lastOfPage hlast
  have hstep : modifyRunStep (pauseStepRequest pause run last) s
      = (.ok (some (last.assign (pauseStepRequest pause run last))),
          s.assignRunStep (pauseStepRequest pause run last)) :=
    modifyRunStep_eq hthread hid (s.runSteps.valid last (List.mem_filter.mp hmem).1)
      (Store.runStep?_of_mem hmem)
  have hperform : (perform (.modifyRunStep (pauseStepRequest pause run last))).run
        (Call.exec config outside) s
      = (.ok (some (last.assign (pauseStepRequest pause run last))),
          s.assignRunStep (pauseStepRequest pause run last)) := by
    rw [Program.run_perform]
    exact hstep
  refine (Program.run_bind_of_ok _ (retrieveLastRunStep_run hthread hid s)).trans ?_
  rw [hlast]
  refine (Program.run_bind_of_ok _ hperform).trans ?_
  refine (Program.run_perform_bind _ _ _ _).trans ?_
  rcases hmodify : modifyRun (pauseRunRequest pause run)
    (s.assignRunStep (pauseStepRequest pause run last)) with ⟨e | found, s'⟩
  · rw [Action.bind_of_error hmodify]
    have hexec : Call.exec config outside (.modifyRun (pauseRunRequest pause run))
        (s.assignRunStep (pauseStepRequest pause run last)) = (.error e, s') := hmodify
    rw [hexec]
  · rw [Action.bind_of_ok hmodify]
    have hexec : Call.exec config outside (.modifyRun (pauseRunRequest pause run))
        (s.assignRunStep (pauseStepRequest pause run last)) = (.ok found, s') := hmodify
    rw [hexec]
    rfl

/-! ### What is stored -/

/-- What a pause should leave behind: the run waits for the outputs of exactly the calls that
no message answers, and the step has the outputs of all messages. -/
structure Partitions (s' : Store) (pause : AgentPause) (run : RunObject) (last : RunStepObject) :
    Prop where
  required : ∃ stored, s'.run? run.threadId run.id = some stored ∧
    stored.requiredAction =
      { type := .submitToolOutputs
        submitToolOutputs := pause.pendingCalls.map requiredToolCall } ∧
    ∀ toolCall ∈ (pause.toolCallMessage.getD {}).toolCalls,
      ((∃ waiting ∈ stored.requiredAction.submitToolOutputs, waiting.id = toolCall.id)
        ↔ isAnswered pause.completed toolCall = false)
  outputs : ∃ step, s'.runStep? run.threadId run.id last.id = some step ∧
    ∀ message ∈ pause.completed, ∃ call ∈ step.stepDetails.toolCalls,
      call.id = message.toolCallId ∧ call.type = .function ∧
        call.functionOrDefault.output = message.content

/-- The pauses that are stored as they are. -/
structure Storable (pause : AgentPause) (last : RunStepObject) : Prop where
  /-- The last message answers every call that is answered. -/
  lastAnswers : ∀ toolCall ∈ (pause.toolCallMessage.getD {}).toolCalls,
    isAnswered pause.completed toolCall = true →
      ∃ message, pause.completed.getLast? = some message ∧ message.toolCallId = toolCall.id
  complete : ∀ toolCall ∈ pause.pendingCalls, toolCall.Complete
  /-- Every message has a function call in the step, and no later message for the same call
  says anything else. -/
  answers : ∀ message ∈ pause.completed, ∃ call ∈ last.stepDetails.toolCalls,
    call.id = message.toolCallId ∧ call.type = .function ∧
      ∀ latest, latestAnswer pause.completed message.toolCallId = some latest →
        latest.content = message.content

/-- The outputs that are written are those of the messages. -/
theorem outputs_iff (completed : List Message) (calls : List ToolCallDetail) :
    (∀ message ∈ completed, ∃ call ∈ calls.map (ToolCallDetail.answered completed),
        call.id = message.toolCallId ∧ call.type = .function ∧
          call.functionOrDefault.output = message.content)
      ↔ ∀ message ∈ completed, ∃ call ∈ calls,
          call.id = message.toolCallId ∧ call.type = .function ∧
            ∀ latest, latestAnswer completed message.toolCallId = some latest →
              latest.content = message.content := by
  have hanswered : ∀ call : ToolCallDetail, (call.answered completed).id = call.id
      ∧ (call.answered completed).type = call.type := by
    intro call
    rw [ToolCallDetail.answered]
    split
    · cases latestAnswer completed call.id with
      | none => exact ⟨rfl, rfl⟩
      | some latest => exact ⟨rfl, rfl⟩
    · exact ⟨rfl, rfl⟩
  refine forall₂_congr fun message hmem => ?_
  have hsome : ∃ latest, latestAnswer completed message.toolCallId = some latest := by
    rw [← Option.isSome_iff_exists, latestAnswer, List.find?_isSome]
    exact ⟨message, List.mem_reverse.mpr hmem, decide_eq_true rfl⟩
  obtain ⟨latest, hlatest⟩ := hsome
  simp only [List.mem_map, exists_exists_and_eq_and]
  refine exists_congr fun call => and_congr_right fun _ => ?_
  rw [(hanswered call).1, (hanswered call).2]
  refine and_congr_right fun hid => and_congr_right fun htype => ?_
  rw [ToolCallDetail.answered, if_pos htype, hid, hlatest]
  exact ⟨fun houtput later hlater => Option.some.inj hlater ▸ houtput, fun h => h latest rfl⟩

/-- The store after both updates of a pause. -/
def Store.afterPause (s : Store) (pause : AgentPause) (run : RunObject) (last : RunStepObject) :
    Store :=
  (s.assignRunStep (pauseStepRequest pause run last)).assignRun (pauseRunRequest pause run)

/-- What the two updates store. -/
theorem partitions_iff (hrun : s.run? run.threadId run.id = some stored)
    (hlast : s.lastOfPage run = some last) :
    Partitions (s.afterPause pause run last) pause run last
      ↔ ((pause.toolCallMessage.getD {}).toolCalls.filter fun toolCall =>
            !isDone pause.completed toolCall).map requiredToolCall
          = pause.pendingCalls.map requiredToolCall
        ∧ ∀ message ∈ pause.completed,
            ∃ call ∈ last.stepDetails.toolCalls.map (ToolCallDetail.answered pause.completed),
              call.id = message.toolCallId ∧ call.type = .function ∧
                call.functionOrDefault.output = message.content := by
  have hmodified : (s.assignRunStep (pauseStepRequest pause run last)).run? run.threadId run.id
      = some stored := hrun
  have hread : (s.afterPause pause run last).run? run.threadId run.id
      = some (stored.assign (pauseRunRequest pause run)) := by
    refine (Store.run?_assignRun _ _ _ _).trans ?_
    rw [if_pos ⟨rfl, rfl⟩, hmodified]
    rfl
  have hnamed : s.runStep? (pauseStepRequest pause run last).threadId
      (pauseStepRequest pause run last).runId (pauseStepRequest pause run last).stepId
      = some last := Store.runStep?_of_mem (mem_of_lastOfPage hlast)
  have hfound := Store.runStep?_assignRunStep hnamed
  have hstep : (s.afterPause pause run last).runStep? run.threadId run.id last.id
      = some (last.assign (pauseStepRequest pause run last)) :=
    hfound
  have houtputs : (last.assign (pauseStepRequest pause run last)).stepDetails.toolCalls
      = last.stepDetails.toolCalls.map (ToolCallDetail.answered pause.completed) :=
    setOutputs_eq pause.completed last.stepDetails.toolCalls
  constructor
  · rintro ⟨⟨found, hfound, hrequired, -⟩, ⟨step, hfoundStep, hall⟩⟩
    obtain rfl := Option.some.inj (hread.symm.trans hfound)
    obtain rfl := Option.some.inj (hstep.symm.trans hfoundStep)
    rw [houtputs] at hall
    exact ⟨congrArg RequiredAction.submitToolOutputs hrequired, hall⟩
  · rintro ⟨hrequired, hall⟩
    refine ⟨⟨_, hread, ?_, fun toolCall hmem => ?_⟩, ⟨_, hstep, ?_⟩⟩
    · exact congrArg (RequiredAction.mk .submitToolOutputs) hrequired
    · rw [← waits_iff hmem, ← hrequired]
      rfl
    · rw [houtputs]
      exact hall

/-- **A pause is stored as it is** if and only if its last message answers every call that is
answered, its pending calls are complete, and its messages answer function calls of the step. -/
theorem onAgentPause_partitions_iff (config : HandlerConfig) (outside : Outside)
    (hthread : isBlankString run.threadId = false) (hid : isBlankString run.id = false)
    (hrun : s.run? run.threadId run.id = some stored) (hlast : s.lastOfPage run = some last) :
    (((onAgentPause pause run).run (Call.exec config outside) s).1 = .ok ()
        ∧ Partitions ((onAgentPause pause run).run (Call.exec config outside) s).2 pause run last)
      ↔ Storable pause last := by
  have hchecks : Checks (checkModifyRun (pauseRunRequest pause run)) _ :=
    checks_pauseRunRequest hthread hid
  -- where the last message answers every call, the flag leaves out what the messages answer
  have hdone : ∀ toolCall, (isAnswered pause.completed toolCall = true →
      ∃ message, pause.completed.getLast? = some message ∧ message.toolCallId = toolCall.id)
      ↔ (isAnswered pause.completed toolCall = true → isDone pause.completed toolCall = true) := by
    intro toolCall
    rw [isDone_eq]
    cases pause.completed.getLast? with
    | none => simp
    | some message => simp
  rw [onAgentPause_run hthread hid hlast]
  by_cases hcomplete : ∀ toolCall ∈ (pause.toolCallMessage.getD {}).toolCalls.filter
      fun toolCall => !isDone pause.completed toolCall, toolCall.Complete
  · obtain ⟨⟨⟩, hcheck⟩ := hchecks.passes hcomplete
    have hmodified : (s.assignRunStep (pauseStepRequest pause run last)).run?
        (pauseRunRequest pause run).threadId (pauseRunRequest pause run).runId = some stored := hrun
    rw [Action.bind_of_ok (modifyRun_eq hcheck hmodified)]
    refine (and_iff_right rfl).trans ((partitions_iff hrun hlast).trans ?_)
    rw [AgentPause.pendingCalls, filter_isDone_eq_iff, outputs_iff]
    constructor
    · rintro ⟨hanswers, houtputs⟩
      refine ⟨fun toolCall hmem => (hdone toolCall).mpr (hanswers toolCall hmem),
        fun toolCall hmem => hcomplete toolCall ?_, houtputs⟩
      exact not_isDone_of_pending hmem
    · intro h
      exact ⟨fun toolCall hmem => (hdone toolCall).mp (h.lastAnswers toolCall hmem), h.answers⟩
  · obtain ⟨e, hthrow, -⟩ := hchecks.throws hcomplete
    have hmodify : modifyRun (pauseRunRequest pause run)
        (s.assignRunStep (pauseStepRequest pause run last))
        = (.error e, s.assignRunStep (pauseStepRequest pause run last)) := by
      simp only [modifyRun, Action.bind_apply, Action.liftM_apply, hthrow]
    rw [Action.bind_of_error hmodify]
    constructor
    · intro h
      have hok : Except.error e = .ok () := h.1
      cases hok
    · intro h
      refine absurd (fun toolCall hmem => ?_) hcomplete
      obtain ⟨hmem, hnot⟩ := List.mem_filter.mp hmem
      refine h.complete toolCall (List.mem_filter.mpr ⟨hmem, ?_⟩)
      rw [Bool.not_eq_true', Bool.eq_false_iff] at hnot ⊢
      exact fun hanswered => hnot ((hdone toolCall).mp (h.lastAnswers toolCall hmem) hanswered)

end Pause

/-- A message with the output of a call. -/
def answerTo (toolCallId content : String) : Message :=
  { role := "tool", content := content, toolCallId := toolCallId }

/-- A call of the function `f`. -/
def callOf (id : String) : ToolCallObject :=
  { id := id, type := .function, function := some { name := "f", arguments := "{}" } }

/-- A step with the calls 1 and 2. -/
def twoCallsStep : RunStepObject :=
  { searchStep with
    stepDetails := { toolCalls := [callOf "1", callOf "2"].map toolCallDetail } }

/-- The store while both calls are made. -/
def twoCalls : Store := workedStore [twoCallsStep] (by decide) (by decide)

/-- A pause at the calls 1 and 2, of which some are completed. -/
def pauseWith (completed : List Message) : AgentPause :=
  { completed := completed
    toolCallMessage := some { toolCalls := [callOf "1", callOf "2"] } }

/-- What `OnAgentPause_` makes of it. -/
def pausedWith (completed : List Message) : Except Exn Unit × Store :=
  (onAgentPause (pauseWith completed) workedRun).run (Call.exec {} {}) twoCalls

/-- One call is completed, and the run waits for the other one. -/
theorem onAgentPause_partitions_one :
    (pausedWith [answerTo "1" "42"]).1 = .ok ()
      ∧ Partitions (pausedWith [answerTo "1" "42"]).2 (pauseWith [answerTo "1" "42"]) workedRun
          twoCallsStep := by
  have hrun : twoCalls.run? workedRun.threadId workedRun.id = some workedRun := rfl
  have hlast : twoCalls.lastOfPage workedRun = some twoCallsStep := rfl
  refine (onAgentPause_partitions_iff {} {} (by decide) (by decide) hrun hlast).mpr ⟨?_, ?_, ?_⟩
  · decide
  · intro toolCall hmem
    obtain rfl := List.mem_singleton.mp (show toolCall ∈ [callOf "2"] from hmem)
    exact ⟨by decide, by decide, by decide⟩
  · intro message hmem
    obtain rfl := List.mem_singleton.mp hmem
    exact ⟨toolCallDetail (callOf "1"), by decide, rfl, rfl, fun latest hlatest =>
      Option.some.inj hlatest ▸ rfl⟩

/-- **Both calls are completed, and the run waits for the first one**: its message is followed
by another one. -/
theorem onAgentPause_waits_for_completed :
    ¬ Partitions (pausedWith [answerTo "1" "42", answerTo "2" "43"]).2
        (pauseWith [answerTo "1" "42", answerTo "2" "43"]) workedRun twoCallsStep
      ∧ ((pausedWith [answerTo "1" "42", answerTo "2" "43"]).2.run? "thread_1" "run_1").map
          (fun run => run.requiredAction.submitToolOutputs.map (·.id)) = some ["1"] := by
  have hwaits : ((pausedWith [answerTo "1" "42", answerTo "2" "43"]).2.run? "thread_1"
      "run_1").map (fun run => run.requiredAction.submitToolOutputs.map (·.id))
        = some ["1"] := rfl
  refine ⟨fun h => ?_, hwaits⟩
  obtain ⟨stored, hstored, hrequired, -⟩ := h.required
  have hstored : (pausedWith [answerTo "1" "42", answerTo "2" "43"]).2.run? "thread_1" "run_1"
      = some stored := hstored
  rw [hstored, Option.map_some, hrequired] at hwaits
  revert hwaits
  decide

end Instinct
