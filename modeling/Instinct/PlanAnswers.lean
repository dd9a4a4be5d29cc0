/-
Instinct/PlanAnswers.lean

One plan of a well-formed graph, with answers of any content, some of the worker
and some of the user.

A task counts as finished when its result is not blank, so a blank answer is
forgotten: the task can start again, and is asked for again.  The answers are
tallied against the requests (`Tally`): every request has an answer, and the
answers that are not blank finish each task once.  When the joiner is reached
every task is finished, so each task was asked for once exactly when none of the
answers was blank, and then the joiner is reached (`requestsOnce_iff`).
-/
import Instinct.PlanExecutions

namespace Instinct

open Effects

section Runs

variable {σ : Type}

/-! ### What is expected of a run -/

/-- The messages that an event brings. -/
def Event.answers : Event → List Message
  | .called (.work _) (.ok observation) => AgentObservation.toolMessages observation
  | .submitted messages => messages
  | _ => []

/-- The ids that were asked for. -/
def requests (log : List Event) : List String := log.flatMap (·.requested)

/-- The messages that came in. -/
def answers (log : List Event) : List Message := log.flatMap (·.answers)

/-- What comes before the joiner. -/
def planPart (log : List Event) : List Event := log.takeWhile fun event => event.joins?.isNone

/-- The joiner was reached. -/
def Joined (log : List Event) : Prop := ∃ event ∈ log, event.joins?.isSome = true

/-- A graph with distinct indices whose dependencies name tasks before. -/
structure WellFormed (graph : LLMCompilerTaskGraph) : Prop where
  ids : (graph.tasks.map (·.toolCall.id)).Nodup
  indices : (graph.tasks.map (·.index)).Nodup
  fresh : ∀ task ∈ graph.tasks, task.result = none
  backward : ∀ task ∈ graph.tasks, task.isJoin = false →
    ∀ d ∈ task.dependencies, d < task.index
  named : ∀ task ∈ graph.tasks, task.isJoin = false → ∀ d ∈ task.dependencies,
    ∃ other ∈ graph.tasks, other.isJoin = false ∧ other.index = d

/-- Each requested call is answered with one message: by the worker, or else by the user. -/
structure Environment.AnswersOnce (env : Environment σ) : Prop where
  worker : ∀ request custom s, ∃ observation s',
    env.answer (.work (.continuation { toolCallMessage := some request, custom := custom })) s
      = (.ok observation, s') ∧
    ((AgentObservation.toolMessages observation).map (·.toolCallId)).Subperm
      (request.toolCalls.map (·.id))
  user : ∀ (pause : AgentPause) (request : Message) s, pause.toolCallMessage = some request →
    (pause.completed.map (·.toolCallId)).Subperm (request.toolCalls.map (·.id)) →
    ((pause.completed ++ (env.submit pause s).1).map (·.toolCallId)).Perm
      (request.toolCalls.map (·.id))

/-- The planner has just given the graph, and asks for its first tasks. -/
structure PlanStarts (graph : LLMCompilerTaskGraph) (run : PlanRun σ) : Prop where
  going : run.progress = .going
  log : run.log = []
  last : ∃ request : Message, request.toolCalls = firstCalls graph.tasks ∧
    run.state.previousSteps.getLast? = some (.thought (.continuation
      { toolCallMessage := some request, custom := .taskGraph graph }))

/-- The joiner is reached, and by then every task was asked for exactly once. -/
def RequestsOnce (env : Environment σ) (graph : LLMCompilerTaskGraph) (run : PlanRun σ) : Prop :=
  ∃ n, Joined ((advanceRun env)^[n] run).log ∧ ∀ task ∈ graph.tasks, task.isJoin = false →
    (requests (planPart ((advanceRun env)^[n] run).log)).count task.toolCall.id = 1

/-- None of the answers before the joiner is blank. -/
def AnswersFilled (env : Environment σ) (run : PlanRun σ) : Prop :=
  ∀ n, ∀ message ∈ answers (planPart ((advanceRun env)^[n] run).log),
    isNotBlankString message.content = true

/-! ### Logs -/

section Logs

variable {env : Environment σ} {run : PlanRun σ} {log more : List Event}

/-- A program only adds to the log. -/
theorem log_run {α : Type} (p : Program Exn PartCall.Answer α) (s : σ) (log : List Event) :
    log <+: (p.run env.logged (s, log)).2.2 := by
  induction p generalizing s log with
  | ret a => exact List.prefix_rfl
  | raise e => exact List.prefix_rfl
  | call op k ih => exact (List.prefix_append _ _).trans (ih _ _ _)

theorem log_afterStep (p : Program Exn PartCall.Answer (AgentStep × AgentState)) (s : σ)
    (log : List Event) (state : AgentState) :
    log <+: (afterStep state (p.run env.logged (s, log))).log := by
  have h : log <+: (p.run env.logged (s, log)).2.2 := log_run p s log
  rcases hrun : p.run env.logged (s, log) with ⟨e | next, s', log'⟩
  · rwa [hrun] at h
  · rwa [hrun] at h

/-- A program that begins with a call. -/
theorem log_call (call : PartCall)
    (f : call.Answer → Program Exn PartCall.Answer (AgentStep × AgentState)) (s : σ)
    (log : List Event) (state : AgentState) : ∃ answer rest,
      (afterStep state ((Program.perform call >>= f).run env.logged (s, log))).log
        = log ++ .called call answer :: rest := by
  rcases h : env.answer call s with ⟨e | answer, s'⟩
  · rw [run_logged_error h]
    exact ⟨_, [], rfl⟩
  · rw [run_logged_ok h]
    obtain ⟨rest, hrest⟩ := log_afterStep (f answer) s' (log ++ [.called call (.ok answer)]) state
    exact ⟨_, rest, hrest.symm.trans (List.append_cons _ _ _).symm⟩

theorem log_advance : run.log <+: (advanceRun env run).log := by
  unfold advanceRun streamRound
  split
  · unfold resume
    split
    · exact List.prefix_append _ _
    · exact List.prefix_rfl
  · split
    · exact log_afterStep _ _ _ _
    · exact List.prefix_rfl

theorem log_iterate {m n : Nat} (h : m ≤ n) :
    ((advanceRun env)^[m] run).log <+: ((advanceRun env)^[n] run).log := by
  induction n, h using Nat.le_induction with
  | base => exact List.prefix_rfl
  | succ n _ ih =>
      rw [Function.iterate_succ_apply']
      exact ih.trans log_advance

/-- Once the joiner was reached, the part before it stays. -/
theorem planPart_of_joined (hjoined : Joined log) (h : log <+: more) :
    planPart more = planPart log := by
  obtain ⟨back, rfl⟩ := h
  rw [planPart, List.takeWhile_append]
  split
  · rename_i hall
    obtain ⟨event, hmem, hjoins⟩ := hjoined
    have hall := (List.takeWhile_prefix _).eq_of_length hall
    rw [← hall] at hmem
    have hnone := List.mem_takeWhile_imp hmem
    rw [Option.isNone_iff_eq_none.mp hnone] at hjoins
    cases hjoins
  · rfl

/-- Until then it only grows. -/
theorem planPart_prefix (h : log <+: more) : planPart log <+: planPart more := by
  obtain ⟨back, rfl⟩ := h
  rw [planPart, planPart, List.takeWhile_append]
  split
  · exact (List.takeWhile_prefix _).trans (List.prefix_append _ _)
  · exact List.prefix_rfl

theorem planPart_append_join {before rest : List Event} {event : Event}
    (hbefore : ∀ event ∈ before, event.joins? = none) (hjoins : event.joins?.isSome = true) :
    planPart (before ++ event :: rest) = before := by
  have hstop : (event :: rest).takeWhile (fun event => event.joins?.isNone) = [] := by
    refine List.takeWhile_cons_of_neg ?_
    simpa [Option.isSome_iff_ne_none] using hjoins
  rw [planPart, List.takeWhile_append_of_pos fun event hmem => by rw [hbefore event hmem]; rfl,
    hstop, List.append_nil]

end Logs

/-! ### Requests and answers -/

section Tallies

variable {graph : LLMCompilerTaskGraph} {log events : List Event}
variable {results : String → Option Message} {messages : List Message}

/-- The requests and the answers of a log before the joiner. -/
structure Tally (graph : LLMCompilerTaskGraph) (log : List Event)
    (results : String → Option Message) : Prop where
  quiet : ∀ event ∈ log, event.joins? = none
  answered : ((answers log).map (·.toolCallId)).Perm (requests log)
  tasks : ∀ id ∈ requests log, ∃ task ∈ graph.tasks, task.isJoin = false ∧ task.toolCall.id = id
  /-- The answers that are not blank finish each task once. -/
  filled : ∀ id, (((answers log).filter fun message => isNotBlankString message.content).map
    (·.toolCallId)).count id = if Finished (results id) then 1 else 0

/-- At the start nothing is known. -/
theorem tally_nil (graph : LLMCompilerTaskGraph) : Tally graph [] fun _ => none where
  quiet _ hmem := absurd hmem List.not_mem_nil
  answered := List.Perm.nil
  tasks _ hid := absurd hid List.not_mem_nil
  filled id := by
    have hnone : ¬ Finished none := by
      rintro ⟨_, hmem, -⟩
      cases hmem
    rw [if_neg hnone]
    exact List.count_nil

/-- Of messages for different calls, at most one answers a call. -/
theorem count_filter_of_nodup (hnodup : (messages.map (·.toolCallId)).Nodup) {message : Message}
    (hmem : message ∈ messages) : ((messages.filter fun message =>
      isNotBlankString message.content).map (·.toolCallId)).count message.toolCallId
        = if isNotBlankString message.content = true then 1 else 0 := by
  split
  · rename_i hfilled
    refine List.count_eq_one_of_mem (hnodup.sublist (List.filter_sublist.map _)) ?_
    exact List.mem_map_of_mem (List.mem_filter.mpr ⟨hmem, hfilled⟩)
  · rename_i hblank
    refine List.count_eq_zero.mpr fun hin => hblank ?_
    obtain ⟨other, hother, hid⟩ := List.mem_map.mp hin
    obtain ⟨hother, hfilled⟩ := List.mem_filter.mp hother
    rwa [List.inj_on_of_nodup_map hnodup hother hmem hid] at hfilled

/-- Requests for tasks that are not finished, and their answers. -/
theorem Tally.append (h : Tally graph log results) (hquiet : ∀ event ∈ events, event.joins? = none)
    (hanswers : answers events = messages)
    (hperm : (messages.map (·.toolCallId)).Perm (requests events))
    (hnodup : (requests events).Nodup)
    (hwaiting : ∀ id ∈ requests events, ∃ task ∈ graph.tasks, task.isJoin = false ∧
      task.toolCall.id = id ∧ ¬ Finished (results id)) :
    Tally graph (log ++ events) (stored results messages) := by
  have hsplit : answers (log ++ events) = answers log ++ messages := by
    rw [answers, List.flatMap_append, ← hanswers]
    rfl
  have hrequests : requests (log ++ events) = requests log ++ requests events := List.flatMap_append
  have hmessages : (messages.map (·.toolCallId)).Nodup := hperm.nodup_iff.mpr hnodup
  refine ⟨fun event hmem => ?_, ?_, fun id hid => ?_, fun id => ?_⟩
  · exact (List.mem_append.mp hmem).elim (h.quiet event) (hquiet event)
  · rw [hsplit, hrequests, List.map_append]
    exact h.answered.append hperm
  · rw [hrequests] at hid
    rcases List.mem_append.mp hid with hid | hid
    · exact h.tasks id hid
    · obtain ⟨task, hmem, hjoin, heq, -⟩ := hwaiting id hid
      exact ⟨task, hmem, hjoin, heq⟩
  · rw [hsplit, List.filter_append, List.map_append, List.count_append, h.filled id]
    by_cases hid : id ∈ messages.map (·.toolCallId)
    · -- the answer decides whether the task is finished now
      obtain ⟨-, -, -, -, hunfinished⟩ := hwaiting id (hperm.mem_iff.mp hid)
      rw [if_neg hunfinished, Nat.zero_add]
      obtain ⟨message, hmem, rfl⟩ := List.mem_map.mp hid
      rw [count_filter_of_nodup hmessages hmem, stored_of_mem hmessages hmem]
      refine if_congr ?_ rfl rfl
      simp [Finished]
    · rw [stored_of_not_mem hid, Nat.add_eq_left]
      refine List.count_eq_zero.mpr fun hin => hid ?_
      exact (List.filter_sublist.map _).subset hin

end Tallies

/-! ### Cycles -/

section Cycles

variable {env : Environment σ} {graph : LLMCompilerTaskGraph} {run : PlanRun σ}
variable {results : String → Option Message} {calls : List String}

theorem advance_of_going (h : run.progress = .going) : advanceRun env run = round env run := by
  have hpaused : ¬ (Progress.going = Progress.paused) := by decide
  rw [advanceRun, h, if_neg hpaused, streamRound, if_pos h]

/-- A pause with some of the answers to a request. -/
def pauseFor (graph : LLMCompilerTaskGraph) (results : String → Option Message)
    (request : Message) (completed : List Message) : AgentPause where
  toolCallMessage := some request
  completed := completed
  custom := .taskGraph (graph.withResults results)

/-- The user completes a pause, and it is lifted to an observation. -/
theorem observed_of_paused {request : Message} {completed more : List Message} {s' : σ}
    (h : run.progress = .paused)
    (hlast : run.state.previousSteps.getLast?
      = some (.thought (.pause (pauseFor graph results request completed))))
    (hsubmit : env.submit (pauseFor graph results request completed) run.memory = (more, s'))
    (hlength : request.toolCalls.length = (completed ++ more).length) :
    ((advanceRun env)^[2] run).log = run.log ++ [.submitted more] ∧
      ObservedAt graph ((advanceRun env)^[2] run) (stored results (completed ++ more)) := by
  have hresumed : advanceRun env run
      = { progress := .going
          state := { run.state with
            previousSteps := run.state.previousSteps.dropLast ++
              [.thought (.pause (pauseFor graph results request (completed ++ more)))] }
          memory := s'
          log := run.log ++ [.submitted more] } := by
    rw [advanceRun, if_pos h, resume, hlast]
    simp only [hsubmit]
    rfl
  show (advanceRun env (advanceRun env run)).log = _ ∧
    ObservedAt graph (advanceRun env (advanceRun env run)) _
  rw [hresumed, advance_of_going rfl, round_pause List.getLast?_concat hlength,
    setResults_withResults]
  exact ⟨rfl, rfl, _, rfl, List.getLast?_concat⟩

/-- Messages that are stored twice. -/
theorem stored_stored_append (messages more : List Message) (id : String) :
    stored (stored results messages) (messages ++ more) id
      = stored results (messages ++ more) id := by
  simp only [stored, List.reverse_append, List.find?_append]
  cases more.reverse.find? fun message => message.toolCallId = id with
  | some message => rfl
  | none =>
      cases messages.reverse.find? fun message => message.toolCallId = id with
      | some message => rfl
      | none => rfl

/-- What the worker has left open the user answers. -/
theorem observed_of_unanswered (henv : env.AnswersOnce) {request : Message}
    {completed : List Message}
    (hsubperm : (completed.map (·.toolCallId)).Subperm (request.toolCalls.map (·.id)))
    (hpaused : run.progress = .paused)
    (hlast : run.state.previousSteps.getLast?
      = some (.thought (.pause (pauseFor graph (stored results completed) request completed)))) :
    ∃ more, ((completed ++ more).map (·.toolCallId)).Perm (request.toolCalls.map (·.id)) ∧
      ((advanceRun env)^[2] run).log = run.log ++ [.submitted more] ∧
      ObservedAt graph ((advanceRun env)^[2] run) (stored results (completed ++ more)) := by
  rcases hsubmit : env.submit (pauseFor graph (stored results completed) request completed)
    run.memory with ⟨more, s'⟩
  have hperm : ((completed ++ more).map (·.toolCallId)).Perm (request.toolCalls.map (·.id)) := by
    have h := henv.user (pauseFor graph (stored results completed) request completed) request
      run.memory rfl hsubperm
    rw [hsubmit] at h
    exact h
  obtain ⟨hlog, hobserved⟩ := observed_of_paused hpaused hlast hsubmit
    (by simpa using hperm.length_eq.symm)
  have hsame : stored (stored results completed) (completed ++ more)
      = stored results (completed ++ more) :=
    funext fun id => stored_stored_append _ _ id
  rw [hsame] at hobserved
  exact ⟨more, hperm, hlog, hobserved⟩

/-- A request is answered, if need be after a pause. -/
theorem observed_of_asked (henv : env.AnswersOnce) (h : AskedAt graph run results calls)
    (hcalls : calls ≠ []) (hnodup : calls.Nodup) (htasks : 1 < graph.tasks.length) :
    ∃ k messages events, (messages.map (·.toolCallId)).Perm calls ∧
      requests events = calls ∧ answers events = messages ∧
      (∀ event ∈ events, event.joins? = none) ∧
      ((advanceRun env)^[k + 1] run).log = run.log ++ events ∧
      ObservedAt graph ((advanceRun env)^[k + 1] run) (stored results messages) := by
  obtain ⟨request, rfl, hlast⟩ := h.last
  obtain ⟨observation, s', hanswer, hsubperm⟩ :=
    henv.worker request (.taskGraph (graph.withResults results)) run.memory
  have hround := round_continuation hlast (fun hnil => hcalls (by rw [hnil]; rfl))
    (by rwa [length_withResults]) hanswer
  rw [← advance_of_going h.going] at hround
  have hlength : countCompleted request.toolCalls (AgentObservation.toolMessages observation)
      = (AgentObservation.toolMessages observation).length :=
    countCompleted_of_subset hnodup fun message hmem =>
      hsubperm.subset (List.mem_map_of_mem hmem)
  by_cases hcount : (AgentObservation.toolMessages observation).length = request.toolCalls.length
  · -- the worker has answered them all
    have hstep : workerStep request (graph.withResults results) observation = _ :=
      workerStep_of_complete (hlength.trans hcount) (graph.withResults results)
    rw [hstep, setResults_withResults] at hround
    have hperm := hsubperm.perm_of_length_le (by simp [hcount])
    refine ⟨0, AgentObservation.toolMessages observation, [.called _ (.ok observation)], hperm,
      List.append_nil _, List.append_nil _, fun event hmem => ?_, ?_⟩
    · obtain rfl := List.mem_singleton.mp hmem
      rfl
    · rw [Function.iterate_one, hround]
      exact ⟨rfl, rfl, _, rfl, List.getLast?_concat⟩
  · -- the user answers the others
    have hstep : workerStep request (graph.withResults results) observation
        = .thought (.pause { pauseFor graph results request
            (AgentObservation.toolMessages observation) with
          custom := .taskGraph ((graph.withResults results).setResults
            (AgentObservation.toolMessages observation)) }) :=
      if_pos fun hall => hcount (hlength.symm.trans hall)
    rw [hstep, setResults_withResults] at hround
    have hpaused : (advanceRun env run).progress = .paused := by
      rw [hround]
      rfl
    have hlast : (advanceRun env run).state.previousSteps.getLast?
        = some (.thought (.pause (pauseFor graph
          (stored results (AgentObservation.toolMessages observation)) request
          (AgentObservation.toolMessages observation)))) := by
      rw [hround]
      exact List.getLast?_concat
    obtain ⟨more, hperm, hlog, hobserved⟩ :=
      observed_of_unanswered henv hsubperm hpaused hlast
    refine ⟨2, AgentObservation.toolMessages observation ++ more,
      [.called _ (.ok observation), .submitted more], hperm, ?_, ?_, fun event hmem => ?_, ?_, ?_⟩
    · exact List.append_nil _
    · show AgentObservation.toolMessages observation ++ (more ++ []) = _
      rw [List.append_nil]
    · simp only [List.mem_cons, List.not_mem_nil, or_false] at hmem
      rcases hmem with rfl | rfl
      · rfl
      · rfl
    · rw [Function.iterate_succ_apply, hlog, hround, List.append_assoc]
      rfl
    · rwa [Function.iterate_succ_apply]

/-- Where no task can start, the joiner is asked, whatever it answers. -/
theorem joins_of_observed (h : ObservedAt graph run results)
    (hidle : findNextTasks (graph.withResults results) = []) :
    ∃ event rest, (advanceRun env run).log = run.log ++ event :: rest ∧
      event.joins?.isSome = true := by
  obtain ⟨observation, hgraph, hlast⟩ := h.last
  have hsome : observation.custom.taskGraph? = some (graph.withResults results) :=
    taskGraph?_eq_some.mpr hgraph
  have hround : round env run = afterStep run.state ((llmCompilerFromObservation executorParts
      run.state .unset observation).run env.logged (run.memory, run.log)) := by
    rw [round, resolveNextStep_executorParts, llmCompilerStep, hlast]
  rw [advance_of_going h.going, hround]
  simp only [llmCompilerFromObservation, hsome, ne_eq, hidle, not_true_eq_false, if_false]
  obtain ⟨_, rest, hlog⟩ := log_call (.join ((graph.withResults results).asked run.state)) _
    run.memory run.log run.state
  exact ⟨_, rest, hlog, rfl⟩

end Cycles

/-! ### Well-formed graphs -/

section Graphs

variable {graph : LLMCompilerTaskGraph} {results : String → Option Message}

/-- The calls of the tasks that can start. -/
def startIds (graph : LLMCompilerTaskGraph) (results : String → Option Message) : List String :=
  (graph.tasks.filter fun task => CanStart graph results task).map (·.toolCall.id)

theorem WellFormed.nodup_startIds (h : WellFormed graph) : (startIds graph results).Nodup :=
  h.ids.sublist (List.filter_sublist.map _)

theorem waiting_of_mem_startIds {id : String} (hid : id ∈ startIds graph results) :
    ∃ task ∈ graph.tasks, task.isJoin = false ∧ task.toolCall.id = id ∧
      ¬ Finished (results id) := by
  obtain ⟨task, hmem, rfl⟩ := List.mem_map.mp hid
  obtain ⟨hmem, hcan⟩ := List.mem_filter.mp hmem
  have hcan := of_decide_eq_true hcan
  exact ⟨task, hmem, hcan.1, rfl, fun hfinished => hcan.2.1 ⟨task, hmem, rfl, hfinished⟩⟩

theorem WellFormed.callIds_next (h : WellFormed graph) :
    callIds graph (findNextTasks (graph.withResults results)) = startIds graph results :=
  Instinct.callIds_next fun _ hmem _ _ hother hindex =>
    List.inj_on_of_nodup_map h.indices hother hmem hindex

/-- What is asked for first are the tasks that can start without any result. -/
theorem firstIds_eq_startIds : firstIds graph = startIds graph fun _ => none := by
  have hnone : ∀ index, ¬ FinishedIndex graph (fun _ => none) index := by
    rintro index ⟨_, _, _, _, hmem, _⟩
    cases hmem
  rw [firstIds_eq, startIds]
  refine congrArg (List.map _) (List.filter_congr fun task _ => ?_)
  rw [Bool.eq_iff_iff, decide_eq_true_iff, Bool.and_eq_true, Bool.not_eq_true', List.isEmpty_iff]
  constructor
  · rintro ⟨hjoin, hnil⟩
    refine ⟨hjoin, hnone _, fun d hd => ?_⟩
    rw [hnil] at hd
    cases hd
  · intro hcan
    refine ⟨hcan.1, List.eq_nil_iff_forall_not_mem.mpr fun d hd => hnone d (hcan.2.2 d hd)⟩

/-- Where no task can start, all are finished. -/
theorem WellFormed.finished (h : WellFormed graph)
    (hidle : findNextTasks (graph.withResults results) = []) :
    ∀ task ∈ graph.tasks, task.isJoin = false → Finished (results task.toolCall.id) := by
  refine finished_of_idle h.backward h.named (fun task hmem _ hindex => ?_) hidle
  obtain ⟨other, hother, hsame, hfinished⟩ := hindex
  rwa [List.inj_on_of_nodup_map h.indices hother hmem hsame] at hfinished

theorem startIds_eq_nil_iff :
    startIds graph results = [] ↔ findNextTasks (graph.withResults results) = [] := by
  rw [startIds, findNextTasks_withResults, List.map_eq_nil_iff, List.map_eq_nil_iff]

end Graphs

/-! ### From cycle to cycle -/

section Executions

variable {env : Environment σ} {graph : LLMCompilerTaskGraph} {run : PlanRun σ}
variable {results : String → Option Message}

/-- The run asks for the tasks that can start, and there are some. -/
structure Cycle (graph : LLMCompilerTaskGraph) (run : PlanRun σ)
    (results : String → Option Message) : Prop where
  asked : AskedAt graph run results (startIds graph results)
  some : startIds graph results ≠ []
  tally : Tally graph run.log results

/-- The run reaches the joiner, with all requests answered and no task left to start. -/
def ReachesJoin (env : Environment σ) (graph : LLMCompilerTaskGraph) (run : PlanRun σ) : Prop :=
  ∃ n before event rest results,
    ((advanceRun env)^[n] run).log = before ++ event :: rest ∧ event.joins?.isSome = true ∧
      Tally graph before results ∧ findNextTasks (graph.withResults results) = []

theorem ReachesJoin.of_iterate {k : Nat} (h : ReachesJoin env graph ((advanceRun env)^[k] run)) :
    ReachesJoin env graph run := by
  obtain ⟨n, h⟩ := h
  refine ⟨n + k, ?_⟩
  rwa [Function.iterate_add_apply]

/-- **One cycle.**  The calls are answered, and then the joiner is reached or the next ones
are made. -/
theorem Cycle.step (hgraph : WellFormed graph) (henv : env.AnswersOnce)
    (htasks : 1 < graph.tasks.length) (h : Cycle graph run results) :
    ∃ k messages, (messages.map (·.toolCallId)).Perm (startIds graph results) ∧
      Tally graph ((advanceRun env)^[k + 1] run).log (stored results messages) ∧
      (∀ message ∈ messages, message ∈ answers ((advanceRun env)^[k + 1] run).log) ∧
      (ReachesJoin env graph run ∨
        Cycle graph ((advanceRun env)^[k + 2] run) (stored results messages)) := by
  obtain ⟨k, messages, events, hperm, hrequests, hanswers, hquiet, hlog, hobserved⟩ :=
    observed_of_asked henv h.asked h.some hgraph.nodup_startIds htasks
  have htally : Tally graph ((advanceRun env)^[k + 1] run).log (stored results messages) := by
    rw [hlog]
    refine h.tally.append hquiet hanswers (hrequests ▸ hperm) (hrequests ▸ hgraph.nodup_startIds)
      fun id hid => ?_
    rw [hrequests] at hid
    exact waiting_of_mem_startIds hid
  refine ⟨k, messages, hperm, htally, fun message hmem => ?_, ?_⟩
  · rw [hlog, answers, List.flatMap_append]
    rw [← hanswers] at hmem
    exact List.mem_append_right _ hmem
  · by_cases hidle : findNextTasks (graph.withResults (stored results messages)) = []
    · obtain ⟨event, rest, hjoin, hjoins⟩ := joins_of_observed hobserved hidle
      refine .inl ⟨k + 2, _, event, rest, _, ?_, hjoins, htally, hidle⟩
      rw [Function.iterate_succ_apply', hjoin]
    · obtain ⟨hasked, hsame⟩ := asked_of_observed hobserved hidle
      have hnext :
          streamRound env ((advanceRun env)^[k + 1] run) = (advanceRun env)^[k + 2] run := by
        rw [streamRound_of_going hobserved.going, ← advance_of_going hobserved.going]
        exact (Function.iterate_succ_apply' _ _ _).symm
      rw [hnext] at hasked hsame
      rw [hgraph.callIds_next] at hasked
      exact .inr ⟨hasked, fun hnil => hidle (startIds_eq_nil_iff.mp hnil), hsame ▸ htally⟩

theorem Tally.planPart_eq {log : List Event} (h : Tally graph log results) :
    planPart log = log :=
  List.takeWhile_eq_self_iff.mpr fun event hmem => by rw [h.quiet event hmem]; rfl

/-- A tallied log has no joiner yet. -/
theorem Tally.not_joined {log : List Event} (h : Tally graph log results) : ¬ Joined log := by
  rintro ⟨event, hmem, hjoins⟩
  rw [h.quiet event hmem] at hjoins
  cases hjoins

/-- With answers that are not blank the joiner is reached. -/
theorem Cycle.reaches_of_filled (hgraph : WellFormed graph) (henv : env.AnswersOnce)
    (htasks : 1 < graph.tasks.length) (h : Cycle graph run results)
    (hfilled : AnswersFilled env run) : ReachesJoin env graph run := by
  induction hcard : (unfinished graph results).card using Nat.strongRecOn
    generalizing run results with
  | ind card ih =>
      obtain ⟨k, messages, hperm, htally, hanswers, hnext⟩ := h.step hgraph henv htasks
      rcases hnext with hjoin | hnext
      · exact hjoin
      · have hmessages : ∀ message ∈ messages, isNotBlankString message.content = true := by
          intro message hmem
          refine hfilled (k + 1) message ?_
          rw [htally.planPart_eq]
          exact hanswers message hmem
        have hless : (unfinished graph (stored results messages)).card < card := by
          rw [← hcard]
          exact card_unfinished_lt h.some (fun _ => waiting_of_mem_startIds) hperm hmessages
        refine .of_iterate (ih _ hless hnext (fun n => ?_) rfl)
        rw [← Function.iterate_add_apply]
        exact hfilled _

/-- Once the joiner is reached, it was reached so. -/
theorem Cycle.reaches_of_joined (hgraph : WellFormed graph) (henv : env.AnswersOnce)
    (htasks : 1 < graph.tasks.length) (h : Cycle graph run results) {m : Nat}
    (hjoined : Joined ((advanceRun env)^[m] run).log) : ReachesJoin env graph run := by
  induction m using Nat.strongRecOn generalizing run results with
  | ind m ih =>
      obtain ⟨k, messages, -, -, -, hnext⟩ := h.step hgraph henv htasks
      rcases hnext with hjoin | hnext
      · exact hjoin
      · have hlater : k + 2 < m := by
          by_contra hle
          obtain ⟨event, hmem, hjoins⟩ := hjoined
          exact hnext.tally.not_joined
            ⟨event, (log_iterate (Nat.le_of_not_lt hle)).subset hmem, hjoins⟩
        obtain ⟨n, rfl⟩ := Nat.exists_eq_add_of_lt hlater
        refine .of_iterate (ih (n + 1) (by omega) hnext ?_)
        rw [← Function.iterate_add_apply]
        rwa [show n + 1 + (k + 2) = k + 2 + n + 1 by omega]

/-- A run that starts on a graph with a task begins with a cycle. -/
theorem PlanStarts.cycle (hgraph : WellFormed graph) (h : PlanStarts graph run)
    (hsome : ∃ task ∈ graph.tasks, task.isJoin = false) : Cycle graph run fun _ => none := by
  obtain ⟨request, hrequest, hlast⟩ := h.last
  refine ⟨⟨h.going, request, ?_, ?_⟩, fun hnil => ?_, ?_⟩
  · rw [hrequest, ← firstIds_eq_startIds]
    rfl
  · rw [hlast, withResults_of_fresh hgraph.fresh]
  · -- otherwise all tasks would be finished
    obtain ⟨task, hmem, hjoin⟩ := hsome
    obtain ⟨_, hnone, -⟩ := hgraph.finished (startIds_eq_nil_iff.mp hnil) task hmem hjoin
    cases hnone
  · rw [h.log]
    exact tally_nil graph

/-- A run that cannot hand out its first calls fails, and never reaches the joiner. -/
theorem PlanStarts.not_joined (h : PlanStarts graph run)
    (hbad : firstIds graph = [] ∨ ¬ 1 < graph.tasks.length)
    (hfresh : ∀ task ∈ graph.tasks, task.result = none) (n : Nat) :
    ¬ Joined ((advanceRun env)^[n] run).log := by
  obtain ⟨request, hrequest, hlast⟩ := h.last
  have hasked : AskedAt graph run (fun _ => none) (firstIds graph) := by
    refine ⟨h.going, request, by rw [hrequest]; rfl, ?_⟩
    rw [hlast, withResults_of_fresh hfresh]
  obtain ⟨e, hfails⟩ : ∃ e, streamRound env run = { run with progress := .failed e } :=
    fails_of_asked hasked hbad
  have hfailed : advanceRun env run = { run with progress := .failed e } := by
    rw [advance_of_going h.going, ← streamRound_of_going h.going, hfails]
  have hstays : ∀ n, (advanceRun env)^[n + 1] run = { run with progress := .failed e } := by
    intro n
    induction n with
    | zero => exact hfailed
    | succ n ih =>
        rw [Function.iterate_succ_apply', ih]
        rfl
  have hlog : ((advanceRun env)^[n] run).log = [] := by
    cases n with
    | zero => exact h.log
    | succ n =>
        rw [hstays n]
        exact h.log
  rintro ⟨event, hmem, -⟩
  rw [hlog] at hmem
  cases hmem

/-- At the joiner, every task was asked for once exactly when no answer was blank. -/
theorem Tally.once_iff {log : List Event} (h : Tally graph log results)
    (hfinished : ∀ task ∈ graph.tasks, task.isJoin = false →
      Finished (results task.toolCall.id)) :
    (∀ task ∈ graph.tasks, task.isJoin = false → (requests log).count task.toolCall.id = 1) ↔
      ∀ message ∈ answers log, isNotBlankString message.content = true := by
  constructor
  · intro honce message hmem
    by_contra hblank
    have hid : message.toolCallId ∈ requests log :=
      h.answered.subset (List.mem_map_of_mem hmem)
    obtain ⟨task, htask, hjoin, heq⟩ := h.tasks _ hid
    have hone := honce task htask hjoin
    have hfilled := h.filled task.toolCall.id
    rw [if_pos (hfinished task htask hjoin)] at hfilled
    rw [← h.answered.count_eq] at hone
    -- the blank answer is one more than the one that is not blank
    have hsplit := ((List.filter_append_perm
      (fun message : Message => isNotBlankString message.content) (answers log)).map
        (·.toolCallId)).count_eq task.toolCall.id
    rw [List.map_append, List.count_append, hfilled, hone] at hsplit
    have hblankId : task.toolCall.id ∈ ((answers log).filter fun message =>
        !isNotBlankString message.content).map (·.toolCallId) := by
      rw [heq]
      exact List.mem_map_of_mem (List.mem_filter.mpr ⟨hmem, by simpa using hblank⟩)
    have hpos := List.count_pos_iff.mpr hblankId
    omega
  · intro hfilled task hmem hjoin
    have hall : (answers log).filter (fun message => isNotBlankString message.content)
        = answers log := List.filter_eq_self.mpr hfilled
    have hone := h.filled task.toolCall.id
    rwa [hall, if_pos (hfinished task hmem hjoin), h.answered.count_eq] at hone

/-- What counts at the joiner, counts for the run. -/
theorem ReachesJoin.once_iff_filled (hgraph : WellFormed graph)
    (h : ReachesJoin env graph run) : RequestsOnce env graph run ↔ AnswersFilled env run := by
  obtain ⟨N, before, event, rest, results, hlog, hjoins, htally, hidle⟩ := h
  have honce := htally.once_iff (hgraph.finished hidle)
  have hjoined : Joined ((advanceRun env)^[N] run).log :=
    ⟨event, by rw [hlog]; exact List.mem_append_right _ List.mem_cons_self, hjoins⟩
  have hbefore : planPart ((advanceRun env)^[N] run).log = before := by
    rw [hlog]
    exact planPart_append_join htally.quiet hjoins
  constructor
  · rintro ⟨n, hn, hcounts⟩ m message hmem
    have hsame : planPart ((advanceRun env)^[n] run).log = before := by
      rw [← hbefore]
      rcases Nat.le_total n N with hle | hle
      · exact (planPart_of_joined hn (log_iterate hle)).symm
      · exact planPart_of_joined hjoined (log_iterate hle)
    rw [hsame] at hcounts
    refine honce.mp hcounts message ?_
    have hstart : planPart ((advanceRun env)^[m] run).log <+: before := by
      rw [← hbefore]
      rcases Nat.le_total m N with hle | hle
      · exact planPart_prefix (log_iterate hle)
      · rw [planPart_of_joined hjoined (log_iterate hle)]
    obtain ⟨back, rfl⟩ := hstart
    rw [answers, List.flatMap_append]
    exact List.mem_append_left _ hmem
  · intro hfilled
    refine ⟨N, hjoined, ?_⟩
    rw [hbefore]
    refine honce.mpr fun message hmem => hfilled N message ?_
    rwa [hbefore]

end Executions

/-- **When a plan is executed once.**  For every well-formed graph, every worker and user that
answer each requested call with one message of any content, and every joiner, the joiner is
reached with each task asked for exactly once, if and only if there is a task besides the
`join` and another one with it, and none of the answers is blank. -/
theorem requestsOnce_iff {env : Environment σ} {graph : LLMCompilerTaskGraph} {run : PlanRun σ}
    (hgraph : WellFormed graph) (henv : env.AnswersOnce) (hstart : PlanStarts graph run) :
    RequestsOnce env graph run ↔
      1 < graph.tasks.length ∧ (∃ task ∈ graph.tasks, task.isJoin = false) ∧
        AnswersFilled env run := by
  constructor
  · intro h
    obtain ⟨n, hjoined, -⟩ := id h
    have htasks : 1 < graph.tasks.length := by
      by_contra hsingle
      exact hstart.not_joined (.inr hsingle) hgraph.fresh n hjoined
    have hsome : ∃ task ∈ graph.tasks, task.isJoin = false := by
      by_contra hnone
      refine hstart.not_joined (.inl ?_) hgraph.fresh n hjoined
      refine List.eq_nil_iff_forall_not_mem.mpr fun id hid => ?_
      obtain ⟨task, hmem, hjoin, -⟩ := mem_firstIds.mp hid
      exact hnone ⟨task, hmem, hjoin⟩
    have hreach := (hstart.cycle hgraph hsome).reaches_of_joined hgraph henv htasks hjoined
    exact ⟨htasks, hsome, (hreach.once_iff_filled hgraph).mp h⟩
  · rintro ⟨htasks, hsome, hfilled⟩
    have hreach := (hstart.cycle hgraph hsome).reaches_of_filled hgraph henv htasks hfilled
    exact (hreach.once_iff_filled hgraph).mpr hfilled

end Runs

/-! ### Answers with a text, and without -/

/-- Every call is answered with the same text, by the worker or else by the user. -/
def repeating (content : String) : Environment Unit where
  answer
    | .plan _ => pure (.unset : AgentThought)
    | .work (.continuation { toolCallMessage := some request, .. }) =>
        pure ({ toolMessages := request.toolCalls.map fun call =>
          { content := content, role := "tool", toolCallId := call.id } } : AgentObservation)
    | .work _ => pure ({} : AgentObservation)
    | .join _ => pure ({ answer := "done" } : LLMCompilerJoinerResult)
  submit pause s :=
    ((((pause.toolCallMessage.getD {}).toolCalls.map (·.id)).diff
      (pause.completed.map (·.toolCallId))).map fun id =>
        { content := content, role := "tool", toolCallId := id }, s)

theorem answersOnce_repeating (content : String) : (repeating content).AnswersOnce where
  worker request custom s := by
    refine ⟨_, s, rfl, ?_⟩
    show ((request.toolCalls.map _).map _).Subperm _
    rw [List.map_map]
    exact List.Subperm.refl _
  user pause request s hrequest hsubperm := by
    have hdiff := List.subperm_append_diff_self_of_count_le fun id _ => hsubperm.count_le id
    have hsubmit : ((repeating content).submit pause s).1.map (·.toolCallId)
        = (request.toolCalls.map (·.id)).diff (pause.completed.map (·.toolCallId)) := by
      show ((((pause.toolCallMessage.getD {}).toolCalls.map _).diff _).map _).map _ = _
      rw [hrequest, List.map_map]
      exact List.map_id _
    rwa [List.map_append, hsubmit]

/-- The run behind the plan `oneSearch`. -/
def searchRun : PlanRun Unit where
  state := { previousSteps := [.thought (.continuation searchContinuation)] }
  memory := ()

theorem wellFormed_oneSearch : WellFormed oneSearch where
  ids := by decide
  indices := by decide
  fresh := by decide
  backward := by decide
  named := by decide

theorem starts_searchRun : PlanStarts oneSearch searchRun where
  going := rfl
  log := rfl
  last := ⟨searchRequest, rfl, rfl⟩

/-- Where the search finds something, it is made once. -/
theorem answersFilled_searchRun : AnswersFilled (repeating "a cat") searchRun :=
  ((requestsOnce_iff wellFormed_oneSearch (answersOnce_repeating _) starts_searchRun).mp
    ⟨2, ⟨_, List.mem_cons_of_mem _ List.mem_cons_self, rfl⟩, by decide⟩).2.2

/-- Where the search finds nothing, it is made again and again. -/
theorem searchRun_repeats :
    WellFormed oneSearch ∧ (repeating "").AnswersOnce ∧ PlanStarts oneSearch searchRun ∧
      (requests (planPart ((advanceRun (repeating ""))^[3] searchRun).log)).count "call-1" = 2 ∧
      ¬ RequestsOnce (repeating "") oneSearch searchRun := by
  have htwice : (requests (planPart ((advanceRun (repeating ""))^[3] searchRun).log)).count "call-1"
      = 2 := by decide
  refine ⟨wellFormed_oneSearch, answersOnce_repeating _, starts_searchRun, htwice, fun h => ?_⟩
  obtain ⟨n, hjoined, -⟩ := id h
  have hcycle := starts_searchRun.cycle wellFormed_oneSearch (by decide)
  have hreach := hcycle.reaches_of_joined wellFormed_oneSearch (answersOnce_repeating _)
    (by decide) hjoined
  have hfilled := (hreach.once_iff_filled wellFormed_oneSearch).mp h 1
    { content := "", role := "tool", toolCallId := "call-1" } List.mem_cons_self
  cases hfilled

end Instinct
