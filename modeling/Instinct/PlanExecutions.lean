/-
Instinct/PlanExecutions.lean

One plan, from the planner's text to the joiner, with a worker that answers every
call and a joiner that has the final answer.

Between two rounds the run has either asked for some calls or observed their
answers (`AskedAt`, `ObservedAt`), and the results that are known so far decide
how it goes on.  So an invariant of runs is a pair of predicates, on what may be
asked for and on what may be observed (`Closed`, `traced_iterate`).

The parser, the choice of the next tasks and the executor each assume something
of the graph.  A graph for which all three hold is `Startable`: it has a task
besides the `join`, the dependencies are tasks, and a task with dependencies does
not share its index.  The runs of a parsed plan execute it exactly when its graph
is startable (`executes_iff_startable`).
-/
import Instinct.PlanRuns

namespace Instinct

open Effects

/-! ### What is expected of a run -/

/-- The ids of the calls that an event hands to the worker. -/
def Event.requested : Event → List String
  | .called (.work (.continuation { toolCallMessage := some request, .. })) _ =>
      request.toolCalls.map (·.id)
  | _ => []

/-- The graph that an event hands to the joiner. -/
def Event.joins? : Event → Option LLMCompilerTaskGraph
  | .called (.join graph) _ => some graph
  | _ => none

section Runs

variable {σ : Type}

/-- The worker answers each requested call with one message that is not blank, and the
joiner has a final answer. -/
structure Environment.Cooperative (env : Environment σ) : Prop where
  worker : ∀ request custom s, ∃ observation s',
    env.answer (.work (.continuation { toolCallMessage := some request, custom := custom })) s
      = (.ok observation, s') ∧
    (AgentObservation.toolMessages observation |>.map (·.toolCallId)).Perm
      (request.toolCalls.map (·.id)) ∧
    ∀ message ∈ AgentObservation.toolMessages observation, isNotBlankString message.content = true
  joiner : ∀ graph s, ∃ result s', env.answer (.join graph) s = (.ok result, s') ∧
    LLMCompilerJoinerResult.isReplan result = false

/-- The run executes a plan: it never fails, it asks for every task but the `join`, and the
joiner gets a result for each of them. -/
structure Executes (env : Environment σ) (graph : LLMCompilerTaskGraph) (run : PlanRun σ) :
    Prop where
  unfailed : ∀ n e, ((streamRound env)^[n] run).progress ≠ .failed e
  requested : ∀ task ∈ graph.tasks, task.isJoin = false →
    ∃ n, ∃ event ∈ ((streamRound env)^[n] run).log, task.toolCall.id ∈ event.requested
  joined : ∀ n, ∀ event ∈ ((streamRound env)^[n] run).log, ∀ joined ∈ event.joins?,
    ∀ task ∈ graph.tasks, task.isJoin = false →
      ∃ other ∈ joined.tasks, other.toolCall.id = task.toolCall.id ∧ other.result.isSome = true

/-- The parser, the choice of the next tasks and the executor agree on the graph. -/
structure Startable (graph : LLMCompilerTaskGraph) : Prop where
  /-- There is a task besides the `join`. -/
  some : ∃ task ∈ graph.tasks, task.isJoin = false
  /-- The dependencies are tasks. -/
  named : ∀ task ∈ graph.tasks, task.isJoin = false → ∀ d ∈ task.dependencies,
    ∃ other ∈ graph.tasks, other.isJoin = false ∧ other.index = d
  /-- A task with dependencies does not share its index. -/
  alone : ∀ task ∈ graph.tasks, task.isJoin = false → task.dependencies ≠ [] →
    ∀ other ∈ graph.tasks, other.index = task.index → other = task

/-! ### The two places of a run -/

section Steps

variable {env : Environment σ} {graph : LLMCompilerTaskGraph} {run : PlanRun σ}
variable {results : String → Option Message} {calls : List String}

/-- The run has asked for some calls. -/
structure AskedAt (graph : LLMCompilerTaskGraph) (run : PlanRun σ)
    (results : String → Option Message) (calls : List String) : Prop where
  going : run.progress = .going
  last : ∃ request : Message, request.toolCalls.map (·.id) = calls ∧
    run.state.previousSteps.getLast? = some (.thought (.continuation
      { toolCallMessage := some request, custom := .taskGraph (graph.withResults results) }))

/-- The run has observed the answers to its calls. -/
structure ObservedAt (graph : LLMCompilerTaskGraph) (run : PlanRun σ)
    (results : String → Option Message) : Prop where
  going : run.progress = .going
  last : ∃ observation : AgentObservation,
    observation.custom = .taskGraph (graph.withResults results) ∧
    run.state.previousSteps.getLast? = some (.observation observation)

theorem streamRound_of_going (h : run.progress = .going) : streamRound env run = round env run :=
  if_pos h

theorem streamRound_of_halted (h : run.progress ≠ .going) : streamRound env run = run :=
  if_neg h

theorem length_withResults :
    (graph.withResults results).tasks.length = graph.tasks.length := List.length_map _

/-- A request that the executor cannot hand to its worker. -/
theorem fails_of_asked (h : AskedAt graph run results calls)
    (hbad : calls = [] ∨ ¬ 1 < graph.tasks.length) :
    ∃ e, streamRound env run = { run with progress := .failed e } := by
  obtain ⟨request, rfl, hlast⟩ := h.last
  rw [streamRound_of_going h.going]
  by_cases hcalls : request.toolCalls = []
  · exact ⟨_, round_empty hlast hcalls⟩
  · rcases hbad with hnil | htasks
    · exact absurd (List.map_eq_nil_iff.mp hnil) hcalls
    · exact round_single hlast hcalls (by rwa [length_withResults])

/-- The worker answers a request: the answers are observed, or the run pauses as a call was
made twice. -/
theorem answered_of_asked (henv : env.Cooperative) (h : AskedAt graph run results calls)
    (hcalls : calls ≠ []) (htasks : 1 < graph.tasks.length) :
    ∃ messages event, (messages.map (·.toolCallId)).Perm calls ∧
      (∀ message ∈ messages, isNotBlankString message.content = true) ∧
      event.requested = calls ∧ event.joins? = none ∧
      (streamRound env run).log = run.log ++ [event] ∧
      (ObservedAt graph (streamRound env run) (stored results messages) ∨
        (streamRound env run).progress = .paused ∧ ¬ calls.Nodup) := by
  obtain ⟨request, rfl, hlast⟩ := h.last
  obtain ⟨observation, s', hanswer, hperm, hfilled⟩ :=
    henv.worker request (.taskGraph (graph.withResults results)) run.memory
  have hround := round_continuation hlast (fun hnil => hcalls (by rw [hnil]; rfl))
    (by rwa [length_withResults]) hanswer
  rw [streamRound_of_going h.going]
  refine ⟨AgentObservation.toolMessages observation, .called _ (.ok observation), hperm, hfilled,
    rfl, rfl, by rw [hround], ?_⟩
  rw [hround]
  by_cases hnodup : (request.toolCalls.map (·.id)).Nodup
  · have hstep := workerStep_of_complete (countCompleted_of_perm hnodup hperm)
      (graph.withResults results)
    rw [hstep, setResults_withResults]
    exact .inl ⟨rfl, _, rfl, List.getLast?_concat⟩
  · unfold workerStep
    split
    · exact .inr ⟨rfl, hnodup⟩
    · rw [setResults_withResults]
      exact .inl ⟨rfl, _, rfl, List.getLast?_concat⟩

/-- While tasks can start, they are asked for. -/
theorem asked_of_observed (h : ObservedAt graph run results)
    (hnext : findNextTasks (graph.withResults results) ≠ []) :
    AskedAt graph (streamRound env run) results
        (callIds graph (findNextTasks (graph.withResults results))) ∧
      (streamRound env run).log = run.log := by
  obtain ⟨observation, hgraph, hlast⟩ := h.last
  obtain ⟨request, hrequest, hids⟩ := buildToolCallRequest_next graph results
  rw [streamRound_of_going h.going, round_next hlast hgraph hnext hrequest]
  exact ⟨⟨rfl, request, hids, List.getLast?_concat⟩, rfl⟩

/-- Then the joiner ends the run. -/
theorem joined_of_observed (henv : env.Cooperative) (h : ObservedAt graph run results)
    (hnext : findNextTasks (graph.withResults results) = []) :
    (streamRound env run).progress = .ended ∧
      ∃ event joined, (streamRound env run).log = run.log ++ [event] ∧ event.requested = [] ∧
        event.joins? = some joined ∧ joined.tasks = (graph.withResults results).tasks := by
  obtain ⟨observation, hgraph, hlast⟩ := h.last
  obtain ⟨result, s', hjoin, hreplan⟩ :=
    henv.joiner ((graph.withResults results).asked run.state) run.memory
  obtain ⟨state, hround⟩ := round_join hlast hgraph hnext hjoin hreplan
  rw [streamRound_of_going h.going, hround]
  exact ⟨rfl, _, _, rfl, rfl, rfl, rfl⟩

end Steps

/-! ### Invariants of runs -/

/-- The predicates are kept: by the answers to what may be asked for, and by the next request
behind what may be observed. -/
structure Closed (graph : LLMCompilerTaskGraph)
    (Asked : (String → Option Message) → List String → Prop)
    (Observed : (String → Option Message) → Prop) : Prop where
  answered : ∀ {results calls messages}, Asked results calls →
    (messages.map (·.toolCallId)).Perm calls →
    (∀ message ∈ messages, isNotBlankString message.content = true) →
    Observed (stored results messages)
  next : ∀ {results}, Observed results → findNextTasks (graph.withResults results) ≠ [] →
    Asked results (callIds graph (findNextTasks (graph.withResults results)))

/-- Every result was asked for. -/
def Known (log : List Event) (results : String → Option Message) : Prop :=
  ∀ id, results id ≠ none → ∃ event ∈ log, id ∈ event.requested

/-- A run that keeps the predicates. -/
structure Traced (graph : LLMCompilerTaskGraph)
    (Asked : (String → Option Message) → List String → Prop)
    (Observed : (String → Option Message) → Prop) (run : PlanRun σ) : Prop where
  /-- What was asked for might be. -/
  requested : ∀ event ∈ run.log, event.requested ≠ [] → ∃ results, Asked results event.requested
  /-- The joiner is asked where no task can start. -/
  joined : ∀ event ∈ run.log, ∀ joined ∈ event.joins?, ∃ results, Observed results ∧
    findNextTasks (graph.withResults results) = [] ∧
    joined.tasks = (graph.withResults results).tasks
  /-- Where the run stands.  A run that neither goes on nor has ended was stopped at a
  request, which was empty, named a call twice, or was made for a single task. -/
  place :
    (∃ results calls, AskedAt graph run results calls ∧ Asked results calls ∧
      Known run.log results) ∨
    (∃ results, ObservedAt graph run results ∧ Observed results ∧ Known run.log results) ∨
    run.progress = .ended ∨
    run.progress ≠ .going ∧
      ∃ results calls, Asked results calls ∧
        (calls = [] ∨ ¬ calls.Nodup ∨ ¬ 1 < graph.tasks.length)

section Invariants

variable {env : Environment σ} {graph : LLMCompilerTaskGraph} {run : PlanRun σ}
variable {Asked : (String → Option Message) → List String → Prop}
variable {Observed : (String → Option Message) → Prop}

theorem Known.append {log : List Event} {results : String → Option Message} (h : Known log results)
    (event : Event) : Known (log ++ [event]) results := by
  intro id hid
  obtain ⟨earlier, hmem, hrequested⟩ := h id hid
  exact ⟨earlier, List.mem_append_left _ hmem, hrequested⟩

/-- The answers to a request are known. -/
theorem Known.stored {log : List Event} {results : String → Option Message}
    {messages : List Message} {event : Event} (h : Known log results)
    (hperm : (messages.map (·.toolCallId)).Perm event.requested) :
    Known (log ++ [event]) (Instinct.stored results messages) := by
  intro id hid
  by_cases hmem : id ∈ messages.map (·.toolCallId)
  · exact ⟨event, List.mem_append_right _ List.mem_cons_self, hperm.mem_iff.mp hmem⟩
  · rw [stored_of_not_mem hmem] at hid
    exact h.append event id hid

theorem traced_streamRound (henv : env.Cooperative) (hclosed : Closed graph Asked Observed)
    (h : Traced graph Asked Observed run) : Traced graph Asked Observed (streamRound env run) := by
  rcases h.place with ⟨results, calls, hat, hasked, hknown⟩ |
    ⟨results, hat, hobserved, hknown⟩ | hended | hhalted
  · by_cases hbad : calls = [] ∨ ¬ 1 < graph.tasks.length
    · -- an illegal state, or a failed assertion
      obtain ⟨e, hround⟩ := fails_of_asked hat hbad
      rw [hround]
      refine ⟨h.requested, h.joined, .inr (.inr (.inr ⟨nofun, results, calls, hasked, ?_⟩))⟩
      exact hbad.elim .inl fun htasks => .inr (.inr htasks)
    · obtain ⟨hcalls, htasks⟩ := not_or.mp hbad
      obtain ⟨messages, event, hperm, hfilled, hrequested, hjoins, hlog, hplace⟩ :=
        answered_of_asked henv hat hcalls (not_not.mp htasks)
      refine ⟨fun other hmem hne => ?_, fun other hmem joined hjoined => ?_, ?_⟩
      · rw [hlog] at hmem
        rcases List.mem_append.mp hmem with hmem | hmem
        · exact h.requested other hmem hne
        · obtain rfl := List.mem_singleton.mp hmem
          exact ⟨results, hrequested ▸ hasked⟩
      · rw [hlog] at hmem
        rcases List.mem_append.mp hmem with hmem | hmem
        · exact h.joined other hmem joined hjoined
        · obtain rfl := List.mem_singleton.mp hmem
          rw [hjoins] at hjoined
          cases hjoined
      · rcases hplace with hobserved | ⟨hpaused, hnodup⟩
        · refine .inr (.inl ⟨_, hobserved, hclosed.answered hasked hperm hfilled, ?_⟩)
          rw [hlog]
          exact hknown.stored (hrequested ▸ hperm)
        · refine .inr (.inr (.inr ⟨by rw [hpaused]; nofun, results, calls, hasked, ?_⟩))
          exact .inr (.inl hnodup)
  · by_cases hnext : findNextTasks (graph.withResults results) = []
    · obtain ⟨hended, event, joined, hlog, hrequested, hjoins, htasks⟩ :=
        joined_of_observed henv hat hnext
      refine ⟨fun other hmem hne => ?_, fun other hmem other' hjoined => ?_,
        .inr (.inr (.inl hended))⟩
      · rw [hlog] at hmem
        rcases List.mem_append.mp hmem with hmem | hmem
        · exact h.requested other hmem hne
        · obtain rfl := List.mem_singleton.mp hmem
          exact absurd hrequested hne
      · rw [hlog] at hmem
        rcases List.mem_append.mp hmem with hmem | hmem
        · exact h.joined other hmem other' hjoined
        · obtain rfl := List.mem_singleton.mp hmem
          obtain rfl := Option.some.inj (hjoins.symm.trans hjoined)
          exact ⟨results, hobserved, hnext, htasks⟩
    · obtain ⟨hasked, hlog⟩ := asked_of_observed hat hnext
      refine ⟨by rw [hlog]; exact h.requested, by rw [hlog]; exact h.joined, .inl ?_⟩
      exact ⟨results, _, hasked, hclosed.next hobserved hnext, hlog ▸ hknown⟩
  · rw [streamRound_of_halted (by rw [hended]; nofun)]
    exact h
  · rw [streamRound_of_halted hhalted.1]
    exact h

/-- **Run lemma.**  What the requests and their answers keep, holds along the whole run. -/
theorem traced_iterate (henv : env.Cooperative) (hclosed : Closed graph Asked Observed)
    (h : Traced graph Asked Observed run) (n : Nat) :
    Traced graph Asked Observed ((streamRound env)^[n] run) := by
  induction n with
  | zero => exact h
  | succ n ih =>
      rw [Function.iterate_succ_apply']
      exact traced_streamRound henv hclosed ih

/-- **Progress of a run.**  Where every answer finishes a task, no task can start in the end. -/
theorem reaches_idle (henv : env.Cooperative) (hclosed : Closed graph Asked Observed)
    (htasks : 1 < graph.tasks.length)
    (hsound : ∀ {results calls}, Asked results calls → calls ≠ [] ∧ calls.Nodup)
    (hless : ∀ {results calls messages}, Asked results calls →
      (messages.map (·.toolCallId)).Perm calls →
      (∀ message ∈ messages, isNotBlankString message.content = true) →
      (unfinished graph (stored results messages)).card < (unfinished graph results).card)
    {results : String → Option Message} {calls : List String}
    (hat : AskedAt graph run results calls) (hasked : Asked results calls)
    (hknown : Known run.log results) :
    ∃ n results', ObservedAt graph ((streamRound env)^[n] run) results' ∧ Observed results' ∧
      Known ((streamRound env)^[n] run).log results' ∧
      findNextTasks (graph.withResults results') = [] := by
  induction hcard : (unfinished graph results).card using Nat.strongRecOn
    generalizing run results calls with
  | ind card ih =>
      obtain ⟨hcalls, hnodup⟩ := hsound hasked
      obtain ⟨messages, event, hperm, hfilled, hrequested, -, hlog, hplace⟩ :=
        answered_of_asked henv hat hcalls htasks
      have hobservedAt := hplace.resolve_right fun h => h.2 hnodup
      have hobserved := hclosed.answered hasked hperm hfilled
      have hknown' : Known (streamRound env run).log (stored results messages) := by
        rw [hlog]
        exact hknown.stored (hrequested ▸ hperm)
      by_cases hnext : findNextTasks (graph.withResults (stored results messages)) = []
      · exact ⟨1, _, hobservedAt, hobserved, hknown', hnext⟩
      · -- the next request, with fewer tasks to go
        obtain ⟨hat', hlog'⟩ := asked_of_observed hobservedAt hnext
        obtain ⟨n, results', h⟩ := ih _ (hcard ▸ hless hasked hperm hfilled) hat'
          (hclosed.next hobserved hnext) (hlog' ▸ hknown') rfl
        refine ⟨n + 2, results', ?_⟩
        rw [Function.iterate_add_apply]
        exact h

end Invariants

/-! ### Parsed plans -/

/-- What the parser sees to. -/
structure Planned (graph : LLMCompilerTaskGraph) : Prop where
  ids : (graph.tasks.map (·.toolCall.id)).Nodup
  fresh : ∀ task ∈ graph.tasks, task.result = none
  backward : ∀ task ∈ graph.tasks, task.isJoin = false →
    ∀ d ∈ task.dependencies, d < task.index
  join : ∃ front join, graph.tasks = front ++ [join] ∧ join.isJoin = true ∧
    ∀ task ∈ front, task.isJoin = false

section Parsed

variable {ids : Nat → String}

/-- The parser gives no results. -/
theorem fresh_of_planTasks {n : Nat} {found : List ActionMatch} {tasks : List LLMCompilerTask}
    (h : planTasks ids n found = .ok tasks) : ∀ task ∈ tasks, task.result = none := by
  induction found generalizing n tasks with
  | nil =>
      obtain rfl := Except.ok.inj h
      nofun
  | cons first found ih =>
      obtain ⟨idx, -, h⟩ := checks_eq_ok.mp h
      obtain ⟨named, -, h⟩ := checks_eq_ok.mp h
      split at h
      · obtain ⟨earlier, -, h⟩ := checks_eq_ok.mp h
        obtain rfl := Except.ok.inj h
        intro task hmem
        obtain rfl := List.mem_singleton.mp hmem
        rfl
      · obtain ⟨rest, hrest, h⟩ := checks_eq_ok.mp h
        obtain rfl := Except.ok.inj h
        intro task hmem
        rcases List.mem_cons.mp hmem with rfl | hmem
        · rfl
        · exact ih hrest task hmem

/-- The ids of the tasks, when those of the matches are counted from zero. -/
theorem ids_withJoin {tasks : List LLMCompilerTask}
    (h : ∀ j task, tasks[j]? = some task → task.toolCall.id = ids j) :
    (withJoin ids tasks).map (·.toolCall.id) = (List.range (withJoin ids tasks).length).map ids := by
  have hmap : tasks.map (·.toolCall.id) = (List.range tasks.length).map ids := by
    refine List.ext_getElem? fun j => ?_
    rw [List.getElem?_map, List.getElem?_map]
    by_cases hj : j < tasks.length
    · rw [List.getElem?_range hj, List.getElem?_eq_getElem hj]
      exact congrArg some (h j _ (List.getElem?_eq_getElem hj))
    · rw [List.getElem?_eq_none (by omega), List.getElem?_eq_none (by simpa using hj)]
      rfl
  unfold withJoin
  split
  · exact hmap
  · rw [List.map_append, hmap, List.length_append, List.length_singleton, List.range_succ,
      List.map_append]
    rfl

/-- What the filled in `join` is. -/
theorem mem_withJoin {tasks : List LLMCompilerTask} {task : LLMCompilerTask}
    (h : task ∈ withJoin ids tasks) :
    task ∈ tasks ∨ task.isJoin = true ∧ task.result = none := by
  unfold withJoin at h
  split at h
  · exact .inl h
  · rcases List.mem_append.mp h with hmem | hmem
    · exact .inl hmem
    · obtain rfl := List.mem_singleton.mp hmem
      exact .inr ⟨rfl, rfl⟩

/-- The `join` stands at the end. -/
theorem join_withJoin {tasks : List LLMCompilerTask}
    (h : ∀ task ∈ tasks.dropLast, task.isJoin = false) :
    ∃ front join, withJoin ids tasks = front ++ [join] ∧ join.isJoin = true ∧
      ∀ task ∈ front, task.isJoin = false := by
  unfold withJoin
  split
  · rename_i hany
    obtain ⟨join, hmem, hjoin⟩ := List.any_eq_true.mp hany
    have hne := List.ne_nil_of_mem hmem
    have hsplit := List.dropLast_append_getLast hne
    refine ⟨tasks.dropLast, tasks.getLast hne, hsplit.symm, ?_, h⟩
    rw [← hsplit] at hmem
    rcases List.mem_append.mp hmem with hmem | hmem
    · rw [h join hmem] at hjoin
      cases hjoin
    · exact List.mem_singleton.mp hmem ▸ hjoin
  · rename_i hany
    refine ⟨tasks, _, rfl, rfl, fun task hmem => ?_⟩
    by_contra hjoin
    exact hany (List.any_eq_true.mpr ⟨task, hmem, by simpa using hjoin⟩)

/-- A plan that is continued is one with these properties, and its first tasks are asked for. -/
theorem planned_of_parseResult (hids : Function.Injective ids) {content : String}
    {request : Message} {graph : LLMCompilerTaskGraph}
    (h : parseResult ids content = .ok (.continuation
      { toolCallMessage := some request, custom := .taskGraph graph })) :
    Planned graph ∧ request.toolCalls = firstCalls graph.tasks := by
  obtain ⟨tasks, htasks, h⟩ := checks_eq_ok.mp h
  have h := Except.ok.inj h
  unfold planThought at h
  split at h
  · cases h
  obtain ⟨hrequest, hgraph⟩ := AgentContinuation.mk.inj (AgentThought.continuation.inj h)
  obtain rfl := Option.some.inj hrequest
  obtain rfl := Any.taskGraph.inj hgraph
  obtain ⟨used, rest, -, hbuilt, hbefore, -, hcounted⟩ := planTasks_ok htasks
  refine ⟨⟨?_, ?_, ?_, ?_⟩, (firstCalls_withJoin tasks).symm⟩
  · show ((withJoin ids tasks).map (·.toolCall.id)).Nodup
    rw [ids_withJoin fun j task hj => by rw [hcounted j task hj, Nat.zero_add]]
    exact List.nodup_range.map hids
  · intro task hmem
    rcases mem_withJoin hmem with hmem | ⟨-, hresult⟩
    · exact fresh_of_planTasks htasks task hmem
    · exact hresult
  · intro task hmem hjoin d hd
    rcases mem_withJoin hmem with hmem | ⟨hjoin', -⟩
    · obtain ⟨j, hj⟩ := List.getElem?_of_mem hmem
      obtain ⟨found, -, hfrom⟩ := getElem?_of_forall₂ hbuilt.flip hj
      obtain ⟨named, hnamed, hdependencies⟩ := hfrom.dependencies
      rw [if_neg (by rw [hjoin]; exact Bool.false_ne_true)] at hdependencies
      exact (namedDependencies_eq_ok.mp hnamed).2 d (hdependencies ▸ hd)
    · rw [hjoin] at hjoin'
      cases hjoin'
  · exact join_withJoin hbefore

end Parsed

/-! ### The first request -/

section Start

variable {env : Environment σ} {graph : LLMCompilerTaskGraph} {run : PlanRun σ}
variable {Asked : (String → Option Message) → List String → Prop}
variable {Observed : (String → Option Message) → Prop}

/-- The ids of the calls that are made at once. -/
def firstIds (graph : LLMCompilerTaskGraph) : List String :=
  (firstCalls graph.tasks).map (·.id)

theorem mem_firstIds {id : String} : id ∈ firstIds graph ↔
    ∃ task ∈ graph.tasks, task.isJoin = false ∧ task.dependencies = [] ∧ task.toolCall.id = id := by
  simp only [firstIds, firstCalls, List.map_map, List.mem_map, List.mem_filter,
    Bool.and_eq_true, Bool.not_eq_true', List.isEmpty_iff, Function.comp_apply, and_assoc]

theorem firstIds_eq : firstIds graph = (graph.tasks.filter fun task =>
    !task.isJoin && task.dependencies.isEmpty).map (·.toolCall.id) := List.map_map

/-- The tasks are told apart by the ids of their calls. -/
theorem Planned.eq_of_id (h : Planned graph) {task other : LLMCompilerTask}
    (hmem : task ∈ graph.tasks) (hother : other ∈ graph.tasks)
    (hid : task.toolCall.id = other.toolCall.id) : task = other :=
  List.inj_on_of_nodup_map h.ids hmem hother hid

/-- A task with dependencies is not asked for at once, nor is a `join`. -/
theorem Planned.not_mem_firstIds (h : Planned graph) {task : LLMCompilerTask}
    (hmem : task ∈ graph.tasks) (hlater : task.isJoin = true ∨ task.dependencies ≠ []) :
    task.toolCall.id ∉ firstIds graph := by
  intro hid
  obtain ⟨other, hother, hjoin, hnil, hid⟩ := mem_firstIds.mp hid
  obtain rfl := h.eq_of_id hother hmem hid
  rcases hlater with hjoin' | hne
  · rw [hjoin] at hjoin'
    cases hjoin'
  · exact hne hnil

/-- The planner has been asked. -/
structure Begun (graph : LLMCompilerTaskGraph) (run : PlanRun σ) : Prop where
  asked : AskedAt graph run (fun _ => none) (firstIds graph)
  quiet : ∀ event ∈ run.log, event.requested = [] ∧ event.joins? = none

theorem begun_streamRound {request : Message} {input : PromptValue} {s : σ}
    (hfresh : ∀ task ∈ graph.tasks, task.result = none)
    (hrequest : request.toolCalls = firstCalls graph.tasks)
    (hplan : (env.answer (.plan { input := input }) s).1 = .ok (.continuation
      { toolCallMessage := some request, custom := .taskGraph graph })) :
    Begun graph (streamRound env (initialRun input s)) := by
  have hround : round env (initialRun input s) = _ := round_initial rfl (Prod.ext hplan rfl)
  rw [streamRound_of_going rfl, hround]
  refine ⟨⟨rfl, request, by rw [hrequest]; rfl, ?_⟩, fun event hmem => ?_⟩
  · rw [withResults_of_fresh hfresh]
    exact List.getLast?_concat
  · obtain rfl := List.mem_singleton.mp hmem
    exact ⟨rfl, rfl⟩

theorem Begun.traced (h : Begun graph run) (hasked : Asked (fun _ => none) (firstIds graph)) :
    Traced graph Asked Observed run where
  requested event hmem hne := absurd (h.quiet event hmem).1 hne
  joined event hmem joined hjoined := by
    rw [(h.quiet event hmem).2] at hjoined
    cases hjoined
  place := .inl ⟨_, _, h.asked, hasked, fun _ hne => absurd rfl hne⟩

/-- What may not be asked for, is not. -/
theorem Begun.never_requested (h : Begun graph run) (henv : env.Cooperative)
    (hclosed : Closed graph Asked Observed) (hasked : Asked (fun _ => none) (firstIds graph))
    {id : String} (hid : ∀ {results calls}, Asked results calls → id ∉ calls) (n : Nat) :
    ∀ event ∈ ((streamRound env)^[n] run).log, id ∉ event.requested := by
  intro event hmem hrequested
  obtain ⟨results, hevent⟩ := (traced_iterate henv hclosed (h.traced hasked) n).requested event
    hmem (List.ne_nil_of_mem hrequested)
  exact hid hevent hrequested

end Start

/-! ### Startable graphs are executed -/

section Forward

variable {env : Environment σ} {graph : LLMCompilerTaskGraph} {run : PlanRun σ}
variable {results : String → Option Message}

/-- What may be asked for: tasks that are not finished, among them the first ones. -/
structure AskedFor (graph : LLMCompilerTaskGraph) (results : String → Option Message)
    (calls : List String) : Prop where
  some : calls ≠ []
  nodup : calls.Nodup
  waiting : ∀ id ∈ calls, ∃ task ∈ graph.tasks, task.isJoin = false ∧ task.toolCall.id = id ∧
    ¬ Finished (results id)
  first : ∀ task ∈ graph.tasks, task.isJoin = false → task.dependencies = [] →
    Finished (results task.toolCall.id) ∨ task.toolCall.id ∈ calls

/-- What may be observed: the tasks without dependencies are finished. -/
def FirstFinished (graph : LLMCompilerTaskGraph) (results : String → Option Message) : Prop :=
  ∀ task ∈ graph.tasks, task.isJoin = false → task.dependencies = [] →
    Finished (results task.toolCall.id)

/-- No task is held up by another one of its index. -/
theorem Startable.finished_of_index (h : Startable graph) (hfirst : FirstFinished graph results) :
    ∀ task ∈ graph.tasks, task.isJoin = false →
      FinishedIndex graph results task.index → Finished (results task.toolCall.id) := by
  rintro task hmem hjoin ⟨other, hother, hindex, hfinished⟩
  by_cases hnil : task.dependencies = []
  · exact hfirst task hmem hjoin hnil
  · rwa [h.alone task hmem hjoin hnil other hother hindex] at hfinished

theorem Startable.finished (h : Startable graph) (hplanned : Planned graph)
    (hfirst : FirstFinished graph results)
    (hidle : findNextTasks (graph.withResults results) = []) :
    ∀ task ∈ graph.tasks, task.isJoin = false → Finished (results task.toolCall.id) :=
  finished_of_idle hplanned.backward h.named (h.finished_of_index hfirst) hidle

theorem Startable.closed (h : Startable graph) (hplanned : Planned graph) :
    Closed graph (AskedFor graph) (FirstFinished graph) where
  answered := by
    intro results calls messages hasked hperm hfilled task hmem hjoin hnil
    rcases hasked.first task hmem hjoin hnil with hfinished | hcall
    · exact hfinished.stored hfilled
    · exact finished_of_answered hfilled (hperm.mem_iff.mpr hcall)
  next := by
    intro results hfirst hnext
    have halone : ∀ task ∈ graph.tasks, CanStart graph results task →
        ∀ other ∈ graph.tasks, other.index = task.index → other = task := by
      intro task hmem hcan
      refine h.alone task hmem hcan.1 fun hnil => ?_
      exact hcan.2.1 ⟨task, hmem, rfl, hfirst task hmem hcan.1 hnil⟩
    have hcalls := callIds_next halone
    refine ⟨fun hnil => hnext (List.map_eq_nil_iff.mp hnil), ?_, fun id hid => ?_,
      fun task hmem hjoin hnil => .inl (hfirst task hmem hjoin hnil)⟩
    · rw [hcalls]
      exact hplanned.ids.sublist (List.filter_sublist.map _)
    · rw [hcalls] at hid
      obtain ⟨task, hmem, rfl⟩ := List.mem_map.mp hid
      obtain ⟨hmem, hcan⟩ := List.mem_filter.mp hmem
      have hcan := of_decide_eq_true hcan
      exact ⟨task, hmem, hcan.1, rfl, fun hfinished => hcan.2.1 ⟨task, hmem, rfl, hfinished⟩⟩

/-- There is a task to begin with. -/
theorem Startable.askedFor (h : Startable graph) (hplanned : Planned graph) :
    AskedFor graph (fun _ => none) (firstIds graph) := by
  have hnone : ∀ {index}, ¬ FinishedIndex graph (fun _ => none) index := by
    rintro index ⟨_, _, _, _, hmem, _⟩
    cases hmem
  refine ⟨fun hnil => ?_, ?_, fun id hid => ?_, fun task hmem hjoin hnil => .inr ?_⟩
  · -- otherwise no task could ever start
    have hidle : findNextTasks (graph.withResults fun _ => none) = [] := by
      refine List.eq_nil_iff_forall_not_mem.mpr fun index hindex => ?_
      obtain ⟨task, hmem, hcan, -⟩ := mem_findNextTasks.mp hindex
      rcases hdependencies : task.dependencies with - | ⟨d, ds⟩
      · have hid := mem_firstIds.mpr ⟨task, hmem, hcan.1, hdependencies, rfl⟩
        rw [hnil] at hid
        cases hid
      · exact hnone (hcan.2.2 d (by rw [hdependencies]; exact List.mem_cons_self))
    obtain ⟨task, hmem, hjoin⟩ := h.some
    obtain ⟨_, hnone, -⟩ := finished_of_idle hplanned.backward h.named
      (fun _ _ _ hindex => absurd hindex hnone) hidle task hmem hjoin
    cases hnone
  · rw [firstIds_eq]
    exact hplanned.ids.sublist (List.filter_sublist.map _)
  · obtain ⟨task, hmem, hjoin, -, hid⟩ := mem_firstIds.mp hid
    exact ⟨task, hmem, hjoin, hid, nofun⟩
  · exact mem_firstIds.mpr ⟨task, hmem, hjoin, hnil, rfl⟩

/-- Every answer finishes a task. -/
theorem card_unfinished_lt {calls : List String} {messages : List Message}
    (hsome : calls ≠ [])
    (hwaiting : ∀ id ∈ calls, ∃ task ∈ graph.tasks, task.isJoin = false ∧
      task.toolCall.id = id ∧ ¬ Finished (results id))
    (hperm : (messages.map (·.toolCallId)).Perm calls)
    (hfilled : ∀ message ∈ messages, isNotBlankString message.content = true) :
    (unfinished graph (stored results messages)).card < (unfinished graph results).card := by
  obtain ⟨id, hid⟩ := List.exists_mem_of_ne_nil calls hsome
  obtain ⟨task, hmem, hjoin, rfl, hunfinished⟩ := hwaiting id hid
  have hsubset : unfinished graph (stored results messages) ⊆ unfinished graph results := by
    intro other hother
    obtain ⟨hother, hjoin, hstill⟩ := mem_unfinished.mp hother
    exact mem_unfinished.mpr ⟨hother, hjoin, fun hfinished => hstill (hfinished.stored hfilled)⟩
  refine Finset.card_lt_card ((Finset.ssubset_iff_of_subset hsubset).mpr
    ⟨task, mem_unfinished.mpr ⟨hmem, hjoin, hunfinished⟩, fun hstill => ?_⟩)
  exact (mem_unfinished.mp hstill).2.2 (finished_of_answered hfilled (hperm.mem_iff.mpr hid))

theorem Startable.executes (h : Startable graph) (hplanned : Planned graph)
    (henv : env.Cooperative) (hbegun : Begun graph run) : Executes env graph run := by
  have hclosed := h.closed hplanned
  have hasked := h.askedFor hplanned
  have htraced := traced_iterate henv hclosed (hbegun.traced hasked)
  have htasks : 1 < graph.tasks.length := by
    obtain ⟨front, join, hsplit, hjoin, -⟩ := hplanned.join
    obtain ⟨task, hmem, htask⟩ := h.some
    rw [hsplit] at hmem ⊢
    rcases List.mem_append.mp hmem with hmem | hmem
    · have hpos := List.length_pos_of_mem hmem
      rw [List.length_append, List.length_singleton]
      omega
    · obtain rfl := List.mem_singleton.mp hmem
      rw [hjoin] at htask
      cases htask
  refine ⟨fun n e hfailed => ?_, fun task hmem hjoin => ?_,
    fun n event hevent joined hjoined task hmem hjoin => ?_⟩
  · rcases (htraced n).place with ⟨_, _, hat, -⟩ | ⟨_, hat, -⟩ | hended |
      ⟨-, results, calls, hasked, hbad⟩
    · rw [hat.going] at hfailed
      cases hfailed
    · rw [hat.going] at hfailed
      cases hfailed
    · rw [hended] at hfailed
      cases hfailed
    · rcases hbad with hnil | hnodup | hsingle
      · exact hasked.some hnil
      · exact hnodup hasked.nodup
      · exact hsingle htasks
  · -- when no task can start any more, all results are known
    obtain ⟨n, results, -, hfirst, hknown, hidle⟩ := reaches_idle henv hclosed htasks
      (fun hasked => ⟨hasked.some, hasked.nodup⟩)
      (fun hasked => card_unfinished_lt hasked.some hasked.waiting) hbegun.asked hasked
      fun _ hne => absurd rfl hne
    obtain ⟨message, hresult, -⟩ := h.finished hplanned hfirst hidle task hmem hjoin
    exact ⟨n, hknown _ (Option.ne_none_iff_exists'.mpr ⟨message, hresult⟩)⟩
  · obtain ⟨results, hfirst, hidle, htasks⟩ := (htraced n).joined event hevent joined hjoined
    obtain ⟨message, hresult, -⟩ := h.finished hplanned hfirst hidle task hmem hjoin
    refine ⟨{ task with result := results task.toolCall.id }, ?_, rfl, ?_⟩
    · rw [htasks]
      exact List.mem_map_of_mem hmem
    · exact Option.isSome_iff_exists.mpr ⟨message, hresult⟩

end Forward

/-! ### Only startable graphs are -/

section Backward

variable {env : Environment σ} {graph : LLMCompilerTaskGraph} {run : PlanRun σ}
variable {results : String → Option Message}

/-- Which tasks a later request asks for. -/
theorem mem_callIds_next (hplanned : Planned graph) {task : LLMCompilerTask}
    (hmem : task ∈ graph.tasks)
    (h : task.toolCall.id ∈ callIds graph (findNextTasks (graph.withResults results))) :
    taskOf graph task.index = task ∧
      ∃ other ∈ graph.tasks, CanStart graph results other ∧ other.index = task.index := by
  obtain ⟨index, hindex, hid⟩ := List.mem_map.mp h
  obtain ⟨other, hother, hcan, hsame⟩ := mem_findNextTasks.mp hindex
  obtain ⟨htask, hindex⟩ := taskOf_spec ⟨other, hother, hsame⟩
  have htaskOf := hplanned.eq_of_id htask hmem hid
  rw [htaskOf] at hindex
  exact ⟨by rw [hindex]; exact htaskOf, other, hother, hcan, hsame.trans hindex.symm⟩

section

variable (hplanned : Planned graph) (henv : env.Cooperative) (hbegun : Begun graph run)
variable (h : Executes env graph run)
include hplanned henv hbegun h

/-- A task with dependencies is the one that its index stands for. -/
theorem taskOf_of_executes {task : LLMCompilerTask} (hmem : task ∈ graph.tasks)
    (hjoin : task.isJoin = false) (hne : task.dependencies ≠ []) :
    taskOf graph task.index = task := by
  by_contra hother
  have hclosed : Closed graph (fun _ calls => task.toolCall.id ∉ calls) fun _ => True := by
    refine ⟨fun _ _ _ => trivial, fun _ _ hid => ?_⟩
    exact hother (mem_callIds_next hplanned hmem hid).1
  obtain ⟨n, event, hevent, hrequested⟩ := h.requested task hmem hjoin
  exact hbegun.never_requested henv hclosed (hplanned.not_mem_firstIds hmem (.inr hne)) id n
    event hevent hrequested

theorem alone_of_executes {task : LLMCompilerTask} (hmem : task ∈ graph.tasks)
    (hjoin : task.isJoin = false) (hne : task.dependencies ≠ []) :
    ∀ other ∈ graph.tasks, other.index = task.index → other = task := by
  intro other hother hindex
  have htask := taskOf_of_executes hplanned henv hbegun h hmem hjoin hne
  by_cases hotherJoin : other.isJoin = true
  · -- a `join` stands at the end
    obtain ⟨front, join, hsplit, -, hfront⟩ := hplanned.join
    have hlast : other = join := by
      rw [hsplit] at hother
      rcases List.mem_append.mp hother with hother | hother
      · rw [hfront other hother] at hotherJoin
        cases hotherJoin
      · exact List.mem_singleton.mp hother
    have hjoined : taskOf graph other.index = other := 
      taskOf_of_last (hlast ▸ hsplit) fun _ hmem => absurd hmem List.not_mem_nil
    rw [← hjoined, hindex, htask]
  have hotherJoin : other.isJoin = false := by simpa using hotherJoin
  by_cases hnil : other.dependencies = []
  · -- the first answer to the other one finishes the index before the task can start
    by_contra hdifferent
    have hclosed : Closed graph
        (fun results calls => task.toolCall.id ∉ calls ∧
          (Finished (results other.toolCall.id) ∨ other.toolCall.id ∈ calls))
        fun results => Finished (results other.toolCall.id) := by
      refine ⟨fun hasked hperm hfilled => ?_, fun hfinished _ => ⟨fun hid => ?_, .inl hfinished⟩⟩
      · rcases hasked.2 with hfinished | hcall
        · exact hfinished.stored hfilled
        · exact finished_of_answered hfilled (hperm.mem_iff.mpr hcall)
      · obtain ⟨-, third, -, hcan, hsame⟩ := mem_callIds_next hplanned hmem hid
        exact hcan.2.1 ⟨other, hother, hindex.trans hsame.symm, hfinished⟩
    obtain ⟨n, event, hevent, hrequested⟩ := h.requested task hmem hjoin
    exact hbegun.never_requested henv hclosed
      ⟨hplanned.not_mem_firstIds hmem (.inr hne),
        .inr (mem_firstIds.mpr ⟨other, hother, hotherJoin, hnil, rfl⟩)⟩
      And.left n event hevent hrequested
  · have hotherTask := taskOf_of_executes hplanned henv hbegun h hother hotherJoin hnil
    rw [← hotherTask, hindex, htask]

theorem named_of_executes {task : LLMCompilerTask} (hmem : task ∈ graph.tasks)
    (hjoin : task.isJoin = false) {d : Int} (hd : d ∈ task.dependencies) :
    ∃ other ∈ graph.tasks, other.isJoin = false ∧ other.index = d := by
  by_contra hnone
  have hne : task.dependencies ≠ [] := List.ne_nil_of_mem hd
  have halone := alone_of_executes hplanned henv hbegun h hmem hjoin hne
  -- no call that could finish the dependency is ever made
  have hjoins : ∀ other ∈ graph.tasks, other.index = d → other.isJoin = true := by
    intro other hother hindex
    by_contra hotherJoin
    exact hnone ⟨other, hother, by simpa using hotherJoin, hindex⟩
  have hclosed : Closed graph
      (fun results calls => task.toolCall.id ∉ calls ∧ ¬ FinishedIndex graph results d ∧
        ∀ other ∈ graph.tasks, other.index = d → other.toolCall.id ∉ calls)
      fun results => ¬ FinishedIndex graph results d := by
    refine ⟨fun hasked hperm hfilled => ?_, fun hunfinished _ => ⟨fun hid => ?_, hunfinished,
      fun other hother hindex hid => ?_⟩⟩
    · rintro ⟨other, hother, hindex, hfinished⟩
      refine hasked.2.1 ⟨other, hother, hindex, ?_⟩
      rwa [stored_of_not_mem fun hid =>
        hasked.2.2 other hother hindex (hperm.mem_iff.mp hid)] at hfinished
    · obtain ⟨-, other, hother, hcan, hsame⟩ := mem_callIds_next hplanned hmem hid
      rw [halone other hother hsame] at hcan
      exact hunfinished (hcan.2.2 d hd)
    · obtain ⟨-, third, hthird, hcan, hsame⟩ := mem_callIds_next hplanned hother hid
      exact hnone ⟨third, hthird, hcan.1, hsame.trans hindex⟩
  obtain ⟨n, event, hevent, hrequested⟩ := h.requested task hmem hjoin
  refine hbegun.never_requested henv hclosed ⟨hplanned.not_mem_firstIds hmem (.inr hne), ?_,
    fun other hother hindex => hplanned.not_mem_firstIds hother (.inl (hjoins other hother hindex))⟩
    And.left n event hevent hrequested
  rintro ⟨_, _, _, _, hmem, _⟩
  cases hmem

theorem startable_of_executes : Startable graph where
  some := by
    by_contra hnone
    have hnil : firstIds graph = [] := by
      refine List.eq_nil_iff_forall_not_mem.mpr fun id hid => ?_
      obtain ⟨task, hmem, hjoin, -⟩ := mem_firstIds.mp hid
      exact hnone ⟨task, hmem, hjoin⟩
    obtain ⟨e, hround⟩ : ∃ e, streamRound env run = { run with progress := .failed e } :=
      fails_of_asked hbegun.asked (.inl hnil)
    refine h.unfailed 1 e ?_
    rw [Function.iterate_one, hround]
  named task hmem hjoin _ hd := named_of_executes hplanned henv hbegun h hmem hjoin hd
  alone task hmem hjoin hne := alone_of_executes hplanned henv hbegun h hmem hjoin hne

end

end Backward

/-- A run executes a plan when it does so behind its first round. -/
theorem executes_iff_of_quiet {env : Environment σ} {graph : LLMCompilerTaskGraph}
    {run : PlanRun σ} (hgoing : run.progress = .going) (hlog : run.log = []) :
    Executes env graph run ↔ Executes env graph (streamRound env run) := by
  constructor
  · intro h
    refine ⟨fun n e => h.unfailed (n + 1) e, fun task hmem hjoin => ?_, fun n => h.joined (n + 1)⟩
    obtain ⟨n, event, hevent, hrequested⟩ := h.requested task hmem hjoin
    cases n with
    | zero =>
        rw [Function.iterate_zero_apply, hlog] at hevent
        cases hevent
    | succ n => exact ⟨n, event, hevent, hrequested⟩
  · intro h
    refine ⟨fun n e => ?_, fun task hmem hjoin => ?_, fun n event hevent => ?_⟩
    · cases n with
      | zero =>
          rw [Function.iterate_zero_apply, hgoing]
          nofun
      | succ n => exact h.unfailed n e
    · obtain ⟨n, hn⟩ := h.requested task hmem hjoin
      exact ⟨n + 1, hn⟩
    · cases n with
      | zero =>
          rw [Function.iterate_zero_apply, hlog] at hevent
          cases hevent
      | succ n => exact h.joined n event hevent

/-- **Which plans are executed.**  For every text that the parser turns into a continuation,
every worker that answers each call once and every joiner with a final answer, the run from
the initial state never fails, asks for every task and joins only when all have results, if
and only if the graph has a task besides its `join`, every dependency is such a task, and no
task with dependencies shares its index. -/
theorem executes_iff_startable {ids : Nat → String} (hids : Function.Injective ids)
    {content : String} {request : Message} {graph : LLMCompilerTaskGraph}
    (hparse : parseResult ids content = .ok (.continuation
      { toolCallMessage := some request, custom := .taskGraph graph }))
    {env : Environment σ} (henv : env.Cooperative) {input : PromptValue} {s : σ}
    (hplan : (env.answer (.plan { input := input }) s).1 = .ok (.continuation
      { toolCallMessage := some request, custom := .taskGraph graph })) :
    Executes env graph (initialRun input s) ↔ Startable graph := by
  obtain ⟨hplanned, hrequest⟩ := planned_of_parseResult hids hparse
  have hbegun : Begun graph (streamRound env (initialRun input s)) :=
    begun_streamRound hplanned.fresh hrequest hplan
  rw [executes_iff_of_quiet rfl rfl]
  exact ⟨startable_of_executes hplanned henv hbegun,
    fun h => h.executes hplanned henv hbegun⟩

end Runs

/-! ### A plan with a task, and one without -/

/-- A planner with one thought, a worker that has an answer to every call, and a joiner that
has the final answer. -/
def obliging (thought : AgentThought) : Environment Unit where
  answer
    | .plan _ => pure thought
    | .work (.continuation { toolCallMessage := some request, .. }) =>
        pure ({ toolMessages := request.toolCalls.map fun call =>
          { content := "done", role := "tool", toolCallId := call.id } } : AgentObservation)
    | .work _ => pure ({} : AgentObservation)
    | .join _ => pure ({ answer := "done" } : LLMCompilerJoinerResult)
  submit _ s := ([], s)

theorem cooperative_obliging (thought : AgentThought) : (obliging thought).Cooperative where
  worker request custom s := by
    refine ⟨_, s, rfl, ?_, fun message hmem => ?_⟩
    · show ((request.toolCalls.map _).map _).Perm _
      rw [List.map_map]
      exact List.Perm.refl _
    · obtain ⟨call, -, rfl⟩ := List.mem_map.mp hmem
      show isNotBlankString "done" = true
      decide
  joiner graph s := ⟨_, s, rfl, rfl⟩

theorem strokeId_injective : Function.Injective strokeId := by
  intro m n h
  have hlength := congrArg List.length (String.ofList_inj.mp h)
  simpa using hlength

/-- `1. search(cats)`, and the `join` that is filled in. -/
def catGraph : LLMCompilerTaskGraph where
  tasks := [
    { index := 1, toolCall := functionCall "" "search" "cats" },
    { index := 2, toolCall := functionCall "|" "join" "", dependencies := [1] }]

def catRequest : Message where
  toolCalls := firstCalls catGraph.tasks

/-- A plan of one task is executed. -/
theorem executes_catGraph : Executes (obliging (.continuation
      { toolCallMessage := some catRequest, custom := .taskGraph catGraph })) catGraph
    (initialRun (.string "cats?") ()) := by
  have hparse : parseResult strokeId "1. search(cats)" = .ok (.continuation
    { toolCallMessage := some catRequest, custom := .taskGraph catGraph }) := rfl
  exact (executes_iff_startable strokeId_injective hparse (cooperative_obliging _) rfl).mpr
    { some := by decide, named := by decide, alone := by decide }

/-- `1. join()` -/
def joinGraph : LLMCompilerTaskGraph where
  tasks := [{ index := 1, toolCall := functionCall "" "join" "" }]

def joinContinuation : AgentContinuation where
  toolCallMessage := some {}
  custom := .taskGraph joinGraph

/-- The run of a plan that is only a `join` ends in an illegal state. -/
theorem joinGraph_fails :
    parseResult strokeId "1. join()" = .ok (.continuation joinContinuation) ∧
      (obliging (.continuation joinContinuation)).Cooperative ∧
      ((streamRound (obliging (.continuation joinContinuation)))^[2]
        (initialRun (.string "cats?") ())).progress
          = .failed (illegalState "LLMCompilerAgentExectuor") ∧
      ¬ Executes (obliging (.continuation joinContinuation)) joinGraph
        (initialRun (.string "cats?") ()) := by
  have hfails : ((streamRound (obliging (.continuation joinContinuation)))^[2]
      (initialRun (.string "cats?") ())).progress
        = .failed (illegalState "LLMCompilerAgentExectuor") := rfl
  exact ⟨rfl, cooperative_obliging _, hfails, fun h => h.unfailed 2 _ hfails⟩

end Instinct
