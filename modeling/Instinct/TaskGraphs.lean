/-
Instinct/TaskGraphs.lean

What `TaskGraphUtils` does on a task graph, as one spec lemma an operation.

* The tasks that can start are those that are not finished and whose
  dependencies are (`mem_findNextTasks`).  A task is finished when its result is
  not blank.

* `BuildToolCallRequest` never throws on them: the ids are indices of the graph,
  and each placeholder is still there when its turn comes
  (`substituteResults_ok`, `buildToolCallRequest_ok`).

* Storing messages changes the results of the tasks whose calls they answer and
  nothing else (`setResults_withResults`, `stored_of_mem`, `stored_of_not_mem`).
-/
import Instinct.PlanParser
import Mathlib.Data.Finset.Max
import Mathlib.Data.List.Nodup

namespace Instinct

open Placeholders

/-! ### Substitution -/

/-- What stands behind the first place at which a pattern can stand is left as it is. -/
theorem replaceFirst_append {pattern : List Char} (hpattern : pattern ≠ [])
    (replacement front back : List Char) :
    ∃ front', replaceFirst pattern replacement (front ++ pattern ++ back)
      = some (front' ++ back) := by
  induction front with
  | nil =>
      obtain ⟨c, cs, rfl⟩ := List.exists_cons_of_ne_nil hpattern
      refine ⟨replacement, ?_⟩
      have hstart : (c :: cs).isPrefixOf (c :: (cs ++ back)) = true :=
        List.isPrefixOf_iff_prefix.mpr (List.prefix_append (c :: cs) back)
      rw [List.nil_append, List.cons_append, replaceFirst, if_pos hstart, ← List.cons_append,
        List.drop_left]
  | cons c front ih =>
      rw [List.cons_append, List.cons_append, replaceFirst]
      split
      · -- an earlier place: it ends before the pattern does
        refine ⟨replacement ++ (c :: (front ++ pattern)).drop pattern.length, ?_⟩
        rw [← List.cons_append, List.drop_append_of_le_length (by simp; omega), List.append_assoc]
      · obtain ⟨front', hfront⟩ := ih
        exact ⟨c :: front', by rw [hfront]; rfl⟩

variable {graph : LLMCompilerTaskGraph}

/-- Every placeholder is there when its turn comes: what was put in before lies in front. -/
theorem substituteResult_ok (cs front : List Char) :
    ∃ args, (dependencyMatches 0 cs).foldlM (substituteResult graph) (front ++ cs) = .ok args := by
  rw [dependencyMatches_eq]
  show ∃ args, (placeholders (tokens dependencyAt? cs)).foldlM _ _ = _
  induction cs using scan_induction marks_dependencyAt? generalizing front with
  | nil => exact ⟨_, rfl⟩
  | letter c cs hnone ih =>
      rw [tokens_letter hnone, List.append_cons]
      exact ih (front ++ [c])
  | placeholder text index rest hfound ih =>
      rw [tokens_placeholder marks_dependencyAt? hfound, ← List.append_assoc]
      obtain ⟨front', hfront⟩ := replaceFirst_append (marks_dependencyAt?.ne_nil hfound)
        (((taskOf graph index).result.getD {}).content.toList) front rest
      have hstep : substituteResult graph (front ++ text ++ rest) (text, index)
          = .ok (front' ++ rest) := by
        rw [substituteResult, hfront]
      obtain ⟨args, hargs⟩ := ih front'
      exact ⟨args, checks_eq_ok.mpr ⟨_, hstep, hargs⟩⟩

theorem substituteResults_ok (arguments : String) :
    ∃ args, substituteResults graph arguments = .ok args := by
  obtain ⟨args, hargs⟩ := @substituteResult_ok graph arguments.toList []
  exact ⟨_, checks_eq_ok.mpr ⟨args, hargs, rfl⟩⟩

/-! ### Tasks and their results -/

/-- The graph with the results that are known by the ids of the calls. -/
def LLMCompilerTaskGraph.withResults (graph : LLMCompilerTaskGraph)
    (results : String → Option Message) : LLMCompilerTaskGraph :=
  { graph with
    tasks := graph.tasks.map fun task => { task with result := results task.toolCall.id } }

/-- A result counts when it is not blank. -/
def Finished (result : Option Message) : Prop :=
  ∃ message ∈ result, isNotBlankString message.content = true

instance : DecidablePred Finished := fun result =>
  inferInstanceAs (Decidable (∃ message ∈ result, isNotBlankString message.content = true))

namespace LLMCompilerTaskGraph

/-- Some task of the index has a result that counts. -/
def FinishedAt (graph : LLMCompilerTaskGraph) (index : Int) : Prop :=
  ∃ task ∈ graph.tasks, task.index = index ∧ Finished task.result

/-- The task can start, by the results in the graph. -/
def Ready (graph : LLMCompilerTaskGraph) (task : LLMCompilerTask) : Prop :=
  task.isJoin = false ∧ ¬ graph.FinishedAt task.index ∧
    ∀ d ∈ task.dependencies, graph.FinishedAt d

instance (graph : LLMCompilerTaskGraph) (index : Int) : Decidable (graph.FinishedAt index) :=
  inferInstanceAs (Decidable (∃ task ∈ graph.tasks, _))

instance (graph : LLMCompilerTaskGraph) (task : LLMCompilerTask) :
    Decidable (graph.Ready task) :=
  inferInstanceAs (Decidable (_ ∧ _ ∧ _))

end LLMCompilerTaskGraph

theorem mem_finished_iff {index : Int} :
    ((graph.tasks.filter fun task =>
      task.result.any fun result => isNotBlankString result.content).map (·.index)).contains index
        = true ↔ graph.FinishedAt index := by
  simp only [List.contains_iff_mem, List.mem_map, List.mem_filter, Option.any_eq_true]
  constructor
  · rintro ⟨task, ⟨hmem, hfinished⟩, hindex⟩
    exact ⟨task, hmem, hindex, hfinished⟩
  · rintro ⟨task, hmem, hindex, hfinished⟩
    exact ⟨task, ⟨hmem, hfinished⟩, hindex⟩

/-- `FindNextTasks` gives the indices of the tasks that can start, in the order of the graph. -/
theorem findNextTasks_eq (graph : LLMCompilerTaskGraph) : findNextTasks graph
    = (graph.tasks.filter fun task => graph.Ready task).map (·.index) := by
  have hready : ∀ task : LLMCompilerTask,
      (task.toolCall.functionOrDefault.name ≠ "join" &&
        !((graph.tasks.filter fun task =>
          task.result.any fun result => isNotBlankString result.content).map
            (·.index)).contains task.index &&
        task.dependencies.all fun dependency =>
          ((graph.tasks.filter fun task =>
            task.result.any fun result => isNotBlankString result.content).map
              (·.index)).contains dependency) = decide (graph.Ready task) := by
    intro task
    rw [Bool.eq_iff_iff, decide_eq_true_iff]
    simp only [Bool.and_eq_true, Bool.not_eq_true', List.all_eq_true, mem_finished_iff,
      ← Bool.not_eq_true, LLMCompilerTaskGraph.Ready, LLMCompilerTask.isJoin, decide_eq_true_iff,
      and_assoc, ne_eq]
  unfold findNextTasks
  simp only [hready]

theorem mem_findNextTasks_iff {index : Int} : index ∈ findNextTasks graph ↔
    ∃ task ∈ graph.tasks, graph.Ready task ∧ task.index = index := by
  rw [findNextTasks_eq, List.mem_map]
  simp only [List.mem_filter, decide_eq_true_eq, and_assoc]

/-- **Progress.**  Where the dependencies are smaller indices of tasks, and no task is held up
by another one of its index, some task can start until all are finished. -/
theorem finished_of_no_next (graph : LLMCompilerTaskGraph)
    (hbackward : ∀ task ∈ graph.tasks, task.isJoin = false →
      ∀ d ∈ task.dependencies, d < task.index)
    (hnamed : ∀ task ∈ graph.tasks, task.isJoin = false → ∀ d ∈ task.dependencies,
      ∃ other ∈ graph.tasks, other.isJoin = false ∧ other.index = d)
    (halone : ∀ task ∈ graph.tasks, task.isJoin = false →
      graph.FinishedAt task.index → Finished task.result)
    (hidle : findNextTasks graph = []) :
    ∀ task ∈ graph.tasks, task.isJoin = false → Finished task.result := by
  by_contra hnot
  have hsome : (graph.tasks.toFinset.filter fun task =>
      task.isJoin = false ∧ ¬ Finished task.result).Nonempty := by
    push Not at hnot
    obtain ⟨task, hmem, hjoin, hunfinished⟩ := hnot
    exact ⟨task, Finset.mem_filter.mpr ⟨List.mem_toFinset.mpr hmem, hjoin, hunfinished⟩⟩
  -- the first unfinished task can start
  obtain ⟨task, hmem, hfirst⟩ := Finset.exists_min_image _ LLMCompilerTask.index hsome
  obtain ⟨hmem, hjoin, hunfinished⟩ := Finset.mem_filter.mp hmem
  rw [List.mem_toFinset] at hmem
  have hready : graph.Ready task := by
    refine ⟨hjoin, fun hindex => hunfinished (halone task hmem hjoin hindex), fun d hd => ?_⟩
    obtain ⟨other, hother, hotherJoin, hindex⟩ := hnamed task hmem hjoin d hd
    refine ⟨other, hother, hindex, ?_⟩
    by_contra hunfinished
    have hle := hfirst other
      (Finset.mem_filter.mpr ⟨List.mem_toFinset.mpr hother, hotherJoin, hunfinished⟩)
    have hlt := hbackward task hmem hjoin d hd
    omega
  have hnext := mem_findNextTasks_iff.mpr ⟨task, hmem, hready, rfl⟩
  rw [hidle] at hnext
  cases hnext

section Results

variable {results : String → Option Message}

variable (graph results) in
/-- Some task of the index is finished. -/
def FinishedIndex (index : Int) : Prop :=
  ∃ task ∈ graph.tasks, task.index = index ∧ Finished (results task.toolCall.id)

instance (index : Int) : Decidable (FinishedIndex graph results index) :=
  inferInstanceAs (Decidable (∃ task ∈ graph.tasks, _))

variable (graph results) in
/-- The task can start: its index is not finished, and its dependencies are. -/
def CanStart (task : LLMCompilerTask) : Prop :=
  task.isJoin = false ∧ ¬ FinishedIndex graph results task.index ∧
    ∀ d ∈ task.dependencies, FinishedIndex graph results d

instance (task : LLMCompilerTask) : Decidable (CanStart graph results task) :=
  inferInstanceAs (Decidable (_ ∧ _ ∧ _))

/-- A graph without results is one where none is known. -/
theorem withResults_of_fresh (h : ∀ task ∈ graph.tasks, task.result = none) :
    graph.withResults (fun _ => none) = graph := by
  have htasks : (graph.tasks.map fun task => { task with result := none }) = graph.tasks := by
    refine (List.map_congr_left fun task hmem => ?_).trans (List.map_id _)
    show { task with result := none } = task
    rw [← h task hmem]
  rw [LLMCompilerTaskGraph.withResults, htasks]

theorem finishedAt_withResults {index : Int} :
    (graph.withResults results).FinishedAt index ↔ FinishedIndex graph results index := by
  constructor
  · rintro ⟨_, hin, hindex, hfinished⟩
    obtain ⟨task, hmem, rfl⟩ := List.mem_map.mp hin
    exact ⟨task, hmem, hindex, hfinished⟩
  · rintro ⟨task, hmem, hindex, hfinished⟩
    exact ⟨_, List.mem_map.mpr ⟨task, hmem, rfl⟩, hindex, hfinished⟩

theorem findNextTasks_withResults (graph : LLMCompilerTaskGraph)
    (results : String → Option Message) : findNextTasks (graph.withResults results)
      = (graph.tasks.filter fun task => CanStart graph results task).map (·.index) := by
  have hready : ∀ task : LLMCompilerTask,
      (graph.withResults results).Ready { task with result := results task.toolCall.id }
        ↔ CanStart graph results task := by
    intro task
    simp only [LLMCompilerTaskGraph.Ready, CanStart, finishedAt_withResults]
    rfl
  rw [findNextTasks_eq, LLMCompilerTaskGraph.withResults, List.filter_map, List.map_map,
    ← LLMCompilerTaskGraph.withResults]
  refine congrArg (List.map _) (List.filter_congr fun task _ => ?_)
  exact decide_eq_decide.mpr (hready task)

theorem mem_findNextTasks {index : Int} : index ∈ findNextTasks (graph.withResults results) ↔
    ∃ task ∈ graph.tasks, CanStart graph results task ∧ task.index = index := by
  rw [findNextTasks_withResults, List.mem_map]
  simp only [List.mem_filter, decide_eq_true_eq, and_assoc]

/-! ### The task of an index -/

theorem taskOf_spec {index : Int} (h : ∃ task ∈ graph.tasks, task.index = index) :
    taskOf graph index ∈ graph.tasks ∧ (taskOf graph index).index = index := by
  unfold taskOf
  rcases hfind : graph.tasks.reverse.find? fun task => task.index = index with - | task
  · obtain ⟨task, hmem, hindex⟩ := h
    rw [List.find?_eq_none] at hfind
    exact absurd (decide_eq_true hindex) (hfind task (List.mem_reverse.mpr hmem))
  · rw [hfind, Option.getD_some]
    exact ⟨List.mem_reverse.mp (List.mem_of_find?_eq_some hfind),
      by simpa using List.find?_some hfind⟩

/-- Where there are tasks, every index is given one of them. -/
theorem taskOf_mem (hne : graph.tasks ≠ []) (index : Int) :
    taskOf graph index ∈ graph.tasks := by
  unfold taskOf
  rcases hfind : graph.tasks.reverse.find? fun task => task.index = index with - | task
  · obtain ⟨task, tasks, htasks⟩ := List.exists_cons_of_ne_nil hne
    rw [hfind, htasks]
    exact List.mem_cons_self
  · rw [hfind, Option.getD_some]
    exact List.mem_reverse.mp (List.mem_of_find?_eq_some hfind)

/-- The only task of its index. -/
theorem taskOf_of_unique {task : LLMCompilerTask} (hmem : task ∈ graph.tasks)
    (h : ∀ other ∈ graph.tasks, other.index = task.index → other = task) :
    taskOf graph task.index = task := by
  obtain ⟨hother, hindex⟩ := taskOf_spec ⟨task, hmem, rfl⟩
  exact h _ hother hindex

/-- Behind the task of an index no other task has it. -/
theorem taskOf_of_last {front back : List LLMCompilerTask} {task : LLMCompilerTask}
    (h : graph.tasks = front ++ task :: back)
    (hback : ∀ other ∈ back, other.index ≠ task.index) : taskOf graph task.index = task := by
  have hnone : back.reverse.find? (fun other => other.index = task.index) = none := by
    rw [List.find?_eq_none]
    intro other hmem
    simpa using hback other (List.mem_reverse.mp hmem)
  unfold taskOf
  rw [h, List.reverse_append, List.reverse_cons, List.append_assoc, List.find?_append, hnone]
  simp

theorem taskOf_withResults {index : Int} (h : ∃ task ∈ graph.tasks, task.index = index) :
    taskOf (graph.withResults results) index
      = { taskOf graph index with result := results (taskOf graph index).toolCall.id } := by
  unfold taskOf
  rw [LLMCompilerTaskGraph.withResults, ← List.map_reverse, List.find?_map]
  rcases hfind : graph.tasks.reverse.find? fun task => task.index = index with - | task
  · obtain ⟨task, hmem, hindex⟩ := h
    rw [List.find?_eq_none] at hfind
    exact absurd (decide_eq_true hindex) (hfind task (List.mem_reverse.mpr hmem))
  · have hsame : graph.tasks.reverse.find?
        ((fun task : LLMCompilerTask => decide (task.index = index)) ∘
          fun task => { task with result := results task.toolCall.id }) = some task := hfind
    rw [hsame, hfind]
    rfl

/-! ### Requests -/

/-- The ids of the calls that are made when the tasks of some indices are asked for. -/
def callIds (graph : LLMCompilerTaskGraph) (indices : List Int) : List String :=
  indices.map fun index => (taskOf graph index).toolCall.id

/-- The call of a task, with other arguments. -/
def LLMCompilerTask.callWith (task : LLMCompilerTask) (args : String) : ToolCallObject :=
  { task.toolCall with
    function := some { task.toolCall.functionOrDefault with arguments := args } }

/-- Tasks of the graph can be asked for: the calls are theirs, with the arguments that
`substituteResults` gives. -/
theorem buildToolCallRequest_calls {indices : List Int} {request : Message}
    (h : ∀ index ∈ indices, ∃ task ∈ graph.tasks, task.index = index) :
    ∃ request' calls, buildToolCallRequest graph indices request = .ok request' ∧
      request'.toolCalls = request.toolCalls ++ calls ∧
      List.Forall₂ (fun index call => ∃ args,
        substituteResults graph (taskOf graph index).toolCall.functionOrDefault.arguments
          = .ok args ∧ call = (taskOf graph index).callWith args) indices calls := by
  induction indices generalizing request with
  | nil => exact ⟨request, [], rfl, (List.append_nil _).symm, .nil⟩
  | cons index indices ih =>
      obtain ⟨task, hmem, hindex⟩ := h index List.mem_cons_self
      obtain ⟨args, hargs⟩ := @substituteResults_ok graph
        (taskOf graph index).toolCall.functionOrDefault.arguments
      obtain ⟨request', calls, hrequest, hcalls, hall⟩ := @ih { request with
          role := "assistant"
          toolCalls := request.toolCalls ++ [(taskOf graph index).callWith args] }
        fun index hindex => h index (List.mem_cons_of_mem _ hindex)
      refine ⟨request', (taskOf graph index).callWith args :: calls, ?_, ?_,
        .cons ⟨args, hargs, rfl⟩ hall⟩
      · refine checks_eq_ok.mpr ⟨_, ?_, hrequest⟩
        refine checks_eq_ok.mpr ⟨(), assertTrue_of ?_, checks_eq_ok.mpr ⟨args, hargs, rfl⟩⟩
        exact List.any_eq_true.mpr ⟨task, hmem, decide_eq_true hindex⟩
      · rw [hcalls, List.append_assoc]
        rfl

/-- Tasks of the graph can be asked for, and the calls are theirs. -/
theorem buildToolCallRequest_ok {indices : List Int} {request : Message}
    (h : ∀ index ∈ indices, ∃ task ∈ graph.tasks, task.index = index) :
    ∃ request', buildToolCallRequest graph indices request = .ok request' ∧
      request'.toolCalls.map (·.id) = request.toolCalls.map (·.id) ++ callIds graph indices := by
  obtain ⟨request', calls, hrequest, hcalls, hall⟩ := @buildToolCallRequest_calls graph _ request h
  refine ⟨request', hrequest, ?_⟩
  rw [hcalls, List.map_append]
  congr 1
  clear hrequest hcalls h
  induction hall with
  | nil => rfl
  | cons hcall _ ih =>
      obtain ⟨args, -, rfl⟩ := hcall
      rw [List.map_cons, ih]
      rfl

/-- Where the tasks that can start have their indices for themselves, their calls are made. -/
theorem callIds_next (h : ∀ task ∈ graph.tasks, CanStart graph results task →
      ∀ other ∈ graph.tasks, other.index = task.index → other = task) :
    callIds graph (findNextTasks (graph.withResults results))
      = (graph.tasks.filter fun task => CanStart graph results task).map (·.toolCall.id) := by
  rw [findNextTasks_withResults, callIds, List.map_map]
  refine List.map_congr_left fun task hmem => ?_
  obtain ⟨hmem, hcan⟩ := List.mem_filter.mp hmem
  show (taskOf graph task.index).toolCall.id = task.toolCall.id
  rw [taskOf_of_unique hmem (h task hmem (of_decide_eq_true hcan))]

/-- The next tasks can always be asked for. -/
theorem buildToolCallRequest_next (graph : LLMCompilerTaskGraph)
    (results : String → Option Message) : ∃ request,
    buildToolCallRequest (graph.withResults results) (findNextTasks (graph.withResults results)) {}
        = .ok request ∧
      request.toolCalls.map (·.id)
        = callIds graph (findNextTasks (graph.withResults results)) := by
  have hindices : ∀ index ∈ findNextTasks (graph.withResults results),
      ∃ task ∈ graph.tasks, task.index = index := by
    intro index hindex
    obtain ⟨task, hmem, -, heq⟩ := mem_findNextTasks.mp hindex
    exact ⟨task, hmem, heq⟩
  obtain ⟨request, hrequest, hids⟩ := @buildToolCallRequest_ok (graph.withResults results)
    (findNextTasks (graph.withResults results)) {} fun index hindex => by
      obtain ⟨task, hmem, heq⟩ := hindices index hindex
      exact ⟨_, List.mem_map_of_mem hmem, heq⟩
  refine ⟨request, hrequest, hids.trans ?_⟩
  refine List.map_congr_left fun index hindex => ?_
  rw [taskOf_withResults (hindices index hindex)]

/-! ### Storing results -/

/-- The results once some messages have come in: for each call the last message counts. -/
def stored (results : String → Option Message) (messages : List Message) (id : String) :
    Option Message :=
  (messages.reverse.find? fun message => message.toolCallId = id).or (results id)

theorem foldl_setResult (messages : List Message) (task : LLMCompilerTask) :
    messages.foldl (fun task message =>
      if message.toolCallId = task.toolCall.id then { task with result := some message }
      else task) task
    = { task with
        result := (messages.reverse.find? fun message =>
          message.toolCallId = task.toolCall.id).or task.result } := by
  induction messages generalizing task with
  | nil => rfl
  | cons message messages ih =>
      rw [List.foldl_cons, ih, List.reverse_cons, List.find?_append]
      by_cases hid : message.toolCallId = task.toolCall.id
      · rw [if_pos hid]
        simp [hid]
      · rw [if_neg hid]
        simp [hid]

theorem setResults_withResults (messages : List Message) :
    (graph.withResults results).setResults messages
      = graph.withResults (stored results messages) := by
  simp only [LLMCompilerTaskGraph.setResults, LLMCompilerTaskGraph.withResults, foldl_setResult,
    List.map_map]
  rfl

/-- Where every call is answered once, its answer is stored. -/
theorem stored_of_mem {messages : List Message} {message : Message}
    (hnodup : (messages.map (·.toolCallId)).Nodup) (hmem : message ∈ messages) :
    stored results messages message.toolCallId = some message := by
  have hfind : messages.reverse.find? (fun other => other.toolCallId = message.toolCallId)
      = some message := by
    rcases hfound : messages.reverse.find? fun other => other.toolCallId = message.toolCallId
      with - | other
    · rw [List.find?_eq_none] at hfound
      exact absurd (decide_eq_true rfl) (hfound message (List.mem_reverse.mpr hmem))
    · have hid : other.toolCallId = message.toolCallId := by simpa using List.find?_some hfound
      have hother := List.mem_reverse.mp (List.mem_of_find?_eq_some hfound)
      rw [hfound]
      exact congrArg some (List.inj_on_of_nodup_map hnodup hother hmem hid)
  rw [stored, hfind]
  rfl

/-- Other results stay. -/
theorem stored_of_not_mem {messages : List Message} {id : String}
    (h : id ∉ messages.map (·.toolCallId)) : stored results messages id = results id := by
  have hfind : messages.reverse.find? (fun message => message.toolCallId = id) = none := by
    rw [List.find?_eq_none]
    intro message hmem heq
    exact h (List.mem_map.mpr ⟨message, List.mem_reverse.mp hmem, of_decide_eq_true heq⟩)
  rw [stored, hfind]
  rfl

/-- What was finished stays so, if nothing blank comes in. -/
theorem Finished.stored {messages : List Message} {id : String}
    (hfilled : ∀ message ∈ messages, isNotBlankString message.content = true)
    (h : Finished (results id)) : Finished (stored results messages id) := by
  unfold Instinct.stored
  rcases hfind : messages.reverse.find? fun message => message.toolCallId = id with - | message
  · rw [hfind]
    exact h
  · rw [hfind]
    have hmem := List.mem_reverse.mp (List.mem_of_find?_eq_some hfind)
    exact ⟨message, rfl, hfilled message hmem⟩

/-- What is answered, and not by a blank message, is finished. -/
theorem finished_of_answered {messages : List Message} {id : String}
    (hfilled : ∀ message ∈ messages, isNotBlankString message.content = true)
    (h : id ∈ messages.map (·.toolCallId)) : Finished (Instinct.stored results messages id) := by
  unfold Instinct.stored
  rcases hfind : messages.reverse.find? fun message => message.toolCallId = id with - | message
  · obtain ⟨message, hmem, hid⟩ := List.mem_map.mp h
    rw [List.find?_eq_none] at hfind
    exact absurd (decide_eq_true hid) (hfind message (List.mem_reverse.mpr hmem))
  · rw [hfind]
    have hmem := List.mem_reverse.mp (List.mem_of_find?_eq_some hfind)
    exact ⟨message, rfl, hfilled message hmem⟩

/-- One message more makes one pair with each call that it answers. -/
theorem countCompleted_cons (calls : List ToolCallObject) (message : Message)
    (messages : List Message) : countCompleted calls (message :: messages)
      = countCompleted calls messages + (calls.map (·.id)).count message.toolCallId := by
  induction calls with
  | nil => rfl
  | cons call calls ih =>
      simp only [countCompleted, List.countP_cons, decide_eq_true_eq] at ih
      simp only [countCompleted, List.map_cons, List.sum_cons, List.countP_cons, List.count_cons,
        decide_eq_true_eq, beq_iff_eq, @eq_comm _ call.id]
      omega

/-- The pairs of a call and its answer are as many as the messages that answer a call. -/
theorem countCompleted_of_subset {calls : List ToolCallObject} {messages : List Message}
    (hnodup : (calls.map (·.id)).Nodup)
    (hmem : ∀ message ∈ messages, message.toolCallId ∈ calls.map (·.id)) :
    countCompleted calls messages = messages.length := by
  induction messages with
  | nil => simp [countCompleted]
  | cons message messages ih =>
      rw [countCompleted_cons, ih fun other hother => hmem other (List.mem_cons_of_mem _ hother),
        List.count_eq_one_of_mem hnodup (hmem message List.mem_cons_self), List.length_cons]

/-- Every call is answered once: the pairs of a call and its answer are as many as the calls. -/
theorem countCompleted_of_perm {calls : List ToolCallObject} {messages : List Message}
    (hnodup : (calls.map (·.id)).Nodup)
    (hperm : (messages.map (·.toolCallId)).Perm (calls.map (·.id))) :
    countCompleted calls messages = calls.length := by
  have hlength := hperm.length_eq
  rw [List.length_map, List.length_map] at hlength
  rw [countCompleted_of_subset hnodup fun message hmem =>
    hperm.subset (List.mem_map_of_mem hmem), hlength]

/-! ### Idle graphs -/

/-- The tasks that are not finished yet, the `join` aside. -/
def unfinished (graph : LLMCompilerTaskGraph) (results : String → Option Message) :
    Finset LLMCompilerTask :=
  graph.tasks.toFinset.filter fun task =>
    task.isJoin = false ∧ ¬ Finished (results task.toolCall.id)

theorem mem_unfinished {task : LLMCompilerTask} : task ∈ unfinished graph results ↔
    task ∈ graph.tasks ∧ task.isJoin = false ∧ ¬ Finished (results task.toolCall.id) := by
  rw [unfinished, Finset.mem_filter, List.mem_toFinset]

theorem finished_of_idle
    (hbackward : ∀ task ∈ graph.tasks, task.isJoin = false →
      ∀ d ∈ task.dependencies, d < task.index)
    (hnamed : ∀ task ∈ graph.tasks, task.isJoin = false → ∀ d ∈ task.dependencies,
      ∃ other ∈ graph.tasks, other.isJoin = false ∧ other.index = d)
    (halone : ∀ task ∈ graph.tasks, task.isJoin = false →
      FinishedIndex graph results task.index → Finished (results task.toolCall.id))
    (hidle : findNextTasks (graph.withResults results) = []) :
    ∀ task ∈ graph.tasks, task.isJoin = false → Finished (results task.toolCall.id) := by
  intro task hmem hjoin
  refine finished_of_no_next (graph.withResults results) ?_ ?_ ?_ hidle
    { task with result := results task.toolCall.id } (List.mem_map.mpr ⟨task, hmem, rfl⟩) hjoin
  · rintro _ hin hjoin
    obtain ⟨task, hmem, rfl⟩ := List.mem_map.mp hin
    exact hbackward task hmem hjoin
  · rintro _ hin hjoin d hd
    obtain ⟨task, hmem, rfl⟩ := List.mem_map.mp hin
    obtain ⟨other, hother, hotherJoin, hindex⟩ := hnamed task hmem hjoin d hd
    exact ⟨_, List.mem_map.mpr ⟨other, hother, rfl⟩, hotherJoin, hindex⟩
  · rintro _ hin hjoin hfinished
    obtain ⟨task, hmem, rfl⟩ := List.mem_map.mp hin
    exact halone task hmem hjoin (finishedAt_withResults.mp hfinished)

end Results

end Instinct
