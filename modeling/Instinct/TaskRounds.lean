/-
Instinct/TaskRounds.lean

A task graph whose dependencies lead back to tasks before (`Ordered`) does not get
stuck.

`FindNextTasks` gives the tasks that have no result and whose dependencies have one
(`findNextTasks_of_ordered`), and some task as long as one has no result.  A round
gives a result to each of them, so that fewer are left (`pending_answer_lt`) and as
many rounds as there are tasks leave none (`findNextTasks_rounds`).

A result counts when it is not blank, and the `join` task needs none.
-/
import Instinct.TaskGraphs

namespace Instinct

namespace LLMCompilerTaskGraph

/-- The indices are distinct, and each task depends on tasks of smaller indices, on no `join`. -/
structure Ordered (graph : LLMCompilerTaskGraph) : Prop where
  indices : (graph.tasks.map (·.index)).Nodup
  backward : ∀ task ∈ graph.tasks, task.isJoin = false →
    ∀ d ∈ task.dependencies, d < task.index
  named : ∀ task ∈ graph.tasks, task.isJoin = false → ∀ d ∈ task.dependencies,
    ∃ other ∈ graph.tasks, other.isJoin = false ∧ other.index = d

/-- The task has no result, and those that it depends on have one. -/
def Startable (graph : LLMCompilerTaskGraph) (task : LLMCompilerTask) : Prop :=
  task.isJoin = false ∧ ¬ Finished task.result ∧
    ∀ d ∈ task.dependencies, ∃ other ∈ graph.tasks, other.index = d ∧ Finished other.result

instance (graph : LLMCompilerTaskGraph) (task : LLMCompilerTask) :
    Decidable (graph.Startable task) :=
  inferInstanceAs (Decidable (_ ∧ _ ∧ ∀ d ∈ task.dependencies, graph.FinishedAt d))

/-- Every task has a result, the `join` aside. -/
def Done (graph : LLMCompilerTaskGraph) : Prop :=
  ∀ task ∈ graph.tasks, task.isJoin = false → Finished task.result

/-- Give each task of some indices its answer. -/
def answer (graph : LLMCompilerTaskGraph) (indices : List Int) (answers : Int → Message) :
    LLMCompilerTaskGraph :=
  { graph with
    tasks := graph.tasks.map fun task =>
      if task.index ∈ indices then { task with result := some (answers task.index) } else task }

/-- Rounds in which the next tasks are given their answers. -/
def rounds (graph : LLMCompilerTaskGraph) (answers : Nat → Int → Message) :
    Nat → LLMCompilerTaskGraph
  | 0 => graph
  | n + 1 =>
      (graph.rounds answers n).answer (findNextTasks (graph.rounds answers n)) (answers n)

/-- The tasks without a result, the `join` aside. -/
def pending (graph : LLMCompilerTaskGraph) : Nat :=
  graph.tasks.countP fun task => task.isJoin = false ∧ ¬ Finished task.result

end LLMCompilerTaskGraph

open LLMCompilerTaskGraph

variable {graph : LLMCompilerTaskGraph}

/-! ### Ready tasks -/

/-- An index is finished with its only task. -/
theorem finishedAt_index_iff (h : graph.Ordered) {task : LLMCompilerTask}
    (hmem : task ∈ graph.tasks) : graph.FinishedAt task.index ↔ Finished task.result := by
  constructor
  · rintro ⟨other, hother, hindex, hfinished⟩
    rw [← List.inj_on_of_nodup_map h.indices hother hmem hindex]
    exact hfinished
  · exact fun hfinished => ⟨task, hmem, rfl, hfinished⟩

theorem ready_iff_startable (h : graph.Ordered) {task : LLMCompilerTask}
    (hmem : task ∈ graph.tasks) : graph.Ready task ↔ graph.Startable task := by
  rw [Ready, finishedAt_index_iff h hmem]
  rfl

theorem findNextTasks_of_ordered (h : graph.Ordered) : findNextTasks graph
    = (graph.tasks.filter fun task => graph.Startable task).map (·.index) := by
  rw [findNextTasks_eq]
  refine congrArg (List.map _) (List.filter_congr fun task hmem => ?_)
  exact decide_eq_decide.mpr (ready_iff_startable h hmem)

/-- There is a next task until all have a result. -/
theorem findNextTasks_eq_nil_iff (h : graph.Ordered) : findNextTasks graph = [] ↔ graph.Done := by
  constructor
  · exact finished_of_no_next graph h.backward h.named
      fun task hmem _ hfinished => (finishedAt_index_iff h hmem).mp hfinished
  · intro hdone
    rw [List.eq_nil_iff_forall_not_mem]
    intro index hindex
    obtain ⟨task, hmem, hready, -⟩ := mem_findNextTasks_iff.mp hindex
    exact hready.2.1 ((finishedAt_index_iff h hmem).mpr (hdone task hmem hready.1))

/-! ### Rounds -/

section Rounds

variable {indices : List Int} {answers : Int → Message}

@[simp] theorem answer_nil : graph.answer [] answers = graph := by
  simp [answer]

/-- Only results are written. -/
theorem mem_answer_iff {task : LLMCompilerTask} : task ∈ (graph.answer indices answers).tasks ↔
    ∃ before ∈ graph.tasks, task = { before with
      result :=
        if before.index ∈ indices then some (answers before.index) else before.result } := by
  simp only [answer, List.mem_map]
  refine exists_congr fun before => and_congr_right fun _ => ?_
  split
  · exact eq_comm
  · exact eq_comm

theorem LLMCompilerTaskGraph.Ordered.answer (h : graph.Ordered) :
    (graph.answer indices answers).Ordered := by
  refine ⟨?_, ?_, ?_⟩
  · have hsame : (graph.answer indices answers).tasks.map (·.index)
        = graph.tasks.map (·.index) := by
      rw [LLMCompilerTaskGraph.answer, List.map_map]
      refine List.map_congr_left fun task _ => ?_
      show (if _ then _ else _ : LLMCompilerTask).index = task.index
      split
      · rfl
      · rfl
    rw [hsame]
    exact h.indices
  · intro _ hin hjoin
    obtain ⟨task, hmem, rfl⟩ := mem_answer_iff.mp hin
    exact h.backward task hmem hjoin
  · intro _ hin hjoin d hd
    obtain ⟨task, hmem, rfl⟩ := mem_answer_iff.mp hin
    obtain ⟨other, hother, hotherJoin, hindex⟩ := h.named task hmem hjoin d hd
    exact ⟨_, mem_answer_iff.mpr ⟨other, hother, rfl⟩, hotherJoin, hindex⟩

theorem LLMCompilerTaskGraph.Ordered.rounds (h : graph.Ordered) (answers : Nat → Int → Message)
    (n : Nat) : (graph.rounds answers n).Ordered := by
  induction n with
  | zero => exact h
  | succ n ih => exact ih.answer

theorem pending_eq_zero_iff : graph.pending = 0 ↔ graph.Done := by
  rw [pending, List.countP_eq_zero]
  refine forall₂_congr fun task _ => ?_
  simp

theorem pending_le_length (graph : LLMCompilerTaskGraph) : graph.pending ≤ graph.tasks.length :=
  List.countP_le_length

/-- Answers that are not blank leave fewer tasks, if one had none yet. -/
theorem pending_answer_lt {task : LLMCompilerTask} (hmem : task ∈ graph.tasks)
    (hjoin : task.isJoin = false) (hunfinished : ¬ Finished task.result)
    (hindex : task.index ∈ indices)
    (hfilled : ∀ index, isNotBlankString (answers index).content = true) :
    (graph.answer indices answers).pending < graph.pending := by
  have hanswered : ∀ {task : LLMCompilerTask}, task.index ∈ indices →
      Finished (if task.index ∈ indices then { task with result := some (answers task.index) }
        else task).result := by
    intro task hindex
    rw [if_pos hindex]
    exact ⟨_, rfl, hfilled _⟩
  rw [pending, pending, answer, List.countP_map, List.countP_eq_length_filter,
    List.countP_eq_length_filter]
  -- the tasks that are left are among those that there were
  have hsub : (graph.tasks.filter ((fun task => decide (task.isJoin = false ∧
        ¬ Finished task.result)) ∘ fun task : LLMCompilerTask =>
          if task.index ∈ indices then { task with result := some (answers task.index) }
          else task)).Sublist
      (graph.tasks.filter fun task => task.isJoin = false ∧ ¬ Finished task.result) := by
    refine List.monotone_filter_right _ fun other hleft => ?_
    rw [Function.comp_apply, decide_eq_true_iff] at hleft
    rw [decide_eq_true_iff]
    by_cases hother : other.index ∈ indices
    · exact absurd (hanswered hother) hleft.2
    · rwa [if_neg hother] at hleft
  refine lt_of_le_of_ne hsub.length_le fun hlength => ?_
  have hstill : task ∈ graph.tasks.filter fun task =>
      task.isJoin = false ∧ ¬ Finished task.result :=
    List.mem_filter.mpr ⟨hmem, decide_eq_true ⟨hjoin, hunfinished⟩⟩
  rw [← hsub.eq_of_length hlength] at hstill
  exact (of_decide_eq_true (List.mem_filter.mp hstill).2).2 (hanswered hindex)

end Rounds

/-- Each round leaves fewer tasks, until none is left. -/
theorem pending_rounds_le (h : graph.Ordered) {answers : Nat → Int → Message}
    (hfilled : ∀ n index, isNotBlankString (answers n index).content = true) (n : Nat) :
    (graph.rounds answers n).pending ≤ graph.tasks.length - n := by
  induction n with
  | zero => exact pending_le_length graph
  | succ n ih =>
      have hordered := h.rounds answers n
      rcases hnext : findNextTasks (graph.rounds answers n) with - | ⟨index, indices⟩
      · have hnone := pending_eq_zero_iff.mpr ((findNextTasks_eq_nil_iff hordered).mp hnext)
        rw [rounds, hnext, answer_nil, hnone]
        exact Nat.zero_le _
      · obtain ⟨task, hmem, hready, hindex⟩ := mem_findNextTasks_iff.mp
          (hnext ▸ List.mem_cons_self : index ∈ findNextTasks (graph.rounds answers n))
        have hunfinished : ¬ Finished task.result :=
          fun hfinished => hready.2.1 ((finishedAt_index_iff hordered hmem).mpr hfinished)
        have hless := pending_answer_lt hmem hready.1 hunfinished
          (mem_findNextTasks_iff.mpr ⟨task, hmem, hready, rfl⟩) (hfilled n)
        rw [rounds]
        omega

/-- **No deadlock.**  The next tasks are those without a result whose dependencies have one.  There
is one until all have a result, and as many rounds as there are tasks bring them all. -/
theorem findNextTasks_rounds (h : graph.Ordered) :
    findNextTasks graph = (graph.tasks.filter fun task => graph.Startable task).map (·.index) ∧
    (findNextTasks graph = [] ↔ graph.Done) ∧
    ∀ answers : Nat → Int → Message,
      (∀ n index, isNotBlankString (answers n index).content = true) →
      ∀ n, graph.tasks.length ≤ n → (graph.rounds answers n).Done := by
  refine ⟨findNextTasks_of_ordered h, findNextTasks_eq_nil_iff h, fun answers hfilled n hn => ?_⟩
  have hle := pending_rounds_le h hfilled n
  exact pending_eq_zero_iff.mp (by omega)

/-- A search, an evaluation of what it finds, and the `join`. -/
def searchThenEvaluate : LLMCompilerTaskGraph where
  tasks := [
    { index := 1, toolCall := { function := some { name := "search" } } },
    { index := 2, toolCall := { function := some { name := "evaluate" } }, dependencies := [1] },
    { index := 3, toolCall := { function := some { name := "join" } }, dependencies := [1, 2] }]

example : findNextTasks (searchThenEvaluate.rounds (fun _ _ => { content := "42" }) 1) = [2] := by
  decide

theorem findNextTasks_rounds_search :
    findNextTasks searchThenEvaluate = (searchThenEvaluate.tasks.filter fun task =>
      searchThenEvaluate.Startable task).map (·.index) ∧
    (searchThenEvaluate.rounds (fun _ _ => { content := "42" }) 3).Done := by
  obtain ⟨hnext, -, hrounds⟩ := @findNextTasks_rounds searchThenEvaluate
    ⟨by decide, by decide, by decide⟩
  refine ⟨hnext, hrounds (fun _ _ => { content := "42" }) (fun n index => ?_) 3 (by decide)⟩
  show isNotBlankString "42" = true
  decide

end Instinct
