/-
Instinct/TaskScheduler.lean

`ThreadPoolTaskScheduler`: producers, consumer threads and calls of `Terminate` on one
queue of tasks.

Every step of the scheduler moves tasks from one place to the next (`moves_ledger`): from
the queue to a consumer thread or to a call of `Drain`, and from the thread to the tasks
that are handled.  What happened to a task is the list of the calls that were made for
it.  A ledger in which the tasks and the calls are in order stays so (`Moves.accounted`),
and with it `scheduler_accounted` says for every run where the tasks are and what the
handlers and the callbacks have seen of them.

Every task has a ticket, the number of the tasks enqueued before it, so that two equal
tasks are told apart.
-/
import Instinct.Transitions
import Mathlib.Algebra.Order.Group.Multiset
import Mathlib.Data.List.Perm.Basic
import Mathlib.Tactic.Abel

namespace Instinct.TaskScheduler

open Transitions

variable {α Task η : Type}

/-! ### The queue -/

/-- A task with its ticket. -/
structure Job (Task : Type) where
  ticket : Nat
  task : Task
  deriving DecidableEq

/-- `InProcessTaskQueue::Dequeue` of one element, at a position that the queue chooses. -/
def dequeue (k : Nat) (q : List α) : Option (α × List α) :=
  q[k]?.map fun a => (a, q.eraseIdx k)

/-- `try_dequeue_bulk`: the elements and what is left of the queue. -/
def tryDequeueBulk : List Nat → List α → Option (List α × List α)
  | [], q => some ([], q)
  | k :: ks, q =>
    (dequeue k q).bind fun (a, rest) =>
      (tryDequeueBulk ks rest).map fun (taken, left) => (a :: taken, left)

theorem perm_of_dequeue {k : Nat} {q rest : List α} {a : α}
    (h : dequeue k q = some (a, rest)) : q.Perm (a :: rest) := by
  obtain ⟨b, hb, heq⟩ := Option.map_eq_some_iff.mp h
  obtain ⟨rfl, rfl⟩ := Prod.mk.inj heq
  obtain ⟨hk, rfl⟩ := List.getElem?_eq_some_iff.mp hb
  exact (List.getElem_cons_eraseIdx_perm hk).symm

theorem perm_of_tryDequeueBulk {ks : List Nat} {q taken left : List α}
    (h : tryDequeueBulk ks q = some (taken, left)) : q.Perm (taken ++ left) := by
  induction ks generalizing q taken with
  | nil =>
    cases h
    exact List.Perm.refl _
  | cons k ks ih =>
    obtain ⟨⟨a, rest⟩, ha, h⟩ := Option.bind_eq_some_iff.mp h
    obtain ⟨⟨more, left'⟩, hmore, heq⟩ := Option.map_eq_some_iff.mp h
    obtain ⟨rfl, rfl⟩ := Prod.mk.inj heq
    exact (perm_of_dequeue ha).trans ((ih hmore).cons a)

/-! ### `HandleTask_` -/

/-- What is called for a task, with what came of it.  The callbacks may throw too, which
makes no difference. -/
inductive Call (η : Type)
  | refused (handler : η)
  | acceptThrew (handler : η)
  | accepted (handler : η)
  | handleReturned (handler : η)
  | handleThrew (handler : η)
  | onHandledTask (handler : η)
  | onFailedTask (handler : η)
  | onUnhandledTask

/-- Where `HandleTask_` is: before `Accept` of the first handler that is left, before its
`Handle`, or before one of the callbacks. -/
inductive Phase
  | accept | handle | onHandled | onFailed
  deriving DecidableEq

/-- A call of `HandleTask_`, with the handlers from the current one on. -/
structure Pass (Task η : Type) where
  job : Job Task
  rest : List η
  phase : Phase
  handled : Bool
  hasException : Bool

/-- How a call of `Accept`, `Handle` or a callback ends. -/
inductive Outcome
  | returned (accepted : Bool)
  | threw

def handleTask (handlers : List η) (job : Job Task) : Pass Task η where
  job := job
  rest := handlers
  phase := .accept
  handled := false
  hasException := false

/-- The next call of `HandleTask_`, and where it is then; `none` once it has returned. -/
def Pass.next (p : Pass Task η) (outcome : Outcome) : List (Call η) × Option (Pass Task η) :=
  match p.rest, p.phase, outcome with
  | [], _, _ =>
    (if !p.handled && !p.hasException then [.onUnhandledTask] else [], none)
  | h :: _, .accept, .returned true =>
    ([.accepted h], some { p with phase := .handle, handled := true })
  | h :: rest, .accept, .returned false => ([.refused h], some { p with rest := rest })
  | h :: _, .accept, .threw =>
    ([.acceptThrew h], some { p with phase := .onFailed, hasException := true })
  | h :: _, .handle, .returned _ => ([.handleReturned h], some { p with phase := .onHandled })
  | h :: _, .handle, .threw =>
    ([.handleThrew h], some { p with phase := .onFailed, hasException := true })
  | h :: rest, .onHandled, _ =>
    ([.onHandledTask h], some { p with rest := rest, phase := .accept })
  | h :: rest, .onFailed, _ =>
    ([.onFailedTask h], some { p with rest := rest, phase := .accept })

/-- What a handler does with a task. -/
inductive Course
  | passedOver | acceptThrew | handled | handleThrew
  deriving DecidableEq

/-- The calls that belong to it. -/
def Course.calls (h : η) : Course → List (Call η)
  | .passedOver => [.refused h]
  | .acceptThrew => [.acceptThrew h, .onFailedTask h]
  | .handled => [.accepted h, .handleReturned h, .onHandledTask h]
  | .handleThrew => [.accepted h, .handleThrew h, .onFailedTask h]

def callsOf (courses : List (η × Course)) : List (Call η) :=
  courses.flatMap fun (h, course) => course.calls h

/-- No handler accepted the task or threw. -/
def unhandled (courses : List (η × Course)) : Bool :=
  courses.all fun (_, course) => course = .passedOver

/-- The calls of one whole `HandleTask_`: every handler once, in the order of the list,
and `OnUnhandledTask` if all of them passed the task over. -/
def Complete (handlers : List η) (calls : List (Call η)) : Prop :=
  ∃ courses : List (η × Course), courses.map Prod.fst = handlers ∧
    calls = callsOf courses ++ if unhandled courses then [.onUnhandledTask] else []

/-- The calls that were made for the current handler. -/
inductive Pending : Phase → List η → List (Call η) → Prop
  | accept (rest : List η) : Pending .accept rest []
  | handle (h : η) (rest : List η) : Pending .handle (h :: rest) [.accepted h]
  | onHandled (h : η) (rest : List η) :
      Pending .onHandled (h :: rest) [.accepted h, .handleReturned h]
  | acceptFailed (h : η) (rest : List η) : Pending .onFailed (h :: rest) [.acceptThrew h]
  | handleFailed (h : η) (rest : List η) :
      Pending .onFailed (h :: rest) [.accepted h, .handleThrew h]

/-- The calls that a pass has made so far. -/
def Recorded (handlers : List η) (p : Pass Task η) (calls : List (Call η)) : Prop :=
  ∃ (courses : List (η × Course)) (pending : List (Call η)),
    courses.map Prod.fst ++ p.rest = handlers ∧ calls = callsOf courses ++ pending ∧
      Pending p.phase p.rest pending ∧
      (!p.handled && !p.hasException) = (unhandled courses && p.phase = .accept)

theorem recorded_handleTask (handlers : List η) (job : Job Task) :
    Recorded handlers (handleTask handlers job) [] :=
  ⟨[], [], rfl, rfl, .accept handlers, rfl⟩

@[simp] theorem callsOf_append_singleton (courses : List (η × Course)) (h : η)
    (course : Course) :
    callsOf (courses ++ [(h, course)]) = callsOf courses ++ course.calls h := by
  simp [callsOf]

@[simp] theorem unhandled_append_singleton (courses : List (η × Course)) (h : η)
    (course : Course) :
    unhandled (courses ++ [(h, course)]) = (unhandled courses && course = .passedOver) := by
  simp [unhandled]

section Passes

variable {handlers : List η} {p q : Pass Task η} {calls more : List (Call η)}
  {outcome : Outcome}

/-- The course of the current handler has ended. -/
theorem Recorded.of_course {courses : List (η × Course)} {h : η} {rest : List η}
    (course : Course) (hhandlers : courses.map Prod.fst ++ h :: rest = handlers)
    (hcalls : calls = callsOf courses ++ course.calls h) (hrest : q.rest = rest)
    (hphase : q.phase = .accept)
    (hflags : (!q.handled && !q.hasException) =
      (unhandled courses && course = .passedOver)) : Recorded handlers q calls := by
  refine ⟨courses ++ [(h, course)], [], ?_, ?_, ?_, ?_⟩
  · rw [hrest, ← hhandlers]
    simp
  · rw [hcalls]
    simp
  · rw [hphase]
    exact .accept _
  · rw [hflags, hphase]
    simp

/-- What one call of a pass does to its record, a case for every place where it can be. -/
theorem Recorded.next (hp : Recorded handlers p calls)
    (hnext : p.next outcome = (more, some q)) : Recorded handlers q (calls ++ more) := by
  obtain ⟨job, rest, phase, handled, hasException⟩ := p
  obtain ⟨courses, pending, hhandlers, rfl, hpending, hflags⟩ := hp
  cases hpending with
  | accept _ =>
    cases rest with
    | nil => simp [Pass.next] at hnext
    | cons h rest =>
      match outcome with
      | .returned true =>
        simp only [Pass.next, Prod.mk.injEq, Option.some.injEq] at hnext
        obtain ⟨rfl, rfl⟩ := hnext
        exact ⟨courses, [.accepted h], hhandlers, by simp, .handle h rest, by simp⟩
      | .returned false =>
        simp only [Pass.next, Prod.mk.injEq, Option.some.injEq] at hnext
        obtain ⟨rfl, rfl⟩ := hnext
        exact .of_course .passedOver hhandlers (by simp [Course.calls]) rfl rfl
          (by simpa using hflags)
      | .threw =>
        simp only [Pass.next, Prod.mk.injEq, Option.some.injEq] at hnext
        obtain ⟨rfl, rfl⟩ := hnext
        exact ⟨courses, [.acceptThrew h], hhandlers, by simp, .acceptFailed h rest, by simp⟩
  | handle h rest =>
    match outcome with
    | .returned _ =>
      simp only [Pass.next, Prod.mk.injEq, Option.some.injEq] at hnext
      obtain ⟨rfl, rfl⟩ := hnext
      exact ⟨courses, [.accepted h, .handleReturned h], hhandlers, by simp,
        .onHandled h rest, by simpa using hflags⟩
    | .threw =>
      simp only [Pass.next, Prod.mk.injEq, Option.some.injEq] at hnext
      obtain ⟨rfl, rfl⟩ := hnext
      exact ⟨courses, [.accepted h, .handleThrew h], hhandlers, by simp,
        .handleFailed h rest, by simp⟩
  | onHandled h rest =>
    simp only [Pass.next, Prod.mk.injEq, Option.some.injEq] at hnext
    obtain ⟨rfl, rfl⟩ := hnext
    exact .of_course .handled hhandlers (by simp [Course.calls]) rfl rfl
      (by simpa using hflags)
  | acceptFailed h rest =>
    simp only [Pass.next, Prod.mk.injEq, Option.some.injEq] at hnext
    obtain ⟨rfl, rfl⟩ := hnext
    exact .of_course .acceptThrew hhandlers (by simp [Course.calls]) rfl rfl
      (by simpa using hflags)
  | handleFailed h rest =>
    simp only [Pass.next, Prod.mk.injEq, Option.some.injEq] at hnext
    obtain ⟨rfl, rfl⟩ := hnext
    exact .of_course .handleThrew hhandlers (by simp [Course.calls]) rfl rfl
      (by simpa using hflags)

theorem Pass.job_of_next (hnext : p.next outcome = (more, some q)) : q.job = p.job := by
  unfold Pass.next at hnext
  split at hnext <;> cases hnext <;> rfl

/-- Once the pass returns, the calls are those of a whole one. -/
theorem Recorded.complete (hp : Recorded handlers p calls)
    (hnext : p.next outcome = (more, none)) : Complete handlers (calls ++ more) := by
  obtain ⟨job, rest, phase, handled, hasException⟩ := p
  obtain ⟨courses, pending, hhandlers, rfl, hpending, hflags⟩ := hp
  cases rest with
  | cons h rest =>
    cases phase <;> obtain (_ | _) | _ := outcome <;> simp [Pass.next] at hnext
  | nil =>
    cases hpending with
    | accept _ =>
      simp only [Pass.next, Prod.mk.injEq, and_true] at hnext
      refine ⟨courses, by simpa using hhandlers, ?_⟩
      rw [← hnext, hflags]
      simp

theorem exists_complete_of_courses {courses : List (η × Course)} {rest : List η}
    (h : courses.map Prod.fst ++ rest = handlers) :
    ∃ more, Complete handlers (callsOf courses ++ more) := by
  let skipped := rest.map fun h => (h, Course.passedOver)
  refine ⟨callsOf skipped ++ if unhandled (courses ++ skipped) then [.onUnhandledTask] else [],
    courses ++ skipped, ?_, ?_⟩
  · rw [← h, List.map_append]
    simp [skipped, Function.comp_def]
  · simp [callsOf]

/-- A pass has made the first calls of a whole one. -/
theorem Recorded.exists_complete (hp : Recorded handlers p calls) :
    ∃ more, Complete handlers (calls ++ more) := by
  obtain ⟨courses, pending, hhandlers, rfl, hpending, -⟩ := hp
  -- let the current handler come to its end, and all behind it pass
  have hcourse : ∀ (h : η) (rest : List η) (course : Course), p.rest = h :: rest →
      ∃ more, Complete handlers (callsOf courses ++ course.calls h ++ more) := by
    intro h rest course hrest
    rw [← callsOf_append_singleton]
    exact exists_complete_of_courses (by simpa [hrest] using hhandlers)
  generalize hrest : p.rest = rest at hpending hhandlers
  generalize p.phase = phase at hpending
  cases hpending with
  | accept _ => simpa using exists_complete_of_courses hhandlers
  | handle h rest =>
    obtain ⟨more, hmore⟩ := hcourse h rest .handled hrest
    exact ⟨.handleReturned h :: .onHandledTask h :: more, by simpa [Course.calls] using hmore⟩
  | onHandled h rest =>
    obtain ⟨more, hmore⟩ := hcourse h rest .handled hrest
    exact ⟨.onHandledTask h :: more, by simpa [Course.calls] using hmore⟩
  | acceptFailed h rest =>
    obtain ⟨more, hmore⟩ := hcourse h rest .acceptThrew hrest
    exact ⟨.onFailedTask h :: more, by simpa [Course.calls] using hmore⟩
  | handleFailed h rest =>
    obtain ⟨more, hmore⟩ := hcourse h rest .handleThrew hrest
    exact ⟨.onFailedTask h :: more, by simpa [Course.calls] using hmore⟩

end Passes

/-! ### The scheduler -/

/-- A consumer thread: before it reads `running_`, in `Dequeue`, in `HandleTask_`, and
after its loop. -/
inductive Consumer (Task η : Type)
  | checking
  | dequeuing
  | handling (p : Pass Task η)
  | finished

/-- A call of `Terminate`: before `running_` is cleared, while it joins the threads, in
`Drain` with the tasks so far, and after it.  To join a thread that another call has just
joined throws. -/
inductive Termination (Task : Type)
  | stopping
  | joining
  | draining (tasks : List (Job Task))
  | returned (tasks : List (Job Task))
  | threw

/-- A call that was made for a task. -/
structure Event (Task η : Type) where
  job : Job Task
  call : Call η

structure State (Task η : Type) where
  running : Bool
  queue : List (Job Task)
  consumers : List (Consumer Task η)
  terminations : List (Termination Task)
  /-- All tasks that were ever enqueued. -/
  enqueued : List (Job Task)
  /-- The tasks for which `HandleTask_` has returned. -/
  handled : List (Job Task)
  log : List (Event Task η)

def initial : State Task η where
  running := false
  queue := []
  consumers := []
  terminations := []
  enqueued := []
  handled := []
  log := []

/-- One step of a producer, of the consumer thread or of the call of `Terminate` with the
given number.  `timeOut` is a `Dequeue` that returns false. -/
inductive Label (Task : Type)
  | start (n : Nat)
  | enqueue (task : Task)
  | check (i : Nat)
  | dequeue (i k : Nat)
  | timeOut (i : Nat)
  | call (i : Nat) (outcome : Outcome)
  | terminate
  | stop (j : Nat)
  | join (j : Nat)
  | joinThrows (j : Nat)
  | drain (j : Nat) (ks : List Nat)
  | drained (j : Nat)

def Consumer.isFinished : Consumer Task η → Bool
  | .finished => true
  | _ => false

def Consumer.pass? : Consumer Task η → Option (Pass Task η)
  | .handling p => some p
  | _ => none

def Termination.tasks : Termination Task → List (Job Task)
  | .draining tasks => tasks
  | .returned tasks => tasks
  | _ => []

def State.setConsumer (s : State Task η) (i : Nat) (c : Consumer Task η) : State Task η :=
  { s with consumers := s.consumers.set i c }

def State.setTermination (s : State Task η) (j : Nat) (t : Termination Task) :
    State Task η :=
  { s with terminations := s.terminations.set j t }

def step (handlers : List η) (s : State Task η) : Label Task → Option (State Task η)
  | .start n =>
    some { s with running := true, consumers := s.consumers ++ List.replicate n .checking }
  | .enqueue task =>
    let job := ⟨s.enqueued.length, task⟩
    some { s with queue := s.queue ++ [job], enqueued := s.enqueued ++ [job] }
  | .check i =>
    match s.consumers[i]? with
    | some .checking => some (s.setConsumer i (if s.running then .dequeuing else .finished))
    | _ => none
  | .dequeue i k =>
    match s.consumers[i]?, TaskScheduler.dequeue k s.queue with
    | some .dequeuing, some (job, rest) =>
      some { s.setConsumer i (.handling (handleTask handlers job)) with queue := rest }
    | _, _ => none
  | .timeOut i =>
    match s.consumers[i]? with
    | some .dequeuing => some (s.setConsumer i .checking)
    | _ => none
  | .call i outcome =>
    match s.consumers[i]? with
    | some (.handling p) =>
      match p.next outcome with
      | (calls, some q) =>
        some { s.setConsumer i (.handling q) with log := s.log ++ calls.map (⟨p.job, ·⟩) }
      | (calls, none) =>
        some { s.setConsumer i .checking with
          handled := s.handled ++ [p.job], log := s.log ++ calls.map (⟨p.job, ·⟩) }
    | _ => none
  | .terminate => some { s with terminations := s.terminations ++ [.stopping] }
  | .stop j =>
    match s.terminations[j]? with
    | some .stopping => some { s.setTermination j .joining with running := false }
    | _ => none
  | .join j =>
    match s.terminations[j]? with
    | some .joining =>
      if s.consumers.all (·.isFinished) then some (s.setTermination j (.draining [])) else none
    | _ => none
  | .joinThrows j =>
    match s.terminations[j]? with
    | some .joining => some (s.setTermination j .threw)
    | _ => none
  | .drain j ks =>
    match s.terminations[j]?, tryDequeueBulk ks s.queue with
    | some (.draining tasks), some (taken, rest) =>
      if ks.length ≤ 100 then
        some { s.setTermination j (.draining (tasks ++ taken)) with queue := rest }
      else none
    | _, _ => none
  | .drained j =>
    match s.terminations[j]? with
    | some (.draining tasks) =>
      if s.queue.isEmpty then some (s.setTermination j (.returned tasks)) else none
    | _ => none

/-! ### The ledger -/

/-- Where the tasks are, whatever the order, with the calls that were made for them. -/
@[ext] structure Ledger (Task η : Type) where
  enqueued : List (Job Task)
  queue : Multiset (Job Task)
  passes : Multiset (Pass Task η)
  handled : Multiset (Job Task)
  drained : Multiset (Job Task)
  log : List (Event Task η)

/-- The moves of tasks: what the scheduler is for. -/
inductive Moves (handlers : List η) : Ledger Task η → Ledger Task η → Prop
  | stay (l : Ledger Task η) : Moves handlers l l
  | enqueue (l : Ledger Task η) (task : Task) :
      Moves handlers l { l with
        enqueued := l.enqueued ++ [⟨l.enqueued.length, task⟩]
        queue := ⟨l.enqueued.length, task⟩ ::ₘ l.queue }
  | dequeue (l : Ledger Task η) (job : Job Task) (rest : Multiset (Job Task)) :
      l.queue = job ::ₘ rest →
      Moves handlers l { l with
        queue := rest
        passes := handleTask handlers job ::ₘ l.passes }
  | call (l : Ledger Task η) (p q : Pass Task η) (rest : Multiset (Pass Task η))
      (outcome : Outcome) (calls : List (Call η)) :
      l.passes = p ::ₘ rest → p.next outcome = (calls, some q) →
      Moves handlers l { l with
        passes := q ::ₘ rest
        log := l.log ++ calls.map (⟨p.job, ·⟩) }
  | finish (l : Ledger Task η) (p : Pass Task η) (rest : Multiset (Pass Task η))
      (outcome : Outcome) (calls : List (Call η)) :
      l.passes = p ::ₘ rest → p.next outcome = (calls, none) →
      Moves handlers l { l with
        passes := rest
        handled := p.job ::ₘ l.handled
        log := l.log ++ calls.map (⟨p.job, ·⟩) }
  | drain (l : Ledger Task η) (taken rest : Multiset (Job Task)) :
      l.queue = taken + rest →
      Moves handlers l { l with queue := rest, drained := taken + l.drained }

def State.passes (s : State Task η) : List (Pass Task η) := s.consumers.filterMap (·.pass?)

def State.drained (s : State Task η) : List (Job Task) := s.terminations.flatMap (·.tasks)

def State.ledger (s : State Task η) : Ledger Task η where
  enqueued := s.enqueued
  queue := s.queue
  passes := s.passes
  handled := s.handled
  drained := s.drained
  log := s.log

/-- An element of a list and the other ones, before and after it is replaced. -/
theorem exists_perm_set {l : List α} {i : Nat} {a : α} (h : l[i]? = some a) :
    ∃ others, l.Perm (a :: others) ∧ ∀ b, (l.set i b).Perm (b :: others) := by
  obtain ⟨hi, rfl⟩ := List.getElem?_eq_some_iff.mp h
  exact ⟨l.eraseIdx i, (List.getElem_cons_eraseIdx_perm hi).symm,
    fun b => List.set_perm_cons_eraseIdx hi b⟩

/-- The passes around a consumer thread that is replaced. -/
theorem exists_passes_setConsumer {s : State Task η} {i : Nat} {c : Consumer Task η}
    (h : s.consumers[i]? = some c) :
    ∃ others : List (Pass Task η), s.passes.Perm (c.pass?.toList ++ others) ∧
      ∀ c', (s.setConsumer i c').passes.Perm (c'.pass?.toList ++ others) := by
  obtain ⟨others, hs, hset⟩ := exists_perm_set h
  have hcons : ∀ c : Consumer Task η, (c :: others).filterMap (·.pass?) =
      c.pass?.toList ++ others.filterMap (·.pass?) := by
    intro c
    cases hc : c.pass? <;> simp [hc]
  refine ⟨others.filterMap (·.pass?), ?_, fun c' => ?_⟩
  · rw [← hcons c]
    exact hs.filterMap _
  · rw [← hcons c']
    exact (hset c').filterMap _

/-- The drained tasks around a call of `Terminate` that is replaced. -/
theorem exists_drained_setTermination {s : State Task η} {j : Nat} {t : Termination Task}
    (h : s.terminations[j]? = some t) :
    ∃ others : List (Job Task), s.drained.Perm (t.tasks ++ others) ∧
      ∀ t', (s.setTermination j t').drained.Perm (t'.tasks ++ others) := by
  obtain ⟨others, hs, hset⟩ := exists_perm_set h
  exact ⟨others.flatMap Termination.tasks, hs.flatMap_right Termination.tasks,
    fun t' => (hset t').flatMap_right Termination.tasks⟩

/-- A consumer thread that holds no task before and after moves none. -/
theorem moves_setConsumer {handlers : List η} {s : State Task η} {i : Nat}
    {c c' : Consumer Task η} (h : s.consumers[i]? = some c) (hc : c.pass? = none)
    (hc' : c'.pass? = none) : Moves handlers s.ledger (s.setConsumer i c').ledger := by
  obtain ⟨others, hs, hset⟩ := exists_passes_setConsumer h
  have hperm : (s.setConsumer i c').passes.Perm s.passes := by
    simpa [hc, hc'] using (hset c').trans (by simpa [hc, hc'] using hs.symm)
  have hledger : (s.setConsumer i c').ledger = s.ledger :=
    Ledger.ext rfl rfl (Multiset.coe_eq_coe.mpr hperm) rfl rfl rfl
  rw [hledger]
  exact .stay _

/-- A call of `Terminate` that goes on with the same tasks moves none. -/
theorem moves_setTermination {handlers : List η} {s : State Task η} {j : Nat}
    {t t' : Termination Task} (h : s.terminations[j]? = some t) (ht : t'.tasks = t.tasks) :
    Moves handlers s.ledger (s.setTermination j t').ledger := by
  obtain ⟨others, hs, hset⟩ := exists_drained_setTermination h
  have hperm : (s.setTermination j t').drained.Perm s.drained :=
    (hset t').trans (ht ▸ hs.symm)
  have hledger : (s.setTermination j t').ledger = s.ledger :=
    Ledger.ext rfl rfl rfl rfl (Multiset.coe_eq_coe.mpr hperm) rfl
  rw [hledger]
  exact .stay _

/-- A consumer thread takes a job from the queue. -/
theorem moves_dequeue {handlers : List η} {s : State Task η} {i k : Nat} {c : Consumer Task η}
    {job : Job Task} {rest : List (Job Task)} (h : s.consumers[i]? = some c) (hc : c.pass? = none)
    (hk : TaskScheduler.dequeue k s.queue = some (job, rest)) :
    Moves handlers s.ledger
      { s.setConsumer i (.handling (handleTask handlers job)) with queue := rest }.ledger := by
  obtain ⟨others, hs, hset⟩ := exists_passes_setConsumer h
  rw [hc] at hs
  have hpasses : (s.setConsumer i (.handling (handleTask handlers job))).passes.Perm
      (handleTask handlers job :: s.passes) :=
    (hset _).trans (hs.symm.cons _)
  convert Moves.dequeue s.ledger job rest
    (Multiset.coe_eq_coe.mpr (perm_of_dequeue hk)) using 1
  exact Ledger.ext rfl rfl (Multiset.coe_eq_coe.mpr hpasses) rfl rfl rfl

/-- A consumer thread makes a call and keeps its job. -/
theorem moves_call {handlers : List η} {s : State Task η} {i : Nat} {p q : Pass Task η}
    {outcome : Outcome} {calls : List (Call η)} (h : s.consumers[i]? = some (.handling p))
    (hnext : p.next outcome = (calls, some q)) :
    Moves handlers s.ledger
      { s.setConsumer i (.handling q) with log := s.log ++ calls.map (Event.mk p.job) }.ledger := by
  obtain ⟨others, hs, hset⟩ := exists_passes_setConsumer h
  have hp : (s.passes : Multiset (Pass Task η)) = p ::ₘ others := Multiset.coe_eq_coe.mpr hs
  convert Moves.call s.ledger p q others outcome calls hp hnext using 1
  exact Ledger.ext rfl rfl (Multiset.coe_eq_coe.mpr (hset _)) rfl rfl rfl

/-- A pass returns, and its job is among the handled ones. -/
theorem moves_finish {handlers : List η} {s : State Task η} {i : Nat} {p : Pass Task η}
    {outcome : Outcome} {calls : List (Call η)} (h : s.consumers[i]? = some (.handling p))
    (hnext : p.next outcome = (calls, none)) :
    Moves handlers s.ledger
      { s.setConsumer i .checking with
        handled := s.handled ++ [p.job], log := s.log ++ calls.map (Event.mk p.job) }.ledger := by
  obtain ⟨others, hs, hset⟩ := exists_passes_setConsumer h
  have hp : (s.passes : Multiset (Pass Task η)) = p ::ₘ others := Multiset.coe_eq_coe.mpr hs
  convert Moves.finish s.ledger p others outcome calls hp hnext using 1
  exact Ledger.ext rfl rfl (Multiset.coe_eq_coe.mpr (hset _))
    (Multiset.coe_eq_coe.mpr (List.perm_append_singleton _ _)) rfl rfl

/-- A call of `Terminate` takes jobs from the queue. -/
theorem moves_drain {handlers : List η} {s : State Task η} {j : Nat} {ks : List Nat}
    {tasks taken rest : List (Job Task)} (h : s.terminations[j]? = some (.draining tasks))
    (hks : tryDequeueBulk ks s.queue = some (taken, rest)) :
    Moves handlers s.ledger
      { s.setTermination j (.draining (tasks ++ taken)) with queue := rest }.ledger := by
  -- the tasks taken go behind those that this call has, before those of the others
  obtain ⟨others, hs, hset⟩ := exists_drained_setTermination h
  have hdrained : (s.setTermination j (.draining (tasks ++ taken))).drained.Perm
      (taken ++ s.drained) := by
    refine (hset _).trans (((List.perm_append_comm).append_right others).trans ?_)
    rw [List.append_assoc]
    exact hs.symm.append_left taken
  convert Moves.drain s.ledger taken rest
    (Multiset.coe_eq_coe.mpr (perm_of_tryDequeueBulk hks)) using 1
  exact Ledger.ext rfl rfl rfl rfl (Multiset.coe_eq_coe.mpr hdrained) rfl

/-- Every step of the scheduler is a move of the ledger. -/
theorem moves_ledger {handlers : List η} {s s' : State Task η} {label : Label Task}
    (h : step handlers s label = some s') : Moves handlers s.ledger s'.ledger := by
  cases label with
  | start n =>
    obtain rfl := Option.some.inj h
    have hpasses : (s.consumers ++ List.replicate n Consumer.checking).filterMap
        Consumer.pass? = s.passes := by
      rw [List.filterMap_append, List.filterMap_replicate_of_none rfl, List.append_nil]
      rfl
    convert Moves.stay s.ledger using 1
    exact Ledger.ext rfl rfl (congrArg Multiset.ofList hpasses) rfl rfl rfl
  | enqueue task =>
    obtain rfl := Option.some.inj h
    convert Moves.enqueue s.ledger task using 1
    exact Ledger.ext rfl (Multiset.coe_eq_coe.mpr (List.perm_append_singleton _ _)) rfl rfl
      rfl rfl
  | check i =>
    simp only [step] at h
    split at h
    · cases h
      exact moves_setConsumer ‹_› rfl (by split <;> rfl)
    · cases h
  | dequeue i k =>
    simp only [step] at h
    split at h
    · rename_i job rest hi hk
      cases h
      exact moves_dequeue hi rfl hk
    · cases h
  | timeOut i =>
    simp only [step] at h
    split at h
    · cases h
      exact moves_setConsumer ‹_› rfl rfl
    · cases h
  | call i outcome =>
    simp only [step] at h
    split at h
    · rename_i p hi
      -- the thread keeps its task, or puts it to the handled ones when the pass returns
      split at h
      · rename_i calls q hnext
        cases h
        exact moves_call hi hnext
      · rename_i calls hnext
        cases h
        exact moves_finish hi hnext
    · cases h
  | terminate =>
    obtain rfl := Option.some.inj h
    have hdrained : (s.terminations ++ [Termination.stopping]).flatMap Termination.tasks =
        s.drained := by
      rw [List.flatMap_append]
      exact List.append_nil _
    convert Moves.stay s.ledger using 1
    exact Ledger.ext rfl rfl rfl rfl (congrArg Multiset.ofList hdrained) rfl
  | stop j =>
    simp only [step] at h
    split at h
    · rename_i hj
      cases h
      exact moves_setTermination hj rfl
    · cases h
  | join j =>
    simp only [step] at h
    split at h
    · rename_i hj
      split at h
      · cases h
        exact moves_setTermination hj rfl
      · cases h
    · cases h
  | joinThrows j =>
    simp only [step] at h
    split at h
    · rename_i hj
      cases h
      exact moves_setTermination hj rfl
    · cases h
  | drain j ks =>
    simp only [step] at h
    split at h
    · rename_i tasks taken rest hj hks
      split at h
      · cases h
        exact moves_drain hj hks
      · cases h
    · cases h
  | drained j =>
    simp only [step] at h
    split at h
    · rename_i tasks hj
      split at h
      · cases h
        exact moves_setTermination hj rfl
      · cases h
    · cases h

/-! ### Accounts -/

variable [DecidableEq Task]

/-- The calls that were made for a task, in their order. -/
def callsFor (log : List (Event Task η)) (job : Job Task) : List (Call η) :=
  (log.filter fun e => e.job = job).map (·.call)

theorem callsFor_append_self (log : List (Event Task η)) (job : Job Task)
    (calls : List (Call η)) :
    callsFor (log ++ calls.map (⟨job, ·⟩)) job = callsFor log job ++ calls := by
  simp [callsFor, List.filter_map, Function.comp_def]

theorem callsFor_append_of_ne (log : List (Event Task η)) {job other : Job Task}
    (calls : List (Call η)) (h : other ≠ job) :
    callsFor (log ++ calls.map (⟨job, ·⟩)) other = callsFor log other := by
  simp [callsFor, List.filter_map, Function.comp_def, h.symm]

/-- Every task that was enqueued is in one place, and the calls that were made for it are
those that belong to the place. -/
structure Accounted (handlers : List η) (l : Ledger Task η) : Prop where
  places : l.queue + l.passes.map (·.job) + l.handled + l.drained = l.enqueued
  tickets : l.enqueued.map (·.ticket) = List.range l.enqueued.length
  logged : ∀ e ∈ l.log, e.job ∈ l.enqueued
  waiting : ∀ job ∈ l.queue + l.drained, callsFor l.log job = []
  passes : ∀ p ∈ l.passes, Recorded handlers p (callsFor l.log p.job)
  handled : ∀ job ∈ l.handled, Complete handlers (callsFor l.log job)

section Accounts

variable {handlers : List η} {l l' : Ledger Task η}

omit [DecidableEq Task] in
theorem nodup_of_tickets {jobs : List (Job Task)}
    (h : jobs.map (·.ticket) = List.range jobs.length) : jobs.Nodup :=
  List.Nodup.of_map (·.ticket) (h ▸ List.nodup_range)

omit [DecidableEq Task] in
/-- The ticket of the next task is not in use. -/
theorem notMem_of_tickets {jobs : List (Job Task)}
    (h : jobs.map (·.ticket) = List.range jobs.length) (task : Task) :
    ⟨jobs.length, task⟩ ∉ jobs := by
  intro hmem
  have hticket : jobs.length ∈ jobs.map (·.ticket) := List.mem_map.mpr ⟨_, hmem, rfl⟩
  rw [h, List.mem_range] at hticket
  exact Nat.lt_irrefl _ hticket

theorem callsFor_eq_nil {log : List (Event Task η)} {job : Job Task}
    (h : ∀ e ∈ log, e.job ≠ job) : callsFor log job = [] := by
  rw [callsFor, List.map_eq_nil_iff, List.filter_eq_nil_iff]
  simpa using h

/-- The task of a pass is in no other place. -/
theorem Accounted.ne_job (h : Accounted handlers l) {p : Pass Task η}
    {rest : Multiset (Pass Task η)} (hp : l.passes = p ::ₘ rest) {job : Job Task}
    (hjob : job ∈ l.queue + rest.map (·.job) + l.handled + l.drained) : job ≠ p.job := by
  have hplaces : p.job ::ₘ (l.queue + rest.map (·.job) + l.handled + l.drained) =
      l.enqueued := by
    rw [← h.places, hp, Multiset.map_cons]
    simp only [← Multiset.singleton_add]
    abel
  have hnodup : (p.job ::ₘ (l.queue + rest.map (·.job) + l.handled + l.drained)).Nodup := by
    rw [hplaces]
    exact Multiset.coe_nodup.mpr (nodup_of_tickets h.tickets)
  rintro rfl
  exact (Multiset.nodup_cons.mp hnodup).1 hjob

/-- Calls that are made for a pass leave the records of all other tasks as they are. -/
theorem Accounted.others_append (h : Accounted handlers l) {p : Pass Task η}
    {rest : Multiset (Pass Task η)} (hp : l.passes = p ::ₘ rest) (calls : List (Call η)) :
    (∀ job ∈ l.queue + l.drained, callsFor (l.log ++ calls.map (⟨p.job, ·⟩)) job = []) ∧
      (∀ other ∈ rest,
        Recorded handlers other (callsFor (l.log ++ calls.map (⟨p.job, ·⟩)) other.job)) ∧
      ∀ job ∈ l.handled,
        Complete handlers (callsFor (l.log ++ calls.map (⟨p.job, ·⟩)) job) := by
  refine ⟨?_, ?_, ?_⟩
  · intro job hjob
    have hne : job ≠ p.job := by
      apply h.ne_job hp
      simp only [Multiset.mem_add] at hjob ⊢
      tauto
    rw [callsFor_append_of_ne _ _ hne]
    exact h.waiting job hjob
  · intro other hother
    have hne : other.job ≠ p.job := by
      apply h.ne_job hp
      have hmem := Multiset.mem_map_of_mem (·.job) hother
      simp only [Multiset.mem_add]
      tauto
    rw [callsFor_append_of_ne _ _ hne]
    apply h.passes
    rw [hp]
    exact Multiset.mem_cons_of_mem hother
  · intro job hjob
    have hne : job ≠ p.job := by
      apply h.ne_job hp
      simp only [Multiset.mem_add]
      tauto
    rw [callsFor_append_of_ne _ _ hne]
    exact h.handled job hjob

/-- Calls that are made for a pass are logged for a task that was enqueued. -/
theorem Accounted.logged_append (h : Accounted handlers l) {p : Pass Task η}
    (hp : p ∈ l.passes) (calls : List (Call η)) :
    ∀ e ∈ l.log ++ calls.map (⟨p.job, ·⟩), e.job ∈ l.enqueued := by
  intro e he
  rcases List.mem_append.mp he with he | he
  · exact h.logged e he
  · obtain ⟨call, -, rfl⟩ := List.mem_map.mp he
    have hmem : p.job ∈ (l.enqueued : Multiset (Job Task)) := by
      rw [← h.places]
      simp only [Multiset.mem_add, Multiset.mem_map]
      exact Or.inl (Or.inl (Or.inr ⟨p, hp, rfl⟩))
    exact Multiset.mem_coe.mp hmem

/-- Moves keep the accounts. -/
theorem Moves.accounted (hmove : Moves handlers l l') (h : Accounted handlers l) :
    Accounted handlers l' := by
  cases hmove with
  | stay => exact h
  | enqueue task =>
    have hnew := notMem_of_tickets h.tickets task
    refine ⟨?_, ?_, ?_, ?_, h.passes, h.handled⟩
    · rw [← Multiset.coe_add, ← h.places, Multiset.coe_singleton]
      simp only [← Multiset.singleton_add]
      abel
    · simp [h.tickets, List.range_succ]
    · intro e he
      exact List.mem_append_left _ (h.logged e he)
    · intro job hjob
      simp only [Multiset.cons_add, Multiset.mem_cons] at hjob
      rcases hjob with rfl | hjob
      -- nothing was called for a task that there was not before
      · refine callsFor_eq_nil fun e he heq => hnew ?_
        rw [← heq]
        exact h.logged e he
      · exact h.waiting job hjob
  | dequeue job rest hqueue =>
    have hwaiting := h.waiting
    have hplaces := h.places
    rw [hqueue] at hwaiting hplaces
    refine ⟨?_, h.tickets, h.logged, ?_, ?_, h.handled⟩
    · rw [← hplaces, Multiset.map_cons]
      simp only [← Multiset.singleton_add, handleTask]
      abel
    · intro other hother
      exact hwaiting other (by simp_all)
    · intro p hp
      rcases Multiset.mem_cons.mp hp with rfl | hp
      · rw [show (handleTask handlers job).job = job from rfl, hwaiting job (by simp)]
        exact recorded_handleTask handlers job
      · exact h.passes p hp
  | call p q rest outcome calls hpasses hnext =>
    have hp : p ∈ l.passes := by simp [hpasses]
    have hjob := Pass.job_of_next hnext
    obtain ⟨hwaiting, hrest, hhandled⟩ := h.others_append hpasses calls
    refine ⟨?_, h.tickets, h.logged_append hp calls, hwaiting, ?_, hhandled⟩
    · rw [← h.places, hpasses, Multiset.map_cons, Multiset.map_cons, hjob]
    · intro other hother
      rcases Multiset.mem_cons.mp hother with rfl | hother
      · rw [hjob, callsFor_append_self]
        exact (h.passes p hp).next hnext
      · exact hrest other hother
  | finish p rest outcome calls hpasses hnext =>
    have hp : p ∈ l.passes := by simp [hpasses]
    obtain ⟨hwaiting, hrest, hhandled⟩ := h.others_append hpasses calls
    refine ⟨?_, h.tickets, h.logged_append hp calls, hwaiting, hrest, ?_⟩
    · rw [← h.places, hpasses, Multiset.map_cons]
      simp only [← Multiset.singleton_add]
      abel
    · intro job hjob
      rcases Multiset.mem_cons.mp hjob with rfl | hjob
      · rw [callsFor_append_self]
        exact (h.passes p hp).complete hnext
      · exact hhandled job hjob
  | drain taken rest hqueue =>
    have hwaiting := h.waiting
    have hplaces := h.places
    rw [hqueue] at hwaiting hplaces
    refine ⟨?_, h.tickets, h.logged, ?_, h.passes, h.handled⟩
    · rw [← hplaces]
      dsimp only
      abel
    · intro job hjob
      refine hwaiting job ?_
      simp only [Multiset.mem_add] at hjob ⊢
      tauto

/-- In every state that the scheduler reaches the accounts are in order. -/
theorem accounted_of_reaches {s : State Task η}
    (h : Reaches (step handlers) initial s) : Accounted handlers s.ledger := by
  refine Runs.invariant (I := fun s => Accounted handlers s.ledger) h
    (fun s label s' hs _ hstep => (moves_ledger hstep).accounted hs) ?_
  refine ⟨rfl, rfl, ?_, ?_, ?_, ?_⟩ <;> intro x hx <;> simp [initial, State.ledger,
    State.passes, State.drained] at hx

def State.beingHandled (s : State Task η) : List (Job Task) := s.passes.map (·.job)

def State.calls (s : State Task η) (job : Job Task) : List (Call η) := callsFor s.log job

/-- **The tasks of the scheduler.**  Whatever the order of the steps, every task that was
enqueued is either in the queue, in one `HandleTask_`, handled, or in the result of one
`Drain`.  For a task in the queue or in a result nothing was called, for one that is
being handled the first calls of one whole `HandleTask_`, and for one that is handled
exactly its calls: every handler once, and `OnUnhandledTask` if all of them passed. -/
theorem scheduler_accounted {s : State Task η} (h : Reaches (step handlers) initial s) :
    (s.queue ++ s.beingHandled ++ s.handled ++ s.drained).Perm s.enqueued ∧
      s.enqueued.Nodup ∧
      (∀ job ∈ s.queue ++ s.drained, s.calls job = []) ∧
      (∀ job ∈ s.beingHandled, ∃ more, Complete handlers (s.calls job ++ more)) ∧
      ∀ job ∈ s.handled, Complete handlers (s.calls job) := by
  have hacc := accounted_of_reaches h
  refine ⟨?_, nodup_of_tickets hacc.tickets, ?_, ?_, ?_⟩
  · exact Multiset.coe_eq_coe.mp hacc.places
  · intro job hjob
    exact hacc.waiting job (Multiset.mem_coe.mpr hjob)
  · intro job hjob
    obtain ⟨p, hp, rfl⟩ := List.mem_map.mp hjob
    exact (hacc.passes p hp).exists_complete
  · exact hacc.handled

end Accounts

/-- One consumer thread handles the first of two tasks, for which one handler throws and
the other one passes, and a call of `Terminate` returns the second task. -/
def shutdownLabels : List (Label String) :=
  [.start 1, .enqueue "first", .check 0, .dequeue 0 0, .call 0 (.returned true),
    .call 0 .threw, .call 0 (.returned true), .call 0 (.returned false), .enqueue "second",
    .terminate, .stop 0, .call 0 .threw, .check 0, .join 0, .drain 0 [0], .drained 0]

def shutdown : State String String where
  running := false
  queue := []
  consumers := [.finished]
  terminations := [.returned [⟨1, "second"⟩]]
  enqueued := [⟨0, "first"⟩, ⟨1, "second"⟩]
  handled := [⟨0, "first"⟩]
  log := [⟨⟨0, "first"⟩, .accepted "store"⟩, ⟨⟨0, "first"⟩, .handleThrew "store"⟩,
    ⟨⟨0, "first"⟩, .onFailedTask "store"⟩, ⟨⟨0, "first"⟩, .refused "mail"⟩]

theorem scheduler_accounted_shutdown :
    (shutdown.queue ++ shutdown.beingHandled ++ shutdown.handled ++ shutdown.drained).Perm
        shutdown.enqueued ∧
      shutdown.enqueued.Nodup ∧
      (∀ job ∈ shutdown.queue ++ shutdown.drained, shutdown.calls job = []) ∧
      (∀ job ∈ shutdown.beingHandled,
        ∃ more, Complete ["store", "mail"] (shutdown.calls job ++ more)) ∧
      ∀ job ∈ shutdown.handled, Complete ["store", "mail"] (shutdown.calls job) := by
  have hrun : execute (step ["store", "mail"]) shutdownLabels initial = some shutdown := rfl
  exact scheduler_accounted (runs_of_execute (fun _ _ _ => trivial) hrun)

end Instinct.TaskScheduler
