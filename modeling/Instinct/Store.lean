/-
Instinct/Store.lean

The database of the assistant service with the queue of its task scheduler, and
`EntitySQLUtils` on it.

Every statement of `EntitySQLUtils` is one atomic action on the `Store`.  A
table keeps the primary key of its rows distinct, and ids that the service
generates are not blank.  A `select … where id = …` therefore never meets two
rows, and the error `More than one rows are returned from SelectOne` of the data
template does not occur.

`clock` is the time `now()` of the next insert, `nextNumber` the number that
`generate_next_object_id` hands out next.
-/
import Instinct.Entities
import Instinct.Paging
import Instinct.Retrieval
import Instinct.Tables
import Mathlib.Data.String.Basic

namespace Instinct

open Effects Tables

/-- The database, and the queue of the task scheduler. -/
structure Store where
  assistants : Table AssistantObject.id fun row => isBlankString row.id = false := .empty
  threads : Table ThreadObject.id fun row => isBlankString row.id = false := .empty
  messages : Table MessageObject.id fun row => isBlankString row.id = false := .empty
  runs : Table RunObject.id fun row => isBlankString row.id = false := .empty
  runSteps : Table RunStepObject.id fun row => isBlankString row.id = false := .empty
  vectorStores : Table VectorStoreObject.id fun row => isBlankString row.id = false := .empty
  vectorStoreFiles : Table (fun row : VectorStoreFileObject => (row.fileId, row.vectorStoreId))
    fun row => row.status ≠ .unknownVectorStoreFileStatus := .empty
  vectorStoreFileBatches : Table VectorStoreFileBatchObject.id
    fun row => isBlankString row.id = false := .empty
  /-- The instances that the vector store operator can load. -/
  vectorStoreInstances : List String := []
  /-- The doc store and the vector tables of the instances. -/
  retrieval : RetrievalState := {}
  /-- The payloads of the run tasks that wait in the scheduler. -/
  queue : List RunObject := []
  /-- The payloads of the file tasks that wait in the scheduler. -/
  fileQueue : List VectorStoreFileObject := []
  clock : Nat := 1
  nextNumber : Nat := 1

/-- An action of a service. -/
abbrev ServiceM : Type → Type := Action Exn Store

/-! ### Statements -/

/-- What `assert_query_ok` throws for a violated primary key. -/
def duplicateKey : Exn := .client "Constraint Error: Duplicate key"

/-- What `assert_query_ok` throws for `limit -1`. -/
def negativeLimit : Exn := .client "LIMIT/OFFSET cannot be negative"

/-- `details::generate_next_object_id`, with the proof that the id is not blank. -/
def generateId (kind : String) : ServiceM { id : String // isBlankString id = false } := fun s =>
  (.ok ⟨generateNextObjectId kind s.nextNumber, generateNextObjectId_not_blank kind s.nextNumber⟩,
    { s with nextNumber := s.nextNumber + 1 })

/-- An `insert` of one row, whose `created_at` is the time of the statement. -/
def insertRow {α κ : Type} [DecidableEq κ] {key : α → κ} {Valid : α → Prop}
    (table : Store → Table key Valid) (put : Table key Valid → Store → Store)
    (row : Nat → α) (hrow : ∀ now, Valid (row now)) : ServiceM Unit := fun s =>
  match (table s).insert (row s.clock) (hrow s.clock) with
  | some t => (.ok (), { put t s with clock := s.clock + 1 })
  | none => (.error duplicateKey, s)

/-- An insert fails for a key that is taken and changes nothing, or it adds its row. -/
theorem insertRow_cases {α κ : Type} [DecidableEq κ] {key : α → κ} {Valid : α → Prop}
    (table : Store → Table key Valid) (put : Table key Valid → Store → Store)
    (row : Nat → α) (hrow : ∀ now, Valid (row now)) (s : Store) :
    (key (row s.clock) ∈ (table s).rows.map key ∧
      insertRow table put row hrow s = (.error duplicateKey, s)) ∨
    ∃ t, (table s).insert (row s.clock) (hrow s.clock) = some t ∧
      insertRow table put row hrow s = (.ok (), { put t s with clock := s.clock + 1 }) := by
  unfold insertRow
  rcases h : (table s).insert (row s.clock) (hrow s.clock) with - | t
  · exact .inl ⟨Table.taken_of_insert h, rfl⟩
  · exact .inr ⟨t, rfl, rfl⟩

section Keeps

variable {β : Type} {f : Store → β}

theorem keeps_generateId (hf : ∀ s n, f { s with nextNumber := n } = f s) (kind : String) :
    Action.Keeps f (generateId kind) := fun s => hf s _

theorem keeps_insertRow {α κ : Type} [DecidableEq κ] {key : α → κ} {Valid : α → Prop}
    {table : Store → Table key Valid} {put : Table key Valid → Store → Store}
    {row : Nat → α} {hrow : ∀ now, Valid (row now)}
    (hf : ∀ t s n, f { put t s with clock := n } = f s) :
    Action.Keeps f (insertRow table put row hrow) := by
  intro s
  rcases insertRow_cases table put row hrow s with ⟨-, h⟩ | ⟨t, -, h⟩
  · rw [h]
  · rw [h]
    exact hf t s _

end Keeps

/-- The condition `id < …`.  No cursor lets every row pass. -/
def isBefore {α : Type} (ident : α → String) (before : Option String) (row : α) : Bool :=
  before.all fun c => ident row < c

/-- A cursor that counts unless it is blank: `is_not_blank(after)`. -/
def notBlankCursor (cursor : String) : Option String :=
  if isNotBlankString cursor then some cursor else none

/-- A cursor that counts unless it is empty: `exists("after") and is_not_blank("after")`,
where the template tests the word `"after"` and not the value for blanks. -/
def notEmptyCursor (cursor : String) : Option String :=
  if cursor = "" then none else some cursor

/-- Rows between two cursors, in the order of their creation, cut to a limit.
A cursor that is not given is `none`. -/
def selectMany {α : Type} (ident : α → String) (stamp : α → Nat) (rows : List α)
    (after before : Option String) (order : ListRequestOrder) (limit : Int32) :
    Except Exn (List α) :=
  if limit < 0 then .error negativeLimit
  else .ok ((Paging.arrange stamp (order ≠ .asc)
    ((rows.filter (isBefore ident before)).filter (Paging.isBeyond ident after))).take
      limit.toNatClampNeg)

/-! ### `EntitySQLUtils`: runs -/

/-- The condition `thread_id = … and id = …` on runs. -/
def isRun (threadId runId : String) (run : RunObject) : Bool :=
  run.threadId = threadId && run.id = runId

/-- `EntitySQLUtils::SelectOneRun`. -/
def selectOneRun (threadId runId : String) : ServiceM (Option RunObject) :=
  Action.gets fun s => s.runs.find? (isRun threadId runId)

/-- The assignments of `EntitySQLUtils::UpdateRun`. -/
def RunObject.assign (run : RunObject) (req : ModifyRunRequest) : RunObject :=
  { run with
    status := if req.status = .unknownRunObjectStatus then run.status else req.status
    requiredAction := req.requiredAction.getD run.requiredAction
    startedAt := if 0 < req.startedAt then req.startedAt else run.startedAt
    expiresAt := if 0 < req.expiresAt then req.expiresAt else run.expiresAt
    cancelledAt := if 0 < req.cancelledAt then req.cancelledAt else run.cancelledAt
    failedAt := if 0 < req.failedAt then req.failedAt else run.failedAt
    completedAt := if 0 < req.completedAt then req.completedAt else run.completedAt }

@[simp] theorem RunObject.id_assign (run : RunObject) (req : ModifyRunRequest) :
    (run.assign req).id = run.id := rfl

@[simp] theorem RunObject.threadId_assign (run : RunObject) (req : ModifyRunRequest) :
    (run.assign req).threadId = run.threadId := rfl

@[simp] theorem isRun_assign (threadId runId : String) (run : RunObject) (req : ModifyRunRequest) :
    isRun threadId runId (run.assign req) = isRun threadId runId run := rfl

/-- The store after an update of the run that a request names. -/
def Store.assignRun (s : Store) (req : ModifyRunRequest) : Store :=
  { s with
    runs := s.runs.update (isRun req.threadId req.runId) (·.assign req)
      (fun run => run.id_assign req) fun _ h => h }

/-- The run that a thread id and a run id name. -/
def Store.run? (s : Store) (threadId runId : String) : Option RunObject :=
  s.runs.find? (isRun threadId runId)

theorem isRun_eq_true {threadId runId : String} {run : RunObject} :
    isRun threadId runId run = true ↔ run.threadId = threadId ∧ run.id = runId := by
  simp [isRun]

theorem Store.run?_some {s : Store} {threadId runId : String} {run : RunObject}
    (h : s.run? threadId runId = some run) : run.threadId = threadId ∧ run.id = runId :=
  isRun_eq_true.mp (List.find?_some h)

/-- An update is seen by the run that it names, and by no other. -/
theorem Store.run?_assignRun (s : Store) (req : ModifyRunRequest) (threadId runId : String) :
    (s.assignRun req).run? threadId runId
      = if threadId = req.threadId ∧ runId = req.runId then
          (s.run? threadId runId).map (·.assign req)
        else s.run? threadId runId := by
  have hupdate : (s.assignRun req).run? threadId runId
      = (s.run? threadId runId).map fun run =>
        if isRun req.threadId req.runId run then run.assign req else run :=
    Table.find?_update s.runs _ _ (fun run => run.id_assign req) (fun _ h => h)
      fun run => isRun_assign threadId runId run req
  rw [hupdate]
  rcases h : s.run? threadId runId with - | run
  · split <;> rfl
  · obtain ⟨rfl, rfl⟩ := Store.run?_some h
    simp only [Option.map_some, isRun_eq_true, apply_ite some]

/-- An update of a run that does not exist changes nothing. -/
theorem Store.assignRun_of_none {s : Store} {req : ModifyRunRequest}
    (h : s.run? req.threadId req.runId = none) : s.assignRun req = s :=
  congrArg (fun t => { s with runs := t })
    (Table.update_of_none s.runs _ (·.assign req) (fun run => run.id_assign req) (fun _ h => h) h)

/-- `EntitySQLUtils::UpdateRun`: how many rows were updated. -/
def updateRun (req : ModifyRunRequest) : ServiceM Nat := fun s =>
  (.ok (s.runs.count (isRun req.threadId req.runId)), s.assignRun req)

/-- What `assert_query_ok` throws for a column that the table of runs does not have. -/
def unknownColumn : Exn :=
  .client "Binder Error: Table does not have a column with name \"tool_resources\""

/-- What `assert_query_ok` throws for a number that an `INTEGER` column cannot hold. -/
def numberOutOfRange : Exn :=
  .client "Conversion Error: the value is out of range for the destination type INT32"

/-- The limits on tokens that the table of runs can hold. -/
def RunObject.HoldsLimits (run : RunObject) : Prop :=
  run.maxPromptTokens < 2147483648 ∧ run.maxCompletionTokens < 2147483648

instance (run : RunObject) : Decidable run.HoldsLimits := by
  unfold RunObject.HoldsLimits
  infer_instance

/-- `EntitySQLUtils::InsertOneRun`.  The template names a column `tool_resources` where the
request brings tool resources along. -/
def insertOneRun (run : RunObject) (toolResources : Option AssistantToolResources)
    (hid : isBlankString run.id = false) : ServiceM Unit :=
  if toolResources.isSome then Action.throw unknownColumn
  else if run.HoldsLimits then
    insertRow (·.runs) (fun t s => { s with runs := t })
      (fun now => { run with createdAt := now }) fun _ => hid
  else Action.throw numberOutOfRange

/-- An insert fails where the statement does or the id is taken. -/
theorem insertOneRun_cases (run : RunObject) (toolResources : Option AssistantToolResources)
    (hid : isBlankString run.id = false) (s : Store) :
    (∃ e, (toolResources = none → run.HoldsLimits → run.id ∈ s.runs.rows.map RunObject.id) ∧
      insertOneRun run toolResources hid s = (.error e, s)) ∨
    ((toolResources = none ∧ run.HoldsLimits) ∧
      ∃ t, s.runs.insert { run with createdAt := s.clock } hid = some t ∧
        insertOneRun run toolResources hid s
          = (.ok (), { s with runs := t, clock := s.clock + 1 })) := by
  unfold insertOneRun
  by_cases hresources : toolResources.isSome = true
  · rw [if_pos hresources]
    refine .inl ⟨unknownColumn, fun hnone => ?_, rfl⟩
    rw [hnone] at hresources
    cases hresources
  · have hnone : toolResources = none := Option.not_isSome_iff_eq_none.mp hresources
    rw [if_neg hresources]
    by_cases hlimits : run.HoldsLimits
    · rw [if_pos hlimits]
      rcases insertRow_cases (·.runs) (fun t s => { s with runs := t })
        (fun now => { run with createdAt := now }) (fun _ => hid) s with ⟨htaken, h⟩ | h
      · exact .inl ⟨duplicateKey, fun _ _ => htaken, h⟩
      · exact .inr ⟨⟨hnone, hlimits⟩, h⟩
    · rw [if_neg hlimits]
      exact .inl ⟨numberOutOfRange, fun _ h => absurd h hlimits, rfl⟩

/-! ### `EntitySQLUtils`: run steps -/

/-- The condition `id = … and thread_id = … and run_id = …` on run steps. -/
def isRunStep (threadId runId stepId : String) (step : RunStepObject) : Bool :=
  step.id = stepId && step.threadId = threadId && step.runId = runId

/-- The condition `thread_id = … and run_id = …` on run steps. -/
def isStepOf (threadId runId : String) (step : RunStepObject) : Bool :=
  step.threadId = threadId && step.runId = runId

/-- `EntitySQLUtils::GetRunStep`. -/
def selectRunStep (threadId runId stepId : String) : ServiceM (Option RunStepObject) :=
  Action.gets fun s => s.runSteps.find? (isRunStep threadId runId stepId)

/-- The assignments of `EntitySQLUtils::UpdateRunStep`. -/
def RunStepObject.assign (step : RunStepObject) (req : ModifyRunStepRequest) : RunStepObject :=
  { step with
    status := if req.status = .unknownRunStepStatus then step.status else req.status
    stepDetails := req.stepDetails.getD step.stepDetails
    lastError := req.lastError.or step.lastError
    expiredAt := if 0 < req.expiredAt then req.expiredAt else step.expiredAt
    cancelledAt := if 0 < req.cancelledAt then req.cancelledAt else step.cancelledAt
    failedAt := if 0 < req.failedAt then req.failedAt else step.failedAt
    completedAt := if 0 < req.completedAt then req.completedAt else step.completedAt }

@[simp] theorem RunStepObject.id_assign (step : RunStepObject) (req : ModifyRunStepRequest) :
    (step.assign req).id = step.id := rfl

/-- The store after an update of the run step that a request names. -/
def Store.assignRunStep (s : Store) (req : ModifyRunStepRequest) : Store :=
  { s with
    runSteps := s.runSteps.update (isRunStep req.threadId req.runId req.stepId) (·.assign req)
      (fun step => step.id_assign req) fun _ h => h }

@[simp] theorem isRunStep_assign (threadId runId stepId : String) (step : RunStepObject)
    (req : ModifyRunStepRequest) :
    isRunStep threadId runId stepId (step.assign req) = isRunStep threadId runId stepId step := rfl

@[simp] theorem isStepOf_assign (threadId runId : String) (step : RunStepObject)
    (req : ModifyRunStepRequest) :
    isStepOf threadId runId (step.assign req) = isStepOf threadId runId step := rfl

/-- The run step that three ids name. -/
def Store.runStep? (s : Store) (threadId runId stepId : String) : Option RunStepObject :=
  s.runSteps.find? (isRunStep threadId runId stepId)

theorem isRunStep_eq_true {threadId runId stepId : String} {step : RunStepObject} :
    isRunStep threadId runId stepId step = true
      ↔ step.id = stepId ∧ step.threadId = threadId ∧ step.runId = runId := by
  simp [isRunStep, and_assoc]

theorem isStepOf_eq_true {threadId runId : String} {step : RunStepObject} :
    isStepOf threadId runId step = true ↔ step.threadId = threadId ∧ step.runId = runId := by
  simp [isStepOf]

/-- A step of a run is found by its id. -/
theorem Store.runStep?_of_mem {s : Store} {threadId runId : String} {step : RunStepObject}
    (h : step ∈ s.runSteps.rows.filter (isStepOf threadId runId)) :
    s.runStep? threadId runId step.id = some step := by
  obtain ⟨hmem, hof⟩ := List.mem_filter.mp h
  refine Table.find?_eq_some_of_mem hmem ?_ fun r hr => (isRunStep_eq_true.mp hr).1
  exact isRunStep_eq_true.mpr ⟨rfl, isStepOf_eq_true.mp hof⟩

theorem Store.runStep?_assignRunStep {s : Store} {req : ModifyRunStepRequest}
    {step : RunStepObject} (h : s.runStep? req.threadId req.runId req.stepId = some step) :
    (s.assignRunStep req).runStep? req.threadId req.runId req.stepId = some (step.assign req) := by
  have hupdate : (s.assignRunStep req).runStep? req.threadId req.runId req.stepId
      = (s.runStep? req.threadId req.runId req.stepId).map fun row =>
        if isRunStep req.threadId req.runId req.stepId row then row.assign req else row :=
    Table.find?_update s.runSteps _ _ (fun row => row.id_assign req) (fun _ h => h)
      fun row => isRunStep_assign req.threadId req.runId req.stepId row req
  rw [hupdate, h, Option.map_some, if_pos (List.find?_some h)]

/-- `EntitySQLUtils::UpdateRunStep`: how many rows were updated. -/
def updateRunStep (req : ModifyRunStepRequest) : ServiceM Nat := fun s =>
  (.ok (s.runSteps.count (isRunStep req.threadId req.runId req.stepId)), s.assignRunStep req)

/-- The columns of a run step insert: the statement names six and the time. -/
def RunStepObject.columns (step : RunStepObject) (now : Nat) : RunStepObject :=
  { id := step.id
    threadId := step.threadId
    runId := step.runId
    type := step.type
    status := step.status
    stepDetails := step.stepDetails
    createdAt := now }

/-- `EntitySQLUtils::InsertOneRunStep`. -/
def insertOneRunStep (step : RunStepObject) (hid : isBlankString step.id = false) :
    ServiceM Unit :=
  insertRow (·.runSteps) (fun t s => { s with runSteps := t }) step.columns fun _ => hid

theorem insertOneRunStep_cases (step : RunStepObject) (hid : isBlankString step.id = false)
    (s : Store) :
    insertOneRunStep step hid s = (.error duplicateKey, s) ∨
    ∃ t, s.runSteps.insert (step.columns s.clock) hid = some t ∧
      insertOneRunStep step hid s = (.ok (), { s with runSteps := t, clock := s.clock + 1 }) :=
  (insertRow_cases (·.runSteps) (fun t s => { s with runSteps := t }) step.columns (fun _ => hid)
    s).imp_left And.right

/-- `EntitySQLUtils::SelectManyRunSteps`. -/
def selectManyRunSteps (req : ListRunStepsRequest) (order : ListRequestOrder) (limit : Int32) :
    ServiceM (List RunStepObject) := fun s =>
  (selectMany (·.id) (·.createdAt) (s.runSteps.rows.filter (isStepOf req.threadId req.runId))
    (notBlankCursor req.after) (notBlankCursor req.before) order limit, s)

/-! ### `EntitySQLUtils`: messages -/

/-- The condition `id = … and thread_id = …` on messages. -/
def isMessage (threadId messageId : String) (message : MessageObject) : Bool :=
  message.id = messageId && message.threadId = threadId

/-- The condition `thread_id = …`, and `run_id = …` where the request names a run. -/
def isMessageOf (threadId runId : String) (message : MessageObject) : Bool :=
  message.threadId = threadId && (runId = "" || message.runId = runId)

/-- `EntitySQLUtils::SelectOneMessages`. -/
def selectOneMessages (threadId messageId : String) : ServiceM (Option MessageObject) :=
  Action.gets fun s => s.messages.find? (isMessage threadId messageId)

/-- The checks that both message inserts make on the fields and the content. -/
def checkMessage (message : MessageObject) : Except Exn Unit := do
  assertTrue (message.id ≠ "") "should provide id in context"
  assertTrue (message.threadId ≠ "") "should provide thread_id in context"
  assertTrue (message.content ≠ []) "should provide content in context"
  assertTrue (message.role ≠ .unknownMessageRole) "should provide role in context"
  assertTrue (message.status ≠ .unknownMessageStatus) "should provide status in context"
  assertTrue (∀ item ∈ message.content, item.type = .text ∨ item.type = .imageFile)
    "content type for message should be text or image_file."
  assertTrue (message.role = .user ∨ message.role = .assistant)
    "should provide correct role for message"

/-- The columns of a message insert.  `assistant_id` is tested under another
name than the one it is given, so it is never stored. -/
def MessageObject.columns (message : MessageObject) (now : Nat) : MessageObject :=
  { message with
    assistantId := ""
    runId := if isNotBlankString message.runId then message.runId else ""
    createdAt := now }

/-- `EntitySQLUtils::InsertOneMessages`. -/
def insertOneMessages (message : MessageObject) (hid : isBlankString message.id = false) :
    ServiceM Unit := do
  checkMessage message
  insertRow (·.messages) (fun t s => { s with messages := t }) message.columns fun _ => hid

theorem insertOneMessages_ok {message : MessageObject} {hid : isBlankString message.id = false}
    {s s' : Store} (h : insertOneMessages message hid s = (.ok (), s')) :
    s'.messages.rows = s.messages.rows ++ [message.columns s.clock] := by
  obtain ⟨⟨⟩, s₁, hcheck, h⟩ := Action.ok_of_bind h
  obtain ⟨-, rfl⟩ := Prod.mk.inj hcheck
  rcases insertRow_cases (·.messages) (fun t s => { s with messages := t }) message.columns
    (fun _ => hid) s with ⟨-, hinsert⟩ | ⟨t, ht, hinsert⟩
  · rw [hinsert] at h
    simp at h
  · rw [hinsert] at h
    obtain ⟨-, rfl⟩ := Prod.mk.inj h
    exact Table.rows_insert ht

theorem keeps_insertOneMessages {β : Type} {f : Store → β}
    (hf : ∀ t s n, f { s with messages := t, clock := n } = f s) (message : MessageObject)
    (hid : isBlankString message.id = false) : Action.Keeps f (insertOneMessages message hid) :=
  Action.keeps_bind (Action.keeps_liftM _) fun _ => keeps_insertRow hf

/-- The rows of one insert statement, all or none. -/
def insertMessageRows (now : Nat) :
    List { message : MessageObject // isBlankString message.id = false } →
    Table MessageObject.id (fun row => isBlankString row.id = false) →
    Option (Table MessageObject.id fun row => isBlankString row.id = false)
  | [], table => some table
  | message :: rest, table =>
      (table.insert (message.val.columns now) message.property).bind (insertMessageRows now rest)

/-- `EntitySQLUtils::InsertManyMessages`: how many ids were returned. -/
def insertManyMessages
    (messages : List { message : MessageObject // isBlankString message.id = false }) :
    ServiceM Nat := do
  (messages.forM fun message => do
    checkMessage message.val
    assertNotBlank message.val.threadId "should provide thread_id" : Except Exn PUnit)
  fun s =>
    match insertMessageRows s.clock messages s.messages with
    | some table => (.ok messages.length, { s with messages := table, clock := s.clock + 1 })
    | none => (.error duplicateKey, s)

theorem keeps_insertManyMessages {β : Type} {f : Store → β}
    (hf : ∀ t s n, f { s with messages := t, clock := n } = f s)
    (messages : List { message : MessageObject // isBlankString message.id = false }) :
    Action.Keeps f (insertManyMessages messages) := by
  refine Action.keeps_bind (Action.keeps_liftM _) fun _ s => ?_
  split
  · exact hf _ s _
  · rfl

/-- `EntitySQLUtils::SelectManyMessages`. -/
def selectManyMessages (req : ListMessagesRequest) (order : ListRequestOrder) (limit : Int32) :
    ServiceM (List MessageObject) := fun s =>
  (selectMany (·.id) (·.createdAt) (s.messages.rows.filter (isMessageOf req.threadId req.runId))
    (notEmptyCursor req.after) (notEmptyCursor req.before) order limit, s)

/-! ### `EntitySQLUtils`: assistants and threads -/

/-- `EntitySQLUtils::GetOneAssistant`. -/
def getOneAssistant (assistantId : String) : ServiceM (Option AssistantObject) :=
  Action.gets fun s => s.assistants.find? fun row => row.id = assistantId

/-- `EntitySQLUtils::GetManyAssistant`. -/
def getManyAssistant (req : ListAssistantsRequest) (order : ListRequestOrder) (limit : Int32) :
    ServiceM (List AssistantObject) := fun s =>
  (selectMany (·.id) (·.createdAt) s.assistants.rows
    (notBlankCursor req.after) (notBlankCursor req.before) order limit, s)

/-- The select of `ThreadServiceImpl::RetrieveThread`. -/
def selectOneThread (threadId : String) : ServiceM (Option ThreadObject) :=
  Action.gets fun s => s.threads.find? fun row => row.id = threadId

/-- `EntitySQLUtils::InsertOneThread`. -/
def insertOneThread (thread : ThreadObject) (hid : isBlankString thread.id = false) :
    ServiceM Unit :=
  insertRow (·.threads) (fun t s => { s with threads := t })
    (fun now => { thread with createdAt := now }) fun _ => hid

end Instinct
