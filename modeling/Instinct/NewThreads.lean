/-
Instinct/NewThreads.lean

What `CreateThreadAndRun` stores.

The check of the message sequence looks at neighbours and at the first message,
not at the last one (`checkMessageSequence_eq_ok_iff`), and lets messages without
a role pass.  The request is converted as a whole, and an item of a list in its
metadata is read off the wrong message.  The thread is inserted before the messages
and the messages before the run, and nothing takes an insert back.
`createThreadAndRun_right_iff` says for which requests the call does all or nothing.
-/
import Instinct.ObjectIds
import Instinct.Setup
import Mathlib.Data.List.Chain

namespace Instinct

open Effects Tables

/-! ### The rule for the messages -/

/-- The roles of the messages of a request. -/
def CreateThreadAndRunRequest.roles (req : CreateThreadAndRunRequest) : List MessageRole :=
  (req.thread.getD {}).messages.map (·.role)

/-- First and last message are user messages, and user and assistant take turns. -/
structure TakeTurns (roles : List MessageRole) : Prop where
  first : roles.head? = some .user
  last : roles.getLast? = some .user
  alternate : roles.IsChain fun role next =>
    (role = .user ∧ next = .assistant) ∨ (role = .assistant ∧ next = .user)

/-- What the check lets follow a message that is or is not a user message. -/
def MayFollow (isUserMessage : Bool) (role : MessageRole) : Prop :=
  (role = .user → isUserMessage = false) ∧ (role = .assistant → isUserMessage = true)

/-- What the check lets pass. -/
def PassesCheck (isUserMessage : Bool) (roles : List MessageRole) : Prop :=
  (∀ role ∈ roles.head?, MayFollow isUserMessage role) ∧
    roles.IsChain fun role next => MayFollow (role = .user) next

theorem passesCheck_cons {isUserMessage : Bool} {role : MessageRole} {roles : List MessageRole} :
    PassesCheck isUserMessage (role :: roles)
      ↔ MayFollow isUserMessage role ∧ PassesCheck (role = .user) roles := by
  rw [PassesCheck, PassesCheck, List.isChain_cons]
  simp

theorem checkMessageSequence_cons (isUserMessage : Bool) (message : CreateMessageRequest)
    (messages : List CreateMessageRequest) :
    checkMessageSequence isUserMessage (message :: messages) = .ok ()
      ↔ MayFollow isUserMessage message.role ∧
        checkMessageSequence (message.role = .user) messages = .ok () := by
  rw [checkMessageSequence]
  cases hrole : message.role <;> cases isUserMessage <;>
    simp [MayFollow, assertTrue, bind, Except.bind]

/-- The check is about neighbours, and about the first message. -/
theorem checkMessageSequence_eq_ok_iff (isUserMessage : Bool)
    (messages : List CreateMessageRequest) :
    checkMessageSequence isUserMessage messages = .ok ()
      ↔ PassesCheck isUserMessage (messages.map (·.role)) := by
  induction messages generalizing isUserMessage with
  | nil => exact iff_of_true rfl ⟨nofun, List.isChain_nil⟩
  | cons message messages ih =>
      rw [checkMessageSequence_cons, ih, List.map_cons, passesCheck_cons]

/-- What the check does not let pass it throws for. -/
theorem checkMessageSequence_thrown {isUserMessage : Bool} {messages : List CreateMessageRequest}
    {e : Exn} (h : checkMessageSequence isUserMessage messages = .error e) (place : String) :
    e ≠ .undefinedBehaviour place := by
  induction messages generalizing isUserMessage with
  | nil => cases h
  | cons message messages ih =>
      rw [checkMessageSequence] at h
      cases hrole : message.role <;> cases isUserMessage <;>
        simp only [hrole, assertTrue, bind, Except.bind, reduceCtorEq, if_true, if_false,
          Bool.not_true, Bool.not_false, Bool.false_eq_true, decide_true, decide_false] at h
      all_goals first
        | exact ih h
        | rw [← Except.error.inj h]
          simp

/-- A message sequence by the rule passes. -/
theorem TakeTurns.passesCheck {roles : List MessageRole} (h : TakeTurns roles) :
    PassesCheck false roles := by
  refine ⟨fun role hrole => ?_, h.alternate.imp fun role next hnext => ?_⟩
  · obtain rfl := Option.some.inj (h.first.symm.trans hrole)
    exact ⟨fun _ => rfl, nofun⟩
  · rcases hnext with ⟨rfl, rfl⟩ | ⟨rfl, rfl⟩
    · exact ⟨nofun, fun _ => rfl⟩
    · exact ⟨fun _ => rfl, nofun⟩

theorem TakeTurns.ne_nil {roles : List MessageRole} (h : TakeTurns roles) : roles ≠ [] := by
  rintro rfl
  cases h.first

/-- A message may be stored with the role. -/
def IsKnown (role : MessageRole) : Prop := role = .user ∨ role = .assistant

theorem isKnown_of_alternate {role : MessageRole} {roles : List MessageRole}
    (hrole : IsKnown role) (h : (role :: roles).IsChain fun role next =>
      (role = .user ∧ next = .assistant) ∨ (role = .assistant ∧ next = .user)) :
    ∀ r ∈ role :: roles, IsKnown r := by
  induction roles generalizing role with
  | nil => exact List.forall_mem_singleton.mpr hrole
  | cons next roles ih =>
      obtain ⟨hnext, hrest⟩ := List.isChain_cons_cons.mp h
      exact List.forall_mem_cons.mpr ⟨hrole, ih (hnext.symm.imp And.right And.right) hrest⟩

/-- The insert accepts every message of a sequence by the rule. -/
theorem TakeTurns.isKnown {roles : List MessageRole} (h : TakeTurns roles) :
    ∀ role ∈ roles, IsKnown role := by
  obtain ⟨hfirst, -, halternate⟩ := h
  cases roles with
  | nil => exact nofun
  | cons role rest => exact isKnown_of_alternate (.inl (Option.some.inj hfirst)) halternate

/-! ### The messages of a new thread -/

/-- The checks of an insert of many messages. -/
def MessageObject.Insertable (message : MessageObject) : Prop :=
  (message.id ≠ "" ∧ message.threadId ≠ "" ∧ message.content ≠ [] ∧
    message.role ≠ .unknownMessageRole ∧ message.status ≠ .unknownMessageStatus ∧
    (∀ item ∈ message.content, item.type = .text ∨ item.type = .imageFile) ∧
    (message.role = .user ∨ message.role = .assistant)) ∧
  isBlankString message.threadId = false

theorem checks_insertable (message : MessageObject) :
    Checks (do
      checkMessage message
      assertNotBlank message.threadId "should provide thread_id" : Except Exn Unit)
      message.Insertable := by
  refine Checks.bind ?_ fun _ _ => checks_assertNotBlank _
  refine (checks_assertTrue _).bind fun _ _ => (checks_assertTrue _).bind fun _ _ => ?_
  refine (checks_assertTrue _).bind fun _ _ => (checks_assertTrue _).bind fun _ _ => ?_
  refine (checks_assertTrue _).bind fun _ _ => (checks_assertTrue _).bind fun _ _ => ?_
  exact checks_assertTrue _

/-- The message that is made of a message of the request. -/
def CreateMessageRequest.message (request : CreateMessageRequest) (id runId threadId : String)
    (now : Nat) : MessageObject :=
  { id := id
    role := request.role
    content := [{ type := .text, textValue := request.content }]
    status := .completed
    runId := runId
    threadId := threadId
    completedAt := now }

/-- Of the insert checks, only the one of the role can fail for it. -/
theorem insertable_message_iff (request : CreateMessageRequest) {id runId threadId : String}
    (hid : isBlankString id = false) (hthread : isBlankString threadId = false) (now : Nat) :
    (request.message id runId threadId now).Insertable ↔ IsKnown request.role := by
  have hne : ∀ {text : String}, isBlankString text = false → text ≠ "" := by
    rintro _ h rfl
    cases h
  constructor
  · exact fun h => h.1.2.2.2.2.2.2
  · intro h
    refine ⟨⟨hne hid, hne hthread, List.cons_ne_nil _ _, ?_, nofun, ?_, h⟩, hthread⟩
    · rintro (hrole : request.role = _)
      rw [hrole] at h
      rcases h with h | h <;> cases h
    · exact List.forall_mem_singleton.mpr (.inl rfl)

/-- A message that can be a row. -/
abbrev NewMessage : Type := { message : MessageObject // isBlankString message.id = false }

/-- The messages of a request, with the ids from a number on. -/
def numberedMessages (runId threadId : String) (now : Nat) :
    Nat → List CreateMessageRequest → List NewMessage
  | _, [] => []
  | number, request :: requests =>
      ⟨request.message (generateNextObjectId "msg" number) runId threadId now,
        generateNextObjectId_not_blank "msg" number⟩ ::
      numberedMessages runId threadId now (number + 1) requests

section NewMessages

variable (runId threadId : String) (now : Nat)

theorem newMessages_eq (requests : List CreateMessageRequest) (s : Store) :
    newMessages runId threadId requests s
      = (.ok (numberedMessages runId threadId s.clock s.nextNumber requests),
        { s with nextNumber := s.nextNumber + requests.length }) := by
  induction requests generalizing s with
  | nil => rfl
  | cons request requests ih =>
      have hmessage : newMessage runId threadId request s
          = (.ok ⟨request.message (generateNextObjectId "msg" s.nextNumber) runId threadId s.clock,
              generateNextObjectId_not_blank "msg" s.nextNumber⟩,
            { s with nextNumber := s.nextNumber + 1 }) := rfl
      rw [newMessages, Action.bind_of_ok hmessage, Action.bind_of_ok (ih _), List.length_cons,
        Nat.add_comm requests.length, ← Nat.add_assoc]
      rfl

/-- The ids are those of the numbers that are handed out. -/
theorem ids_numberedMessages (number : Nat) (requests : List CreateMessageRequest) :
    (numberedMessages runId threadId now number requests).map (·.val.id)
      = (List.range' number requests.length).map (generateNextObjectId "msg") := by
  induction requests generalizing number with
  | nil => rfl
  | cons request requests ih =>
      rw [numberedMessages, List.map_cons, ih, List.length_cons, List.range'_succ, List.map_cons]
      rfl

theorem length_numberedMessages (number : Nat) (requests : List CreateMessageRequest) :
    (numberedMessages runId threadId now number requests).length = requests.length := by
  have h := congrArg List.length (ids_numberedMessages runId threadId now number requests)
  rwa [List.length_map, List.length_map, List.length_range'] at h

/-- What the rows keep of the request. -/
theorem columns_numberedMessages (hrun : isBlankString runId = false) (number : Nat)
    (requests : List CreateMessageRequest) :
    ((numberedMessages runId threadId now number requests).map fun message =>
        message.val.columns now).map
      (fun row => (row.threadId, row.runId, row.role, row.content))
      = requests.map fun request =>
        (threadId, runId, request.role, [{ type := .text, textValue := request.content }]) := by
  have hnotBlank : isNotBlankString runId = true := isNotBlankString_eq_true.mpr hrun
  induction requests generalizing number with
  | nil => rfl
  | cons request requests ih =>
      rw [numberedMessages, List.map_cons, List.map_cons, ih, List.map_cons]
      refine congrArg (· :: _) ?_
      show (threadId, (if isNotBlankString runId = true then runId else ""), _, _) = _
      rw [if_pos hnotBlank]
      rfl

end NewMessages

/-! ### The insert of the messages -/

/-- Distinct ids that are free are inserted, in the order of the statement. -/
theorem insertMessageRows_of_free (now : Nat) {messages : List NewMessage}
    {table : Table MessageObject.id fun row => isBlankString row.id = false}
    (hnodup : (messages.map (·.val.id)).Nodup)
    (hfree : ∀ id ∈ messages.map (·.val.id), id ∉ table.rows.map (·.id)) :
    ∃ t, insertMessageRows now messages table = some t ∧
      t.rows = table.rows ++ messages.map fun message => message.val.columns now := by
  induction messages generalizing table with
  | nil => exact ⟨table, rfl, (List.append_nil _).symm⟩
  | cons message messages ih =>
      rw [List.map_cons, List.nodup_cons] at hnodup
      rw [List.map_cons] at hfree
      obtain ⟨hhead, htail⟩ := List.forall_mem_cons.mp hfree
      obtain ⟨t, ht⟩ : ∃ t, table.insert (message.val.columns now) message.property = some t :=
        Table.insert_isSome hhead
      have hrows := Table.rows_insert ht
      have hrest : ∀ id ∈ messages.map (·.val.id), id ∉ t.rows.map (·.id) := by
        intro id hid
        rw [hrows, List.map_append, List.mem_append, not_or]
        refine ⟨htail id hid, fun hnew => hnodup.1 ?_⟩
        have heq : id = message.val.id := List.mem_singleton.mp hnew
        exact heq ▸ hid
      obtain ⟨t', ht', hrows'⟩ := ih hnodup.2 hrest
      refine ⟨t', ?_, ?_⟩
      · rw [insertMessageRows, ht, Option.bind_some]
        exact ht'
      · rw [hrows', hrows, List.append_assoc, List.map_cons]
        rfl

/-- One id that is taken, and no row is inserted. -/
theorem insertMessageRows_of_taken (now : Nat) {messages : List NewMessage}
    {table : Table MessageObject.id fun row => isBlankString row.id = false}
    (htaken : ∃ id ∈ messages.map (·.val.id), id ∈ table.rows.map (·.id)) :
    insertMessageRows now messages table = none := by
  induction messages generalizing table with
  | nil =>
      obtain ⟨id, hid, -⟩ := htaken
      cases hid
  | cons message messages ih =>
      rw [insertMessageRows]
      rcases ht : table.insert (message.val.columns now) message.property with - | t
      · rfl
      · -- the taken id is one of the others
        have hrows := Table.rows_insert ht
        obtain ⟨id, hid, hmem⟩ := htaken
        rcases List.mem_cons.mp hid with rfl | hrest
        · exact absurd hmem (Table.fresh_of_insert (r := message.val.columns now) ht)
        · refine ih ⟨id, hrest, ?_⟩
          rw [hrows, List.map_append]
          exact List.mem_append_left _ hmem

section InsertNewMessages

variable {runId threadId : String} {requests : List CreateMessageRequest} {s : Store}

/-- The ids of the new messages are free. -/
def Store.FreeMessageIds (s : Store) (number count : Nat) : Prop :=
  ∀ i < count, generateNextObjectId "msg" (number + i) ∉ s.messages.rows.map (·.id)

theorem freeMessageIds_iff {number : Nat} :
    s.FreeMessageIds number requests.length
      ↔ ∀ id ∈ (numberedMessages runId threadId s.clock number requests).map (·.val.id),
          id ∉ s.messages.rows.map (·.id) := by
  rw [ids_numberedMessages]
  constructor
  · rintro h id hid
    obtain ⟨n, hn, rfl⟩ := List.mem_map.mp hid
    obtain ⟨i, hi, rfl⟩ := List.mem_range'.mp hn
    rw [Nat.one_mul]
    exact h i hi
  · intro h i hi
    refine h _ (List.mem_map_of_mem (List.mem_range'.mpr ⟨i, hi, ?_⟩))
    rw [Nat.one_mul]

theorem insertable_numberedMessages {now number : Nat} (hthread : isBlankString threadId = false)
    (hknown : ∀ request ∈ requests, IsKnown request.role) :
    ∀ message ∈ numberedMessages runId threadId now number requests, message.val.Insertable := by
  induction requests generalizing number with
  | nil => exact nofun
  | cons request requests ih =>
      obtain ⟨hhead, htail⟩ := List.forall_mem_cons.mp hknown
      refine List.forall_mem_cons.mpr ⟨?_, ih htail⟩
      exact (insertable_message_iff request (generateNextObjectId_not_blank "msg" number) hthread
        now).mpr hhead

/-- Messages that pass the checks are inserted as the table takes them. -/
theorem insertManyMessages_eq {messages : List NewMessage}
    (h : ∀ message ∈ messages, message.val.Insertable) (s : Store) :
    insertManyMessages messages s = match insertMessageRows s.clock messages s.messages with
      | some table => (.ok messages.length, { s with messages := table, clock := s.clock + 1 })
      | none => (.error duplicateKey, s) := by
  obtain ⟨⟨⟩, hchecks⟩ := (checks_forM (fun message : NewMessage => checks_insertable message.val)
    messages).passes h
  exact Action.bind_of_ok (congrArg (·, s) hchecks)

/-- The messages are inserted, or none is. -/
theorem insertNewMessages_cases (hne : requests ≠ [])
    (hrun : isBlankString runId = false) (hthread : isBlankString threadId = false)
    (hknown : ∀ request ∈ requests, IsKnown request.role) (s : Store) :
    (¬ s.FreeMessageIds s.nextNumber requests.length ∧
      ∃ e s', insertNewMessages runId threadId requests s = (.error e, s')) ∨
    (s.FreeMessageIds s.nextNumber requests.length ∧ ∃ s' stored,
      insertNewMessages runId threadId requests s = (.ok (), s') ∧
      s'.messages.rows = s.messages.rows ++ stored ∧
      stored.map (fun row => (row.threadId, row.runId, row.role, row.content))
        = requests.map fun request =>
          (threadId, runId, request.role, [{ type := .text, textValue := request.content }])) := by
  have hempty : ¬ requests.isEmpty = true := fun h => hne (List.isEmpty_iff.mp h)
  have hinsertable : ∀ message ∈ numberedMessages runId threadId s.clock s.nextNumber requests,
      message.val.Insertable := insertable_numberedMessages hthread hknown
  have hmany := insertManyMessages_eq hinsertable
    { s with nextNumber := s.nextNumber + requests.length }
  rw [insertNewMessages, if_neg hempty,
    Action.bind_of_ok (newMessages_eq runId threadId requests s)]
  by_cases hfree : s.FreeMessageIds s.nextNumber requests.length
  · have hnodup : ((numberedMessages runId threadId s.clock s.nextNumber requests).map
        (·.val.id)).Nodup := by
      rw [ids_numberedMessages]
      exact List.Nodup.map (generateNextObjectId_injective "msg") List.nodup_range'
    obtain ⟨table, htable, hrows⟩ := insertMessageRows_of_free s.clock hnodup
      (freeMessageIds_iff.mp hfree)
    have hlength := length_numberedMessages runId threadId s.clock s.nextNumber requests
    simp only [htable] at hmany
    rw [Action.bind_of_ok hmany, hlength, assertTrue_of rfl]
    refine .inr ⟨hfree, _, _, rfl, hrows, ?_⟩
    exact columns_numberedMessages runId threadId s.clock hrun s.nextNumber requests
  · have htaken : ∃ id ∈ (numberedMessages runId threadId s.clock s.nextNumber requests).map
        (·.val.id), id ∈ s.messages.rows.map (·.id) := by
      by_contra hnone
      refine hfree (freeMessageIds_iff.mpr fun id hid hmem => hnone ⟨id, hid, hmem⟩)
    simp only [insertMessageRows_of_taken s.clock htaken] at hmany
    rw [Action.bind_of_error hmany]
    exact .inl ⟨hfree, _, _, rfl⟩

end InsertNewMessages

/-! ### All or nothing -/

/-- One thread is stored, the messages of the request in it in their order, and a queued run. -/
structure StoresRun (req : CreateThreadAndRunRequest) (s s' : Store) (run : RunObject) : Prop where
  thread : ∃ thread, thread.id = run.threadId ∧ s'.threads.rows = s.threads.rows ++ [thread]
  messages : ∃ stored, s'.messages.rows = s.messages.rows ++ stored ∧
    stored.map (fun row => (row.threadId, row.runId, row.role, row.content))
      = (req.thread.getD {}).messages.map fun request =>
        (run.threadId, run.id, request.role, [{ type := .text, textValue := request.content }])
  runs : s'.runs.rows = s.runs.rows ++ [run]
  queued : run.status = .queued

/-- A request whose messages follow the rule is stored as a whole, every other one throws and
leaves the three tables as they are. -/
def CreatesThreadAndRun (req : CreateThreadAndRunRequest) (s : Store)
    (result : Except Exn (Option RunObject) × Store) : Prop :=
  (TakeTurns req.roles → ∃ run, result.1 = .ok (some run) ∧ StoresRun req s result.2 run) ∧
  (¬ TakeTurns req.roles → Throws result.1 ∧ result.2.threads.rows = s.threads.rows ∧
    result.2.messages.rows = s.messages.rows ∧ result.2.runs.rows = s.runs.rows)

/-- No list in the metadata has an item. -/
def MetadataConverts (metadata : Option JsonStructs.Struct) : Prop :=
  ∀ fields ∈ metadata, ∀ p ∈ fields, StructConversion.Itemless p.2

/-- The metadata of the run, of the thread and of its messages can be converted. -/
structure CreateThreadAndRunRequest.Converts (req : CreateThreadAndRunRequest) : Prop where
  messages : ∀ message ∈ (req.thread.getD {}).messages, MetadataConverts message.metadata
  thread : MetadataConverts (req.thread.getD {}).metadata
  run : MetadataConverts req.metadata

/-- The ids that the request draws, for the run, the thread and the messages, are free. -/
structure Store.FreeIds (s : Store) (count : Nat) : Prop where
  run : generateNextObjectId "run" s.nextNumber ∉ s.runs.rows.map (·.id)
  thread : generateNextObjectId "thread" (s.nextNumber + 1) ∉ s.threads.rows.map (·.id)
  messages : s.FreeMessageIds (s.nextNumber + 2) count

section CreateThreadAndRun

variable {req : CreateThreadAndRunRequest} {s : Store}

theorem convertMetadata_eq_ok_iff {metadata : Option JsonStructs.Struct} :
    convertMetadata metadata = .ok () ↔ MetadataConverts metadata := by
  cases metadata with
  | none => exact iff_of_true rfl nofun
  | some fields =>
      have hfields := StructConversion.convertStruct_ok_iff fields
      rw [MetadataConverts, convertMetadata]
      simp only [Option.mem_some_iff, forall_eq']
      rw [← hfields]
      cases StructConversion.convertStruct fields <;> simp [Except.map]

/-- A request is converted if and only if all of its metadata is. -/
theorem convert_eq_ok_iff : req.convert = .ok () ↔ req.Converts := by
  rw [CreateThreadAndRunRequest.convert, checks_eq_ok]
  constructor
  · rintro ⟨⟨⟩, hmessages, h⟩
    obtain ⟨⟨⟩, hthread, hrun⟩ := checks_eq_ok.mp h
    exact
      { messages := fun message hmem =>
          convertMetadata_eq_ok_iff.mp (forM_eq_ok.mp hmessages message hmem)
        thread := convertMetadata_eq_ok_iff.mp hthread
        run := convertMetadata_eq_ok_iff.mp hrun }
  · intro h
    exact ⟨(), forM_eq_ok.mpr fun message hmem =>
        convertMetadata_eq_ok_iff.mpr (h.messages message hmem),
      checks_eq_ok.mpr ⟨(), convertMetadata_eq_ok_iff.mpr h.thread,
        convertMetadata_eq_ok_iff.mpr h.run⟩⟩

theorem convertMetadata_error {metadata : Option JsonStructs.Struct} {e : Exn}
    (h : convertMetadata metadata = .error e) : ∃ place, e = .undefinedBehaviour place := by
  cases metadata with
  | none => cases h
  | some fields =>
      rw [convertMetadata] at h
      cases hfields : StructConversion.convertStruct fields with
      | error e' =>
          rw [hfields] at h
          obtain rfl := Except.error.inj h
          exact StructConversion.convertStruct_error hfields
      | ok members =>
          rw [hfields] at h
          cases h

theorem convertMessages_error {messages : List CreateMessageRequest} {e : Exn}
    (h : convertMessages messages = .error e) : ∃ place, e = .undefinedBehaviour place := by
  induction messages with
  | nil => cases h
  | cons message messages ih =>
      rcases checks_eq_error.mp h with hmetadata | ⟨⟨⟩, -, hrest⟩
      · exact convertMetadata_error hmetadata
      · exact ih hrest

/-- What is not converted is not thrown for either. -/
theorem convert_error {e : Exn} (h : req.convert = .error e) :
    ∃ place, e = .undefinedBehaviour place := by
  rcases checks_eq_error.mp h with hmessages | ⟨⟨⟩, -, h⟩
  · exact convertMessages_error hmessages
  · rcases checks_eq_error.mp h with hthread | ⟨⟨⟩, -, hrun⟩
    · exact convertMetadata_error hthread
    · exact convertMetadata_error hrun

theorem not_blank_of_checked (id : { id : String // isBlankString id = false }) :
    isBlankString id.val = false := id.property

/-- What the call stores, once the request is checked and the ids are drawn. -/
def CreateThreadAndRunRequest.store (req : CreateThreadAndRunRequest)
    (runId threadId : { id : String // isBlankString id = false }) :
    ServiceM (Option RunObject) := do
  insertOneThread { id := threadId.val, toolResources := (req.thread.getD {}).toolResources }
    (not_blank_of_checked threadId)
  insertNewMessages runId.val threadId.val (req.thread.getD {}).messages
  startRun req.options req.model req.toolResources runId threadId.val req.assistantId

/-- A generated id, which is not blank. -/
def generatedId (kind : String) (number : Nat) : { id : String // isBlankString id = false } :=
  ⟨generateNextObjectId kind number, generateNextObjectId_not_blank kind number⟩

/-- The request is turned down before anything is stored. -/
theorem createThreadAndRun_of_rejected
    (h : req.roles = [] ∨ ¬ PassesCheck false req.roles) :
    Throws (createThreadAndRun req s).1 ∧ (createThreadAndRun req s).2 = s := by
  rw [createThreadAndRun]
  refine Action.bind_elim_liftM (P := fun r => Throws r.1 ∧ r.2 = s)
    (fun e he => ⟨⟨e, rfl, (checks_assertNotBlank _).thrown he⟩, rfl⟩) fun _ _ => ?_
  refine Action.bind_elim_liftM (P := fun r => Throws r.1 ∧ r.2 = s)
    (fun e he => ⟨⟨e, rfl, (checks_assertTrue _).thrown he⟩, rfl⟩) fun _ _ => ?_
  refine Action.bind_elim_liftM (P := fun r => Throws r.1 ∧ r.2 = s)
    (fun e he => ⟨⟨e, rfl, (checks_assertTrue _).thrown he⟩, rfl⟩) fun _ hsize => ?_
  refine Action.bind_elim_liftM (P := fun r => Throws r.1 ∧ r.2 = s)
    (fun e he => ⟨⟨e, rfl, checkMessageSequence_thrown he⟩, rfl⟩) fun _ hsequence => ?_
  exfalso
  rcases h with hempty | hfails
  · have hlength : 0 < (req.thread.getD {}).messages.length := assertTrue_eq_ok.mp hsize
    rw [List.map_eq_nil_iff.mp hempty] at hlength
    exact Nat.lt_irrefl 0 hlength
  · exact hfails ((checkMessageSequence_eq_ok_iff _ _).mp hsequence)

/-- A request that passes is converted, draws two ids and stores the rest. -/
theorem createThreadAndRun_of_passes (hassistant : isBlankString req.assistantId = false)
    (hne : req.roles ≠ []) (hpasses : PassesCheck false req.roles) :
    createThreadAndRun req s = match req.convert with
      | .ok _ => req.store (generatedId "run" s.nextNumber)
          (generatedId "thread" (s.nextNumber + 1)) { s with nextNumber := s.nextNumber + 2 }
      | .error e => (.error e, s) := by
  have hmessages : 0 < (req.thread.getD {}).messages.length := by
    refine List.length_pos_iff.mpr fun hempty => hne ?_
    exact List.map_eq_nil_iff.mpr hempty
  have hthread : req.thread.isSome = true := by
    cases hthread : req.thread with
    | some thread => rfl
    | none =>
        rw [hthread] at hmessages
        exact absurd hmessages (Nat.lt_irrefl 0)
  have hsequence := (checkMessageSequence_eq_ok_iff false (req.thread.getD {}).messages).mpr hpasses
  simp only [createThreadAndRun, assertNotBlank_of hassistant, assertTrue_of hthread,
    assertTrue_of hmessages, hsequence]
  cases req.convert <;> rfl

theorem createThreadAndRun_of_converts (hassistant : isBlankString req.assistantId = false)
    (hne : req.roles ≠ []) (hpasses : PassesCheck false req.roles) (hconverts : req.Converts) :
    createThreadAndRun req s
      = req.store (generatedId "run" s.nextNumber) (generatedId "thread" (s.nextNumber + 1))
        { s with nextNumber := s.nextNumber + 2 } := by
  rw [createThreadAndRun_of_passes hassistant hne hpasses, convert_eq_ok_iff.mpr hconverts]

/-- Where an item of a list stands in the metadata, the call ends in undefined behaviour. -/
theorem createThreadAndRun_of_not_converts (hassistant : isBlankString req.assistantId = false)
    (hne : req.roles ≠ []) (hpasses : PassesCheck false req.roles) (hconverts : ¬ req.Converts) :
    ∃ place, createThreadAndRun req s = (.error (.undefinedBehaviour place), s) := by
  rw [createThreadAndRun_of_passes hassistant hne hpasses]
  cases hconvert : req.convert with
  | ok _ => exact absurd (convert_eq_ok_iff.mp hconvert) hconverts
  | error e =>
      obtain ⟨place, rfl⟩ := convert_error hconvert
      exact ⟨place, rfl⟩

/-- The thread cannot be inserted. -/
theorem store_of_taken {runId threadId : { id : String // isBlankString id = false }}
    (htaken : threadId.val ∈ s.threads.rows.map (·.id)) :
    ∃ e, req.store runId threadId s = (.error e, s) ∧ ∀ place, e ≠ .undefinedBehaviour place := by
  rw [CreateThreadAndRunRequest.store]
  rcases insertRow_cases (·.threads) (fun t s => { s with threads := t })
    (fun now => { id := threadId.val, createdAt := now,
                  toolResources := (req.thread.getD {}).toolResources })
    (fun _ => threadId.property) s with ⟨-, h⟩ | ⟨t, ht, -⟩
  · exact ⟨_, Action.bind_of_error h, nofun⟩
  · exact absurd htaken (Table.fresh_of_insert ht)

/-- The thread is inserted. -/
theorem store_of_free {runId threadId : { id : String // isBlankString id = false }}
    (hfree : threadId.val ∉ s.threads.rows.map (·.id)) :
    ∃ t thread, thread.id = threadId.val ∧ t.rows = s.threads.rows ++ [thread] ∧
      req.store runId threadId s = (do
        insertNewMessages runId.val threadId.val (req.thread.getD {}).messages
        startRun req.options req.model req.toolResources runId threadId.val req.assistantId :
          ServiceM _) { s with threads := t, clock := s.clock + 1 } := by
  rcases insertRow_cases (·.threads) (fun t s => { s with threads := t })
    (fun now => { id := threadId.val, createdAt := now,
                  toolResources := (req.thread.getD {}).toolResources })
    (fun _ => threadId.property) s with ⟨htaken, -⟩ | ⟨t, ht, h⟩
  · exact absurd htaken hfree
  · exact ⟨t, _, rfl, Table.rows_insert ht, Action.bind_of_ok h⟩

/-- Once the thread is stored, it stays. -/
theorem keeps_threads (req : CreateThreadAndRunRequest)
    (runId threadId : { id : String // isBlankString id = false }) :
    Action.Keeps Store.threads (do
      insertNewMessages runId.val threadId.val (req.thread.getD {}).messages
      startRun req.options req.model req.toolResources runId threadId.val req.assistantId :
        ServiceM _) := by
  refine Action.keeps_bind (keeps_insertNewMessages (fun _ _ _ _ => rfl) _ _ _) fun _ s => ?_
  rcases startRun_cases req.options req.model req.toolResources runId threadId.property
    req.assistantId s with ⟨e, -, h⟩ | ⟨-, t, -, h⟩
  · rw [h]
  · rw [h]

/-- Exactly when a request by the rule is stored. -/
theorem stores_iff_of_takeTurns (hassistant : isBlankString req.assistantId = false)
    (hturns : TakeTurns req.roles) :
    (∃ run, (createThreadAndRun req s).1 = .ok (some run) ∧
        StoresRun req s (createThreadAndRun req s).2 run)
      ↔ req.Converts ∧ req.options.HoldsRow req.toolResources ∧ s.FreeIds req.roles.length := by
  have hthrows : ∀ {r : Except Exn (Option RunObject) × Store}, (∃ e s', r = (.error e, s')) →
      ¬ ∃ run, r.1 = .ok (some run) ∧ StoresRun req s r.2 run := by
    rintro _ ⟨e, s', rfl⟩ ⟨run, hrun, -⟩
    cases hrun
  have hlength : req.roles.length = (req.thread.getD {}).messages.length := List.length_map _
  have hne : (req.thread.getD {}).messages ≠ [] := fun h =>
    hturns.ne_nil (List.map_eq_nil_iff.mpr h)
  have hknown : ∀ request ∈ (req.thread.getD {}).messages, IsKnown request.role := fun request h =>
    hturns.isKnown _ (List.mem_map_of_mem h)
  by_cases hconverts : req.Converts
  case neg =>
    obtain ⟨place, h⟩ := createThreadAndRun_of_not_converts (s := s) hassistant hturns.ne_nil
      hturns.passesCheck hconverts
    exact iff_of_false (hthrows ⟨_, _, h⟩) fun hright => hconverts hright.1
  rw [createThreadAndRun_of_converts hassistant hturns.ne_nil hturns.passesCheck hconverts, hlength,
    and_iff_right hconverts]
  by_cases hthread : generateNextObjectId "thread" (s.nextNumber + 1) ∈ s.threads.rows.map (·.id)
  · obtain ⟨e, h⟩ := @store_of_taken req { s with nextNumber := s.nextNumber + 2 }
      (generatedId "run" s.nextNumber) (generatedId "thread" (s.nextNumber + 1)) hthread
    exact iff_of_false (hthrows ⟨e, _, h.1⟩) fun hright => hright.2.thread hthread
  · obtain ⟨t, thread, hid, ht, h⟩ := @store_of_free req { s with nextNumber := s.nextNumber + 2 }
      (generatedId "run" s.nextNumber) (generatedId "thread" (s.nextNumber + 1)) hthread
    rw [h]
    have hruns := keeps_insertNewMessages (f := Store.tasks) (fun _ _ _ _ => rfl)
      (generatedId "run" s.nextNumber).val (generatedId "thread" (s.nextNumber + 1)).val
      (req.thread.getD {}).messages
      { s with nextNumber := s.nextNumber + 2, threads := t, clock := s.clock + 1 }
    have hthreads := keeps_insertNewMessages (f := Store.threads) (fun _ _ _ _ => rfl)
      (generatedId "run" s.nextNumber).val (generatedId "thread" (s.nextNumber + 1)).val
      (req.thread.getD {}).messages
      { s with nextNumber := s.nextNumber + 2, threads := t, clock := s.clock + 1 }
    rcases insertNewMessages_cases hne (generatedId "run" s.nextNumber).property
      (generatedId "thread" (s.nextNumber + 1)).property hknown
      { s with nextNumber := s.nextNumber + 2, threads := t, clock := s.clock + 1 } with
      ⟨htaken, e, s', hmessages⟩ | ⟨hfree, s', stored, hmessages, hrows, hstored⟩
    · rw [Action.bind_of_error hmessages]
      exact iff_of_false (hthrows ⟨e, s', rfl⟩) fun hright => htaken hright.2.messages
    · rw [hmessages] at hruns hthreads
      obtain ⟨hruns, -⟩ := Prod.mk.inj hruns
      rw [Action.bind_of_ok hmessages]
      rcases startRun_cases req.options req.model req.toolResources
        (generatedId "run" s.nextNumber) (generatedId "thread" (s.nextNumber + 1)).property
        req.assistantId s' with ⟨e, htaken, hstart⟩ | ⟨hholds, t', ht', hstart⟩
      · rw [hstart]
        refine iff_of_false (hthrows ⟨e, s', rfl⟩) fun hright => ?_
        have hmem := htaken hright.1
        rw [hruns] at hmem
        exact hright.2.run hmem
      · rw [hstart]
        have hrun := Table.fresh_of_insert ht'
        rw [hruns] at hrun
        refine iff_of_true ⟨_, rfl, ?_⟩ ⟨hholds, hrun, hthread, hfree⟩
        exact
          { thread := ⟨thread, hid, (congrArg Table.rows hthreads).trans ht⟩
            messages := ⟨stored, hrows, hstored⟩
            runs := (Table.rows_insert ht').trans (congrArg (fun t => t.rows ++ _) hruns)
            queued := rfl }

/-- Exactly when a request against the rule leaves nothing. -/
theorem throws_iff_of_not_takeTurns (hassistant : isBlankString req.assistantId = false) :
    (Throws (createThreadAndRun req s).1 ∧
        (createThreadAndRun req s).2.threads.rows = s.threads.rows ∧
        (createThreadAndRun req s).2.messages.rows = s.messages.rows ∧
        (createThreadAndRun req s).2.runs.rows = s.runs.rows)
      ↔ req.roles = [] ∨ ¬ PassesCheck false req.roles ∨ (req.Converts ∧
        generateNextObjectId "thread" (s.nextNumber + 1) ∈ s.threads.rows.map (·.id)) := by
  by_cases hrejected : req.roles = [] ∨ ¬ PassesCheck false req.roles
  · obtain ⟨hthrows, hsame⟩ := createThreadAndRun_of_rejected (s := s) hrejected
    rw [hsame]
    exact iff_of_true ⟨hthrows, rfl, rfl, rfl⟩ (or_assoc.mp (.inl hrejected))
  · obtain ⟨hne, hpasses⟩ := not_or.mp hrejected
    by_cases hconverts : req.Converts
    case neg =>
      obtain ⟨place, h⟩ := createThreadAndRun_of_not_converts (s := s) hassistant hne
        (not_not.mp hpasses) hconverts
      rw [h]
      refine iff_of_false (fun hleft => ?_) fun hright => ?_
      · obtain ⟨e, he, hthrown⟩ := hleft.1
        exact hthrown place (Except.error.inj he).symm
      · rcases hright with hempty | hfails | hboth
        · exact hne hempty
        · exact hpasses hfails
        · exact hconverts hboth.1
    rw [createThreadAndRun_of_converts hassistant hne (not_not.mp hpasses) hconverts]
    by_cases hthread : generateNextObjectId "thread" (s.nextNumber + 1) ∈ s.threads.rows.map (·.id)
    · obtain ⟨e, h, hthrown⟩ := @store_of_taken req { s with nextNumber := s.nextNumber + 2 }
        (generatedId "run" s.nextNumber) (generatedId "thread" (s.nextNumber + 1)) hthread
      rw [h]
      exact iff_of_true ⟨⟨e, rfl, hthrown⟩, rfl, rfl, rfl⟩ (.inr (.inr ⟨hconverts, hthread⟩))
    · obtain ⟨t, thread, -, ht, h⟩ := @store_of_free req { s with nextNumber := s.nextNumber + 2 }
        (generatedId "run" s.nextNumber) (generatedId "thread" (s.nextNumber + 1)) hthread
      rw [h]
      refine iff_of_false (fun hleft => ?_) fun hright => ?_
      · -- whatever follows, the thread is there
        have hthreads := keeps_threads req (generatedId "run" s.nextNumber)
          (generatedId "thread" (s.nextNumber + 1))
          { s with nextNumber := s.nextNumber + 2, threads := t, clock := s.clock + 1 }
        have hrows : s.threads.rows ++ [thread] = s.threads.rows :=
          ht.symm.trans ((congrArg Table.rows hthreads).symm.trans hleft.2.1)
        exact List.cons_ne_nil _ _ (List.append_right_eq_self.mp hrows)
      · rcases hright with hempty | hfails | hboth
        · exact hne hempty
        · exact hpasses hfails
        · exact hthread hboth.2

end CreateThreadAndRun

/-- **All or nothing.**  A request that follows the rule is stored as a whole if and only if its
metadata can be converted, the table of runs can hold its row and the ids are free.  Every other
request throws and leaves no trace if and only if it has no messages, the check turns it down, or
it can be converted and the id of the thread is taken. -/
theorem createThreadAndRun_right_iff (req : CreateThreadAndRunRequest) (s : Store)
    (hassistant : isBlankString req.assistantId = false) :
    CreatesThreadAndRun req s (createThreadAndRun req s)
      ↔ (TakeTurns req.roles →
          req.Converts ∧ req.options.HoldsRow req.toolResources ∧ s.FreeIds req.roles.length) ∧
        (¬ TakeTurns req.roles → req.roles = [] ∨ ¬ PassesCheck false req.roles ∨ (req.Converts ∧
          generateNextObjectId "thread" (s.nextNumber + 1) ∈ s.threads.rows.map (·.id))) :=
  and_congr (imp_congr_right (stores_iff_of_takeTurns hassistant))
    (imp_congr_right fun _ => throws_iff_of_not_takeTurns hassistant)

/-- A request with messages of these roles. -/
def threadRequest (roles : List MessageRole) : CreateThreadAndRunRequest :=
  { assistantId := "asst_1"
    thread := some { messages := roles.map fun role => { role := role, content := "hi" } } }

/-- One user message is stored with a thread and a run. -/
theorem createThreadAndRun_right_user :
    CreatesThreadAndRun (threadRequest [.user]) {}
      (createThreadAndRun (threadRequest [.user]) {}) := by
  have hturns : TakeTurns (threadRequest [.user]).roles := ⟨rfl, rfl, List.isChain_singleton _⟩
  refine (createThreadAndRun_right_iff _ _ (by decide)).mpr ⟨fun _ => ?_, fun h => absurd hturns h⟩
  have hconverts : (threadRequest [.user]).Converts :=
    ⟨List.forall_mem_singleton.mpr nofun, nofun, nofun⟩
  exact ⟨hconverts, ⟨rfl, by decide, by decide⟩, by simp, by simp, fun _ _ => by simp⟩

/-- A sequence that ends with the assistant is stored. -/
theorem createThreadAndRun_ends_with_assistant :
    ¬ ∀ (req : CreateThreadAndRunRequest) (s : Store), isBlankString req.assistantId = false →
      CreatesThreadAndRun req s (createThreadAndRun req s) := by
  intro h
  have hnot : ¬ TakeTurns (threadRequest [.user, .assistant]).roles := fun h =>
    absurd h.last (by decide)
  have hassistant : isBlankString (threadRequest [.user, .assistant]).assistantId = false := by
    decide
  have hthrows := (h (threadRequest [.user, .assistant]) {} hassistant).2 hnot
  rcases (throws_iff_of_not_takeTurns hassistant).mp hthrows with hempty | hfails | ⟨-, htaken⟩
  · cases hempty
  · refine hfails (passesCheck_cons.mpr ⟨⟨fun _ => rfl, nofun⟩, ?_⟩)
    exact passesCheck_cons.mpr ⟨⟨nofun, fun _ => rfl⟩, nofun, List.isChain_nil⟩
  · cases htaken

end Instinct
