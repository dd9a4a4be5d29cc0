/-
Instinct/Provisioning.lean

Clients that create vector stores, files and file batches, and workers that take
the tasks of files, in any interleaving.

`CreateVectorStore` submits the tasks of the files before it provisions the
instance, so that a worker may ask for a retriever that is not there yet.
`retriever_is_provisioned` says when this cannot happen: the tasks are taken only
once the instances of their vector stores are there.
-/
import Instinct.Pools
import Instinct.Transitions
import Instinct.VectorStoreCalls

namespace Instinct

open Effects Tables Transitions

/-! ### The system -/

/-- A client calls one of the create functions, a worker takes a task from some position of the
queue, or a client or a worker makes its next call. -/
inductive ProvisioningEvent
  | createVectorStore (req : CreateVectorStoreRequest)
  | createVectorStoreFile (req : CreateVectorStoreFileRequest)
  | createVectorStoreFileBatch (req : CreateVectorStoreFileBatchRequest)
  | take (position : Nat)
  | advance (i : Nat) (outside : FileOutside)

/-- A client does not look at what its call returns. -/
def client {α : Type} (p : VectorStoreM α) : VectorStoreM Unit := p.bind fun _ => .ret ()

/-- The state after an event. -/
def provisioningStep (config : FileHandlerConfig) (pool : Pool Exn Store VectorStoreCall.Res) :
    ProvisioningEvent → Option (Pool Exn Store VectorStoreCall.Res)
  | .createVectorStore req => some (pool.spawn (client (createVectorStore req)))
  | .createVectorStoreFile req => some (pool.spawn (client (createVectorStoreFile req)))
  | .createVectorStoreFileBatch req => some (pool.spawn (client (createVectorStoreFileBatch req)))
  | .take position => do
      let file ← pool.store.fileQueue[position]?
      let queue := pool.store.fileQueue.eraseIdx position
      some (({ pool with store := { pool.store with fileQueue := queue } }).spawn
        (FileObjectTaskHandler.handle config file))
  | .advance i outside => pool.advance (VectorStoreCall.exec config outside) i

/-- Every worker that is about to get a retriever gets it. -/
def RetrieversAreThere (pool : Pool Exn Store VectorStoreCall.Res) : Prop :=
  ∀ p ∈ pool.threads, ∀ vectorStoreId, p.next? = some (.getStatefulRetriever vectorStoreId) →
    (getStatefulRetriever vectorStoreId pool.store).1 = .ok ()

/-- A task is taken only once the instance of its vector store is there. -/
def ProvisioningEvent.TakesProvisioned (pool : Pool Exn Store VectorStoreCall.Res) :
    ProvisioningEvent → Prop
  | .take position => ∀ file ∈ pool.store.fileQueue[position]?,
      file.vectorStoreId ∈ pool.store.vectorStoreInstances
  | _ => True

instance (pool : Pool Exn Store VectorStoreCall.Res) (event : ProvisioningEvent) :
    Decidable (event.TakesProvisioned pool) := by
  cases event <;> unfold ProvisioningEvent.TakesProvisioned <;> infer_instance

/-! ### Which calls get a retriever -/

/-- A vector store that is found has the id that was asked for, which is not blank. -/
def FindsById : (call : VectorStoreCall) → Except Exn call.Res → Prop
  | .getVectorStore vectorStoreId, .ok (some vectorStore) =>
      vectorStore.id = vectorStoreId ∧ isBlankString vectorStoreId = false
  | _, _ => True

/-- The call gets a retriever only where there is one. -/
def FindsRetriever (s : Store) (call : VectorStoreCall) : Prop :=
  ∀ vectorStoreId, call = .getStatefulRetriever vectorStoreId →
    (getStatefulRetriever vectorStoreId s).1 = .ok ()

/-- What every thread satisfies: whatever vector store it finds, it gets only retrievers that
are there. -/
def ThreadOk (s : Store) (p : VectorStoreM Unit) : Prop := p.CallsIf FindsById (FindsRetriever s)

section Calls

variable {config : FileHandlerConfig} {outside : FileOutside} {s s' : Store}
variable {call : VectorStoreCall}

theorem findsById_exec : FindsById call (call.exec config outside s).1 := by
  cases call with
  | getVectorStore vectorStoreId =>
      rcases e : VectorStoreCall.exec config outside (.getVectorStore vectorStoreId) s with
        ⟨found | found, t⟩
      · trivial
      · cases found with
        | none => trivial
        | some vectorStore =>
            -- the answer is the row, with its file counts
            obtain ⟨row, t, hrow, e⟩ := Action.ok_of_bind e
            obtain ⟨hfind, rfl⟩ := Prod.mk.inj hrow
            cases row with
            | none => simp at e
            | some row =>
                obtain ⟨counts, t, -, e⟩ := Action.ok_of_bind e
                obtain rfl := Option.some.inj (Except.ok.inj (Prod.mk.inj e).1)
                have hrow := Except.ok.inj hfind
                have hid : row.id = vectorStoreId := by
                  simpa only [decide_eq_true_eq] using List.find?_some hrow
                exact ⟨hid, hid ▸ s.vectorStores.valid row (List.mem_of_find?_eq_some hrow)⟩
  | _ => trivial

/-- Instances are never given up. -/
theorem instances_subset_exec : s.vectorStoreInstances ⊆
    (call.exec config outside s).2.vectorStoreInstances := by
  have hsame : (∀ id, call ≠ .provisionRetriever id) → s.vectorStoreInstances ⊆
      (call.exec config outside s).2.vectorStoreInstances := fun h =>
    (exec_instances h s).symm ▸ List.Subset.refl _
  cases call with
  | provisionRetriever vectorStoreId =>
      -- provisioning adds an instance, or finds it there
      refine Action.bind_elim_liftM (P := fun r : Except Exn Unit × Store =>
        s.vectorStoreInstances ⊆ r.2.vectorStoreInstances)
          (fun _ _ => List.Subset.refl _) fun _ _ => ?_
      rw [Action.bind_of_ok (show Action.gets _ s = (.ok s.vectorStoreInstances, s) from rfl)]
      refine Action.bind_elim_liftM (P := fun r : Except Exn Unit × Store =>
        s.vectorStoreInstances ⊆ r.2.vectorStoreInstances)
          (fun _ _ => List.Subset.refl _) fun _ _ => ?_
      exact List.subset_append_left _ _
  | _ => exact hsame nofun

/-- Retrievers that are there stay there. -/
theorem FindsRetriever.mono (h : FindsRetriever s call)
    (hinstances : s.vectorStoreInstances ⊆ s'.vectorStoreInstances) : FindsRetriever s' call := by
  intro vectorStoreId hcall
  obtain ⟨hblank, hmem⟩ := getStatefulRetriever_ok_iff.mp (h vectorStoreId hcall)
  exact getStatefulRetriever_ok_iff.mpr ⟨hblank, hinstances hmem⟩

theorem ThreadOk.mono {p : VectorStoreM Unit} (h : ThreadOk s p)
    (hinstances : s.vectorStoreInstances ⊆ s'.vectorStoreInstances) : ThreadOk s' p :=
  Program.callsIf_mono h fun _ hcall => hcall.mono hinstances

/-! ### Clients -/

/-- A client that never gets a retriever. -/
theorem threadOk_client {α : Type} {p : VectorStoreM α}
    (h : p.Calls fun call => ∀ vectorStoreId, call ≠ .getStatefulRetriever vectorStoreId) :
    ThreadOk s (client p) := by
  refine Program.callsIf_of_calls (Program.calls_bind (Program.calls_mono h ?_) fun _ => trivial)
  exact fun call hne vectorStoreId hcall => absurd hcall (hne vectorStoreId)

theorem threadOk_createVectorStore (req : CreateVectorStoreRequest) :
    ThreadOk s (client (createVectorStore req)) := by
  refine threadOk_client ((Program.calls_perform_bind _ _).mpr ⟨nofun, fun pk => ?_⟩)
  -- what follows the insertion, with files or without
  have hrest : ((request (.getVectorStore pk)).bind fun found =>
      (liftM (assertValue found "should have found created VectorStore") : VectorStoreM _).bind
        fun vectorStore => (request (.provisionRetriever vectorStore.id)).bind fun _ =>
          .ret (some vectorStore)).Calls
      fun call => ∀ vectorStoreId, call ≠ .getStatefulRetriever vectorStoreId := by
    refine (Program.calls_perform_bind _ _).mpr ⟨nofun, fun found => ?_⟩
    refine Program.calls_bind (Program.calls_ofExcept _) fun vectorStore => ?_
    exact (Program.calls_perform_bind _ _).mpr ⟨nofun, fun _ => trivial⟩
  split
  · refine (Program.calls_perform_bind _ _).mpr ⟨nofun, fun _ => ?_⟩
    refine (Program.calls_perform_bind _ _).mpr ⟨nofun, fun files => ?_⟩
    refine Program.calls_bind (Program.calls_forM fun file _ => ?_) fun _ => hrest
    exact (Program.calls_perform _).mpr nofun
  · exact hrest

theorem threadOk_createVectorStoreFile (req : CreateVectorStoreFileRequest) :
    ThreadOk s (client (createVectorStoreFile req)) := by
  refine threadOk_client (Program.calls_bind (Program.calls_ofExcept _) fun _ => ?_)
  refine Program.calls_bind (Program.calls_ofExcept _) fun _ => ?_
  refine (Program.calls_perform_bind _ _).mpr ⟨nofun, fun count => ?_⟩
  refine Program.calls_bind (Program.calls_ofExcept _) fun _ => ?_
  refine (Program.calls_perform_bind _ _).mpr ⟨nofun, fun found => ?_⟩
  cases found with
  | none => trivial
  | some file => exact (Program.calls_perform_bind _ _).mpr ⟨nofun, fun _ => trivial⟩

theorem threadOk_createVectorStoreFileBatch (req : CreateVectorStoreFileBatchRequest) :
    ThreadOk s (client (createVectorStoreFileBatch req)) := by
  refine threadOk_client (Program.calls_bind (Program.calls_ofExcept _) fun _ => ?_)
  refine Program.calls_bind (Program.calls_ofExcept _) fun _ => ?_
  refine (Program.calls_perform_bind _ _).mpr ⟨nofun, fun pk => ?_⟩
  refine (Program.calls_perform_bind _ _).mpr ⟨nofun, fun _ => ?_⟩
  refine (Program.calls_perform_bind _ _).mpr ⟨nofun, fun files => ?_⟩
  refine Program.calls_bind (Program.calls_forM fun file _ => ?_) fun _ => ?_
  · exact (Program.calls_perform _).mpr nofun
  · exact (Program.calls_perform _).mpr nofun

/-! ### Workers -/

variable {file : VectorStoreFileObject}

/-- The retriever that the handler gets is that of the vector store of its file. -/
theorem callsIf_ingestFile (h : file.vectorStoreId ∈ s.vectorStoreInstances) :
    (ingestFile config file).CallsIf FindsById (FindsRetriever s) := by
  have hrest : ∀ {α : Type} (r : Except Exn α),
      (liftM r : VectorStoreM α).CallsIf FindsById (FindsRetriever s) := fun r =>
    Program.callsIf_of_calls (Program.calls_ofExcept r)
  refine Program.callsIf_perform_bind nofun fun found hfound => ?_
  cases found with
  | none => trivial
  | some vectorStore =>
      -- the vector store was found by its id, so its retriever is asked for by the same id
      obtain ⟨hid, hblank⟩ := hfound
      refine Program.callsIf_perform_bind nofun fun fileObject? _ => ?_
      refine Program.callsIf_bind (hrest _) fun fileObject => ?_
      refine Program.callsIf_perform_bind nofun fun _ _ => ?_
      refine Program.callsIf_perform_bind nofun fun ingestor? _ => ?_
      refine Program.callsIf_bind (hrest _) fun ingestor => ?_
      refine Program.callsIf_perform_bind (fun vectorStoreId hcall => ?_) fun _ _ => ?_
      · obtain rfl := VectorStoreCall.getStatefulRetriever.inj hcall
        rw [hid]
        exact getStatefulRetriever_ok_iff.mpr ⟨hblank, h⟩
      · refine Program.callsIf_perform_bind nofun fun _ _ => ?_
        refine Program.callsIf_perform_bind nofun fun docs _ => ?_
        exact Program.callsIf_of_calls ((Program.calls_perform _).mpr nofun)

theorem threadOk_handle (h : file.vectorStoreId ∈ s.vectorStoreInstances) :
    ThreadOk s (FileObjectTaskHandler.handle config file) := by
  refine Program.callsIf_bind (Program.callsIf_of_calls (calls_checkVectorStoreFileOk nofun))
    fun ok => ?_
  show Program.CallsIf _ _ (if ok = true then (request _).bind _ else _)
  split
  · refine Program.callsIf_perform_bind nofun fun modified _ => ?_
    refine Program.callsIf_bind (Program.callsIf_of_calls (Program.calls_ofExcept _)) fun _ => ?_
    refine Program.callsIf_bind ?_ fun result => Program.callsIf_of_calls ?_
    · -- the attempt: the ingestion is the only part that asks for a retriever
      refine Program.callsIf_tryCatch (Program.callsIf_bind (callsIf_ingestFile h) fun _ => ?_)
        fun e => ?_
      · trivial
      · cases e <;> trivial
    · -- what follows asks for none
      refine calls_finishFile ?_ (fun call hbatch => ?_) result ?_
      · nofun
      · cases call with
        | getStatefulRetriever vectorStoreId => simp [VectorStoreCall.aboutBatches] at hbatch
        | _ => nofun
      · nofun
  · trivial

end Calls

/-! ### Runs -/

section Runs

variable {config : FileHandlerConfig} {pool pool' : Pool Exn Store VectorStoreCall.Res}
variable {event : ProvisioningEvent}

/-- **Step lemma.**  Every event keeps what all threads satisfy, unless a worker takes a task
too early. -/
theorem threadsOk_step (h : pool.All ThreadOk) (hok : event.TakesProvisioned pool)
    (hstep : provisioningStep config pool event = some pool') : pool'.All ThreadOk := by
  cases event with
  | createVectorStore req =>
      obtain rfl := Option.some.inj hstep
      exact h.spawn (threadOk_createVectorStore req)
  | createVectorStoreFile req =>
      obtain rfl := Option.some.inj hstep
      exact h.spawn (threadOk_createVectorStoreFile req)
  | createVectorStoreFileBatch req =>
      obtain rfl := Option.some.inj hstep
      exact h.spawn (threadOk_createVectorStoreFileBatch req)
  | take position =>
      obtain ⟨file, hfile, hstep⟩ := Option.bind_eq_some_iff.mp hstep
      obtain rfl := Option.some.inj hstep
      -- the queue is not what the threads look at
      have htaken : ({ pool with store := { pool.store with
          fileQueue := pool.store.fileQueue.eraseIdx position } } :
            Pool Exn Store VectorStoreCall.Res).All ThreadOk :=
        h.of_store fun _ hp => hp.mono (List.Subset.refl _)
      exact htaken.spawn (threadOk_handle (hok file hfile))
  | advance i outside =>
      -- the answer of the call for the thread itself, more instances for the others
      refine Pool.All.advance h hstep (fun call k hself => ?_) fun call k p _ hp => ?_
      · exact ThreadOk.mono (hself.2 _ findsById_exec) instances_subset_exec
      · exact hp.mono instances_subset_exec

theorem retrieversAreThere_of_threadsOk (h : pool.All ThreadOk) : RetrieversAreThere pool := by
  intro p hp vectorStoreId hnext
  have hok := h p hp
  cases p with
  | call op k =>
      obtain rfl := Option.some.inj hnext
      exact hok.1 vectorStoreId rfl
  | _ => simp [Program.next?] at hnext

end Runs

/-- **Retrievers are provisioned in time.**  In every run in which the tasks of files are taken
only once the instances of their vector stores are there, every worker that is about to get a
retriever gets it. -/
theorem retriever_is_provisioned (config : FileHandlerConfig) (s : Store)
    (pool : Pool Exn Store VectorStoreCall.Res)
    (h : Runs (provisioningStep config) (fun pool event => event.TakesProvisioned pool)
      { store := s } pool) : RetrieversAreThere pool := by
  have hinitial : ({ store := s } : Pool Exn Store VectorStoreCall.Res).All ThreadOk := nofun
  exact retrieversAreThere_of_threadsOk
    (h.invariant (fun _ _ _ hi hok hstep => threadsOk_step hi hok hstep) hinitial)

/-- A client creates a vector store of one file. -/
def createWithFile : ProvisioningEvent :=
  .createVectorStore { name := "docs", fileIds := ["file_1"] }

/-- A world in which the file is there and can be read. -/
def readableFile : FileOutside where
  retrieveFile fileId :=
    .ok (some { id := fileId, bytes := 4, filename := "a.txt", purpose := .assistants })
  createIngestor _ := .ok (some { filePath := "/tmp/a.txt", pages := ["text"] })

/-- A client has made some calls, and no task is taken yet. -/
def afterClient (calls : Nat) : Pool Exn Store VectorStoreCall.Res :=
  (execute (provisioningStep { retriever := wholeTexts })
    (createWithFile :: List.replicate calls (.advance 0 readableFile)) { store := {} }).getD
      { store := {} }

/-- A worker has taken the task then, and made some calls. -/
def afterWorker (clientCalls workerCalls : Nat) : Pool Exn Store VectorStoreCall.Res :=
  (execute (provisioningStep { retriever := wholeTexts })
    (.take 0 :: List.replicate workerCalls (.advance 1 readableFile))
      (afterClient clientCalls)).getD (afterClient clientCalls)

/-- The client provisions the instance before the worker takes the task: the worker, about to
get a retriever, gets it. -/
theorem retriever_is_provisioned_after_client :
    RetrieversAreThere (afterWorker 6 6) ∧
      (afterWorker 6 6).threads.any fun p => p.next? = some (.getStatefulRetriever "vs_1") := by
  have hadvance : ∀ (n i : Nat) (pool : Pool Exn Store VectorStoreCall.Res),
      ∀ event ∈ List.replicate n (ProvisioningEvent.advance i readableFile),
        event.TakesProvisioned pool :=
    fun n i pool event hevent => List.eq_of_mem_replicate hevent ▸ trivial
  -- the client runs to its end first
  have hclient : Runs (provisioningStep { retriever := wholeTexts })
      (fun pool event => event.TakesProvisioned pool) { store := {} } (afterClient 6) :=
    .head ⟨createWithFile, trivial, rfl⟩ (runs_of_execute (hadvance 6 0) rfl)
  have htake : Runs (provisioningStep { retriever := wholeTexts })
      (fun pool event => event.TakesProvisioned pool) { store := {} } (afterWorker 6 0) :=
    hclient.tail ⟨.take 0, by decide, rfl⟩
  exact ⟨retriever_is_provisioned { retriever := wholeTexts } {} _
    (htake.trans (runs_of_execute (hadvance 6 1) rfl)), rfl⟩

/-- The worker takes the task before the client provisions the instance: there is no
retriever. -/
theorem retriever_is_missing :
    ¬ ∀ config s pool, Reaches (provisioningStep config) { store := s } pool →
      RetrieversAreThere pool := by
  intro h
  -- the client has enqueued the file, but not provisioned the vector store yet
  have hclient : Reaches (provisioningStep { retriever := wholeTexts }) { store := {} }
      (afterClient 4) :=
    @runs_of_execute _ _ _ _ _ _ (createWithFile :: List.replicate 4 (.advance 0 readableFile))
      (fun _ _ _ => trivial) rfl
  -- a worker takes the task and comes to the ingestion
  have hworker : Reaches (provisioningStep { retriever := wholeTexts }) (afterClient 4)
      (afterWorker 4 6) :=
    @runs_of_execute _ _ _ _ _ _ (.take 0 :: List.replicate 6 (.advance 1 readableFile))
      (fun _ _ _ => trivial) rfl
  have hany : ((afterWorker 4 6).threads.any fun p =>
      p.next? = some (.getStatefulRetriever "vs_1")) = true := rfl
  obtain ⟨p, hp, hnext⟩ := List.any_eq_true.mp hany
  have hthere := h { retriever := wholeTexts } {} _ (hclient.trans hworker) p hp "vs_1"
    (of_decide_eq_true hnext)
  exact absurd hthere (by decide)

end Instinct
