/-
Instinct/StepFunctions.lean

Step functions: `StepFunctions.hpp`, and the pipe of `Xn.hpp`.

A step is called with a pointer to a context that others may share.  It may write to this
context, and it returns the same pointer, one to a new context, or null.  `invoke` follows the
code on the memory of contexts; `evaluate` says what a step does to the value of its context.
`invoke_refines_evaluate`: a step does what its evaluation says, and leaves every other context
as it is.

* A chain of pipes runs the steps it is made of in their order, however it is bracketed
  (`pipeline_invoke`).
* A mapping passes through a hash map.  Steps whose functions only read have the same results
  in every order (`invoke_order_irrelevant`).
-/
import Instinct.Cells
import Instinct.JsonContexts

namespace Instinct.StepFunctions

open Cells Effects JsonContexts SortedMaps

variable {σ : Type}

/-! ### Contexts -/

/-- An order of hash maps that depends on the keys alone. -/
structure KeyOrder extends HashOrder where
  natural : ∀ {α β : Type} (f : α → β) (m : List (String × α)),
    order (m.map fun e => (e.1, f e.2)) = (order m).map fun e => (e.1, f e.2)

/-- The entries as they were inserted. -/
def KeyOrder.ofInsertion : KeyOrder := ⟨.ofInsertion, fun _ _ => rfl⟩

/-- The last inserted entry first. -/
def KeyOrder.reversed : KeyOrder :=
  ⟨⟨List.reverse, List.reverse_perm⟩, fun _ _ => List.map_reverse.symm⟩

/-- A null pointer is dereferenced. -/
def nullContext : Exn := .undefinedBehaviour "null JSONContextPtr"

/-- `IsPrimitive`. -/
def isPrimitive : Json → Bool
  | .array _ | .object _ => false
  | _ => true

/-- `RequirePrimitive<bool>`. -/
def requireBool (data : Json) : Except Exn Bool := do
  assertTrue (isPrimitive data = true) "expecting a primitive value"
  match data with
  | .boolean b => pure b
  | _ => .error (.other "type must be boolean")

/-- `RequirePrimitive<std::string>`. -/
def requireString (data : Json) : Except Exn String := do
  assertTrue (isPrimitive data = true) "expecting a primitive value"
  match data with
  | .string s => pure s
  | _ => .error (.other "type must be string")

/-! ### Steps -/

/-- `StepLambda`: a function that uses no context but the one that it is called with.  The state
`σ` is what it shares with others besides. -/
abbrev StepLambda (σ : Type) := CellFunction Exn Json σ

/-- `BaseStepFunction`.  A sequence and a mapping have at least one step. -/
inductive StepFunction (σ : Type)
  | sequence (first : StepFunction σ) (rest : List (StepFunction σ))
  | mapping (key : String) (step : StepFunction σ) (rest : List (String × StepFunction σ))
  | passthrough
  | selection (variableName : String)
  | lambda (fn : StepLambda σ)
  | branch (condition branchA branchB : StepFunction σ)

/-- The constructor of `SequenceStepFunction`. -/
def sequenceStepFunction (steps : List (Option (StepFunction σ))) :
    Except Exn (StepFunction σ) :=
  match steps.reduceOption with
  | first :: rest => .ok (.sequence first rest)
  | [] => .error (.client "Steps cannot be empty")

/-- The constructor of `MappingStepFunction`. -/
def mappingStepFunction : List (String × StepFunction σ) → Except Exn (StepFunction σ)
  | (key, step) :: rest => .ok (.mapping key step rest)
  | [] => .error (.client "Steps cannot be empty")

/-- `SelectionStepFunction::Invoke`: `mapping_data[variable_name_]` is null for a missing key. -/
def select (variableName : String) : StepLambda σ := fun (data, w) =>
  match getMappingObject data with
  | .error e => (.error e, data, w)
  | .ok mapping =>
      match mapping.find? fun e => e.1 = variableName with
      | some e => (.ok (.fresh e.2), data, w)
      | none => (.ok .null, data, w)

section Invoke

variable (hash : HashOrder)

mutual

/-- `Invoke`, on the contexts behind the pointers. -/
def StepFunction.invoke : StepFunction σ → PointerFunction Exn Json σ
  | .sequence first rest => fun input => first.invoke input >>= invokeAll rest
  | .mapping key step rest =>
      gather nullContext (hash.order ((key, step.invoke) :: invokeEntries rest))
        (putMappingObject hash)
  | .passthrough => fun input => pure input
  | .selection variableName => call nullContext (select variableName)
  | .lambda fn => call nullContext fn
  | .branch condition branchA branchB =>
      choose nullContext condition.invoke requireBool branchA.invoke branchB.invoke

/-- The loop over the steps of a sequence. -/
def invokeAll : List (StepFunction σ) → PointerFunction Exn Json σ
  | [] => fun input => pure input
  | step :: rest => fun input => step.invoke input >>= invokeAll rest

def invokeEntries : List (String × StepFunction σ) → List (String × PointerFunction Exn Json σ)
  | [] => []
  | (key, step) :: rest => (key, step.invoke) :: invokeEntries rest

end

mutual

/-- What a step does, seen from the value of its context. -/
def StepFunction.evaluate : StepFunction σ → View Exn Json σ
  | .sequence first rest => first.evaluate.andThen (evaluateAll rest)
  | .mapping key step rest =>
      .gather nullContext (hash.order ((key, step.evaluate) :: evaluateEntries rest))
        (putMappingObject hash)
  | .passthrough => fun s => (.ok .same, s)
  | .selection variableName => .ofCell nullContext (select variableName)
  | .lambda fn => .ofCell nullContext fn
  | .branch condition branchA branchB =>
      condition.evaluate.choose nullContext requireBool branchA.evaluate branchB.evaluate

def evaluateAll : List (StepFunction σ) → View Exn Json σ
  | [] => fun s => (.ok .same, s)
  | step :: rest => step.evaluate.andThen (evaluateAll rest)

def evaluateEntries : List (String × StepFunction σ) → List (String × View Exn Json σ)
  | [] => []
  | (key, step) :: rest => (key, step.evaluate) :: evaluateEntries rest

end

end Invoke

/-! ### Pipes -/

/-- The steps that the pipe takes over from an operand; null has none. -/
def stepsOf : Option (StepFunction σ) → List (StepFunction σ)
  | some (.sequence first rest) => first :: rest
  | some step => [step]
  | none => []

/-- `operator|`. -/
def pipe (first second : Option (StepFunction σ)) : StepFunction σ :=
  match stepsOf first ++ stepsOf second with
  | step :: steps => .sequence step steps
  | [] => .passthrough

/-- A chain of pipes, from left to right. -/
def pipes (first : StepFunction σ) (rest : List (StepFunction σ)) : StepFunction σ :=
  rest.foldl (fun piped step => pipe (some piped) (some step)) first

/-- An expression of pipes over steps, some of them null. -/
inductive Pipeline (σ : Type)
  | leaf (step : Option (StepFunction σ))
  | pipe (first second : Pipeline σ)

/-- The step that the expression makes. -/
def Pipeline.build : Pipeline σ → Option (StepFunction σ)
  | .leaf step => step
  | .pipe first second => some (StepFunctions.pipe first.build second.build)

/-- The steps in an expression that are not null, in their order. -/
def Pipeline.steps : Pipeline σ → List (StepFunction σ)
  | .leaf step => step.toList
  | .pipe first second => first.steps ++ second.steps

section Pipes

variable {hash : HashOrder}

theorem invokeAll_append (steps steps' : List (StepFunction σ)) (input : Pointer) :
    invokeAll hash (steps ++ steps') input
      = invokeAll hash steps input >>= invokeAll hash steps' := by
  induction steps generalizing input with
  | nil => rfl
  | cons step steps ih =>
      show step.invoke hash input >>= invokeAll hash (steps ++ steps')
        = (step.invoke hash input >>= invokeAll hash steps) >>= invokeAll hash steps'
      rw [Action.bind_assoc]
      exact congrArg (step.invoke hash input >>= ·) (funext ih)

theorem invokeAll_stepsOf (step : StepFunction σ) :
    invokeAll hash (stepsOf (some step)) = step.invoke hash := by
  have hsingle (step : StepFunction σ) : invokeAll hash [step] = step.invoke hash :=
    funext fun input => Action.bind_pure (step.invoke hash input)
  cases step with
  | sequence first rest => rfl
  | _ => exact hsingle _

theorem pipe_invoke (first second : Option (StepFunction σ)) :
    (pipe first second).invoke hash = invokeAll hash (stepsOf first ++ stepsOf second) := by
  rw [pipe]
  rcases stepsOf first ++ stepsOf second with - | ⟨step, steps⟩ <;> rfl

/-- What the pipe takes over from an expression runs the steps that are in it. -/
theorem invokeAll_stepsOf_build (e : Pipeline σ) :
    invokeAll hash (stepsOf e.build) = invokeAll hash e.steps := by
  induction e with
  | leaf step =>
      cases step with
      | none => rfl
      | some step =>
          rw [Pipeline.build, invokeAll_stepsOf]
          exact (funext fun input => Action.bind_pure (step.invoke hash input)).symm
  | pipe first second ihfirst ihsecond =>
      funext input
      rw [Pipeline.build, invokeAll_stepsOf, pipe_invoke, Pipeline.steps, invokeAll_append,
        invokeAll_append, ihfirst, ihsecond]

/-- **A chain of pipes** runs the steps in it that are not null in their order, whatever the
brackets are and whichever of the steps are sequences themselves. -/
theorem pipeline_invoke (hash : HashOrder) (first second : Pipeline σ) :
    (pipe first.build second.build).invoke hash
      = invokeAll hash (first.steps ++ second.steps) := by
  funext input
  rw [pipe_invoke, invokeAll_append, invokeAll_append, invokeAll_stepsOf_build,
    invokeAll_stepsOf_build]

end Pipes

/-! ### Refinement -/

/-- Induction over the steps, where a sequence and a mapping have their statement from those of
the steps in them. -/
@[elab_as_elim]
theorem StepFunction.nested_induction {motive : StepFunction σ → Prop}
    (sequence : ∀ first rest, motive first → (∀ step ∈ rest, motive step) →
      motive (.sequence first rest))
    (mapping : ∀ key step rest, motive step → (∀ e ∈ rest, motive e.2) →
      motive (.mapping key step rest))
    (passthrough : motive .passthrough)
    (selection : ∀ variableName, motive (.selection variableName))
    (lambda : ∀ fn, motive (.lambda fn))
    (branch : ∀ condition branchA branchB, motive condition → motive branchA →
      motive branchB → motive (.branch condition branchA branchB))
    (step : StepFunction σ) : motive step := by
  refine @StepFunction.rec σ motive (fun steps => ∀ step ∈ steps, motive step)
    (fun entries => ∀ e ∈ entries, motive e.2) (fun e => motive e.2) sequence mapping
    passthrough selection lambda branch ?_ ?_ ?_ ?_ ?_ step
  · exact fun step hstep => absurd hstep List.not_mem_nil
  · intro step steps hstep hsteps
    exact List.forall_mem_cons.mpr ⟨hstep, hsteps⟩
  · exact fun e he => absurd he List.not_mem_nil
  · intro e entries he hentries
    exact List.forall_mem_cons.mpr ⟨he, hentries⟩
  · exact fun _ _ hstep => hstep

section Refinement

variable {hash : HashOrder}

theorem invokeEntries_eq (entries : List (String × StepFunction σ)) :
    invokeEntries hash entries = entries.map fun e => (e.1, e.2.invoke hash) := by
  induction entries with
  | nil => rfl
  | cons e entries ih => rw [invokeEntries, ih, List.map_cons]

theorem evaluateEntries_eq (entries : List (String × StepFunction σ)) :
    evaluateEntries hash entries = entries.map fun e => (e.1, e.2.evaluate hash) := by
  induction entries with
  | nil => rfl
  | cons e entries ih => rw [evaluateEntries, ih, List.map_cons]

theorem refines_all {steps : List (StepFunction σ)}
    (h : ∀ step ∈ steps, Refines (step.invoke hash) (step.evaluate hash)) :
    Refines (invokeAll hash steps) (evaluateAll hash steps) := by
  induction steps with
  | nil => exact refines_pure
  | cons step steps ih =>
      obtain ⟨hstep, hsteps⟩ := List.forall_mem_cons.mp h
      exact refines_andThen hstep (ih hsteps)

/-- **A step does what its evaluation says**, by induction over the steps in it. -/
theorem refines_evaluate (hash : KeyOrder) (step : StepFunction σ) :
    Refines (step.invoke hash.toHashOrder) (step.evaluate hash.toHashOrder) := by
  induction step using StepFunction.nested_induction with
  | sequence first rest ihfirst ihrest => exact refines_andThen ihfirst (refines_all ihrest)
  | mapping key step rest ihstep ihrest =>
      have hentries : ∀ e ∈ (key, step) :: rest,
          Refines (e.2.invoke hash.toHashOrder) (e.2.evaluate hash.toHashOrder) :=
        List.forall_mem_cons.mpr ⟨ihstep, ihrest⟩
      refine refines_gather ?_ _
      show List.Forall₂ _ (hash.order (invokeEntries _ ((key, step) :: rest)))
        (hash.order (evaluateEntries _ ((key, step) :: rest)))
      rw [invokeEntries_eq, evaluateEntries_eq, hash.natural, hash.natural,
        List.forall₂_map_left_iff, List.forall₂_map_right_iff, List.forall₂_same]
      exact fun e he => ⟨rfl, hentries e ((hash.perm _).mem_iff.mp he)⟩
  | passthrough => exact refines_pure
  | selection variableName => exact refines_call nullContext _
  | lambda fn => exact refines_call nullContext fn
  | branch condition branchA branchB ihcondition iha ihb => exact refines_choose ihcondition iha ihb

/-- What a call is said to return, where the contexts behind the old ones are those that it has
added. -/
def Gives (own count : Nat) (added : List Json) :
    Except Exn Pointer → Except Exn (Returned Json) → Prop :=
  Results fun p r =>
    match r with
    | .same => p = some own
    | .null => p = none
    | .fresh data => ∃ k, p = some (count + k) ∧ added[k]? = some data

/-- **Main result.**  Called on one of any contexts, a step leaves there the value that its
evaluation says, adds contexts of its own, writes to no other one, and returns what its
evaluation says. -/
theorem invoke_refines_evaluate (hash : KeyOrder) (step : StepFunction σ)
    (before after : List Json) (data : Json) (w : σ) :
    ∃ out seen data' added w',
      step.evaluate hash.toHashOrder (some data, w) = (seen, some data', w') ∧
        step.invoke hash.toHashOrder (some before.length) ⟨before ++ data :: after, w⟩
          = (out, ⟨before ++ data' :: after ++ added, w'⟩) ∧
        Gives before.length (before ++ data :: after).length added out seen := by
  let m : Memory Json σ := ⟨before ++ data :: after, w⟩
  have hvalue : m.cells[before.length]? = some data := by simp [m]
  have hlength : before.length < m.cells.length := (List.getElem?_eq_some_iff.mp hvalue).1
  have hvalid : m.Valid (some before.length) := fun i hi => Option.some.inj hi ▸ hlength
  obtain ⟨seen, hevaluate, hkeeps, hresult⟩ :=
    refines_evaluate hash step (some before.length) m hvalid
  rcases hinvoke : step.invoke hash.toHashOrder (some before.length) m with ⟨out, m'⟩
  rw [hinvoke] at hevaluate hkeeps hresult
  obtain ⟨data', hdata'⟩ := exists_value (hkeeps.valid hvalid)
  rw [value_cell, hvalue] at hevaluate
  refine ⟨out, seen, data', m'.cells.drop m.cells.length, m'.world, ?_, ?_, ?_⟩
  · rw [hevaluate, value_cell, hdata']
  · have hcells := hkeeps.cells_eq hdata' hlength
    have hset : m.cells.set before.length data' = before ++ data' :: after := by simp [m]
    rw [hset] at hcells
    rw [← hcells]
  · refine hresult.imp fun p r h => ?_
    cases r with
    | same => exact h
    | null => exact h
    | fresh a =>
        cases h with
        | @cell i _ hle hcell =>
            refine ⟨i - m.cells.length, congrArg some (Nat.add_sub_of_le hle).symm, ?_⟩
            rw [List.getElem?_drop, Nat.add_sub_of_le hle, hcell]

end Refinement

/-! ### The order of a mapping -/

/-- The functions in a step change nothing but their context, and the keys of its mappings are
distinct. -/
inductive StepFunction.OnlyReads : StepFunction σ → Prop
  | sequence (first : StepFunction σ) (rest : List (StepFunction σ)) : first.OnlyReads →
      (∀ step ∈ rest, step.OnlyReads) → OnlyReads (.sequence first rest)
  | mapping (key : String) (step : StepFunction σ) (rest : List (String × StepFunction σ)) :
      (key :: rest.map Prod.fst).Nodup → step.OnlyReads → (∀ e ∈ rest, e.2.OnlyReads) →
      OnlyReads (.mapping key step rest)
  | passthrough : OnlyReads .passthrough
  | selection (variableName : String) : OnlyReads (.selection variableName)
  | lambda (fn : StepLambda σ) : (∀ data w, (fn (data, w)).2.2 = w) → OnlyReads (.lambda fn)
  | branch (condition branchA branchB : StepFunction σ) : condition.OnlyReads →
      branchA.OnlyReads → branchB.OnlyReads → OnlyReads (.branch condition branchA branchB)

section Order

/-- Entries with distinct keys make the same mapping in every order. -/
theorem putMappingObject_eq_of_perm {hash hash' : HashOrder} {m m' : List (String × Json)}
    (hperm : m.Perm m') (hnodup : (m.map Prod.fst).Nodup) :
    putMappingObject hash' m' = putMappingObject hash m := by
  have hentries (hash : HashOrder) {m : List (String × Json)} (hnodup : (m.map Prod.fst).Nodup) :
      Sorted ((hash.order m).foldl (fun m e => set e.1 e.2 m) []) ∧
        ((hash.order m).foldl (fun m e => set e.1 e.2 m) []).Perm m := by
    obtain ⟨hsorted, hsame⟩ := @foldl_set _ _ _ (hash.order m) []
      ((((hash.perm m).map Prod.fst).nodup_iff).mpr hnodup) List.Pairwise.nil
    exact ⟨hsorted, hsame.trans (hash.perm m)⟩
  obtain ⟨hsorted, hsame⟩ := hentries hash hnodup
  obtain ⟨hsorted', hsame'⟩ := hentries hash' ((hperm.map Prod.fst).nodup_iff.mp hnodup)
  rw [putMappingObject, putMappingObject, List.Perm.eq_of_pairwise
    (fun e e' _ _ hlt hgt => absurd hgt hlt.not_gt) hsorted' hsorted
    (hsame'.trans (hperm.symm.trans hsame.symm))]

theorem settles_all {hash hash' : HashOrder} {steps : List (StepFunction σ)}
    (h : ∀ step ∈ steps, (step.evaluate hash).Settles (step.evaluate hash')) :
    (evaluateAll hash steps).Settles (evaluateAll hash' steps) := by
  induction steps with
  | nil => exact fun own w => ⟨rfl, fun _ _ => rfl⟩
  | cons step steps ih =>
      obtain ⟨hstep, hsteps⟩ := List.forall_mem_cons.mp h
      exact View.settles_andThen hstep (ih hsteps)

theorem settles_ofCell {fn : StepLambda σ} (h : ∀ data w, (fn (data, w)).2.2 = w) :
    (View.ofCell nullContext fn).Settles (View.ofCell nullContext fn) := by
  intro own w
  cases own with
  | none => exact ⟨rfl, fun _ _ => rfl⟩
  | some data => exact ⟨h data w, fun _ _ => rfl⟩

theorem select_world (variableName : String) (data : Json) (w : σ) :
    (select variableName (data, w)).2.2 = w := by
  rw [select]
  rcases getMappingObject data with e | mapping
  · rfl
  · simp only
    split <;> rfl

/-- Steps that only read, by induction over the steps in them. -/
theorem settles_evaluate (hash hash' : KeyOrder) {step : StepFunction σ} (h : step.OnlyReads) :
    (step.evaluate hash.toHashOrder).Settles (step.evaluate hash'.toHashOrder) := by
  induction h with
  | sequence first rest _ _ ihfirst ihrest =>
      exact View.settles_andThen ihfirst (settles_all ihrest)
  | mapping key step rest hkeys _ _ ihstep ihrest =>
      have hentries : ∀ e ∈ (key, step) :: rest,
          (e.2.evaluate hash.toHashOrder).Settles (e.2.evaluate hash'.toHashOrder) :=
        List.forall_mem_cons.mpr ⟨ihstep, ihrest⟩
      show (View.gather nullContext
          (hash.order (evaluateEntries hash.toHashOrder ((key, step) :: rest))) _).Settles
        (View.gather nullContext
          (hash'.order (evaluateEntries hash'.toHashOrder ((key, step) :: rest))) _)
      rw [evaluateEntries_eq, evaluateEntries_eq, hash.natural, hash'.natural]
      refine View.settles_gather ((hash.perm _).trans (hash'.perm _).symm)
        (fun e he => hentries e ((hash.perm _).mem_iff.mp he)) fun vs vs' hvs hperm => ?_
      refine putMappingObject_eq_of_perm hperm ?_
      rw [hvs]
      exact ((hash.perm ((key, step) :: rest)).map Prod.fst).nodup_iff.mpr hkeys
  | passthrough => exact fun own w => ⟨rfl, fun _ _ => rfl⟩
  | selection variableName => exact settles_ofCell (select_world variableName)
  | lambda fn hfn => exact settles_ofCell hfn
  | branch condition branchA branchB _ _ _ ihcondition iha ihb =>
      exact View.settles_choose ihcondition iha ihb

/-- **Main result.**  Where the functions in a step only read, a call that returns under one
order of the hash maps returns under every other: the context that it was called with and the
one that it returns hold the same values then. -/
theorem invoke_order_irrelevant (hash hash' : KeyOrder) {step : StepFunction σ}
    (h : step.OnlyReads) {m m' : Memory Json σ} {input output : Pointer}
    (hinput : m.Valid input)
    (hinvoke : step.invoke hash.toHashOrder input m = (.ok output, m')) :
    ∃ output' m'', step.invoke hash'.toHashOrder input m = (.ok output', m'') ∧
      m''.value output' = m'.value output ∧ m''.value input = m'.value input ∧
        m''.world = m.world ∧ m'.world = m.world := by
  obtain ⟨seen, hevaluate, _, hresult⟩ := refines_evaluate hash step input m hinput
  rw [hinvoke] at hevaluate hresult
  cases hresult with
  | @ok _ r hr =>
      obtain ⟨hworld, hsame⟩ := (settles_evaluate hash hash' h).eq hevaluate
      obtain ⟨seen', hevaluate', _, hresult'⟩ := refines_evaluate hash' step input m hinput
      rcases hinvoke' : step.invoke hash'.toHashOrder input m with ⟨out', m''⟩
      rw [hinvoke', hsame] at hevaluate'
      rw [hinvoke'] at hresult'
      obtain ⟨rfl, hown⟩ := Prod.mk.inj hevaluate'
      obtain ⟨hinput', hworld'⟩ := Prod.mk.inj hown
      cases hresult' with
      | @ok output' _ hr' =>
          refine ⟨output', m'', rfl, ?_, hinput'.symm, hworld'.symm, hworld⟩
          rw [value_of_denotes hr', value_of_denotes hr]
          exact congrArg r.value hinput'.symm

/-- Two steps on clones of a number, under both orders. -/
theorem invoke_order_irrelevant_mapping :
    ∃ output' m'', (StepFunction.mapping "b" .passthrough [("a", .passthrough)]).invoke
        KeyOrder.reversed.toHashOrder (some 0) ⟨[.integer 7], ()⟩ = (.ok output', m'') ∧
      m''.value output' = some (.object [(mappingDataWrapperDataKey,
        .object [("a", .integer 7), ("b", .integer 7)])]) := by
  have hstep : (StepFunction.mapping "b" .passthrough [("a", .passthrough)] :
      StepFunction Unit).OnlyReads :=
    .mapping _ _ _ (by decide) .passthrough (List.forall_mem_singleton.mpr .passthrough)
  have hinput : (⟨[.integer 7], ()⟩ : Memory Json Unit).Valid (some 0) := by
    intro i hi
    cases hi
    exact Nat.zero_lt_one
  obtain ⟨output', m'', hinvoke, hvalue, -⟩ :=
    @invoke_order_irrelevant _ .ofInsertion .reversed _ hstep ⟨[.integer 7], ()⟩ _ (some 0) _ hinput
      rfl
  exact ⟨output', m'', hinvoke, hvalue⟩

end Order

/-! ### Results -/

section Result

variable {hash : HashOrder}

/-- The value behind what a step returns that is called on a context of its own. -/
def StepFunction.result (hash : HashOrder) (step : StepFunction σ) :
    Option Json → Action Exn σ (Option Json) :=
  (step.evaluate hash).result

theorem result_evaluateAll_append (steps steps' : List (StepFunction σ)) (own : Option Json) :
    (evaluateAll hash (steps ++ steps')).result own
      = (evaluateAll hash steps).result own >>= (evaluateAll hash steps').result := by
  induction steps generalizing own with
  | nil => rfl
  | cons step steps ih =>
      show ((step.evaluate hash).andThen (evaluateAll hash (steps ++ steps'))).result own
        = ((step.evaluate hash).andThen (evaluateAll hash steps)).result own >>= _
      rw [result_andThen, result_andThen, Action.bind_assoc]
      exact congrArg ((step.evaluate hash).result own >>= ·) (funext ih)

theorem result_evaluateAll_stepsOf (step : StepFunction σ) :
    (evaluateAll hash (stepsOf (some step))).result = step.result hash := by
  have hsingle (step : StepFunction σ) : (evaluateAll hash [step]).result = step.result hash := by
    funext own
    exact (result_andThen _ _ own).trans (Action.bind_pure _)
  cases step with
  | sequence first rest => rfl
  | _ => exact hsingle _

/-- The result of a pipe. -/
theorem result_pipe (first second : StepFunction σ) (own : Option Json) :
    (pipe (some first) (some second)).result hash own
      = first.result hash own >>= second.result hash := by
  have hpipe : (pipe (some first) (some second)).result hash
      = (evaluateAll hash (stepsOf (some first) ++ stepsOf (some second))).result := by
    rw [pipe]
    rcases stepsOf (some first) ++ stepsOf (some second) with - | ⟨step, steps⟩ <;> rfl
  rw [hpipe, result_evaluateAll_append, result_evaluateAll_stepsOf, result_evaluateAll_stepsOf]

/-- A context of members. -/
abbrev contextOf (members : List (String × Json)) : Json :=
  .object [(mappingDataWrapperDataKey, .ofMembers members)]

theorem putMappingObject_of_perm {m members : List (String × Json)} (hperm : m.Perm members)
    (h : Sorted members) : putMappingObject hash m = contextOf members := by
  rw [putMappingObject, foldl_set_of_perm ((hash.perm m).trans hperm) h]

/-- **The result of a mapping where one step counts**, and the others return the same whatever
the state is: the order is irrelevant. -/
theorem result_mapping (hash : KeyOrder) {key k : String} {step f : StepFunction σ}
    {rest others : List (String × StepFunction σ)} {data : Json} {value : String → Json}
    {members : Json → List (String × Json)}
    (hperm : ((key, step) :: rest).Perm ((k, f) :: others))
    (h : ∀ e ∈ others, ∀ w,
      e.2.result hash.toHashOrder (some data) w = (.ok (some (value e.1)), w))
    (hsorted : ∀ b, Sorted (members b))
    (hmembers : ∀ b, ((k, b) :: others.map fun e => (e.1, value e.1)).Perm (members b)) :
    (StepFunction.mapping key step rest).result hash.toHashOrder (some data)
      = f.result hash.toHashOrder (some data) >>= fun v => Action.ofExcept
          (v.elim (.error nullContext) fun b => .ok (some (contextOf (members b)))) := by
  show (View.gather nullContext
    (hash.order (evaluateEntries hash.toHashOrder ((key, step) :: rest))) _).result _ = _
  rw [evaluateEntries_eq, hash.natural]
  let view (e : String × StepFunction σ) := (e.1, e.2.evaluate hash.toHashOrder)
  have hviews : ((hash.order ((key, step) :: rest)).map view).Perm
      ((k, f.evaluate hash.toHashOrder) :: others.map view) :=
    ((hash.perm _).trans hperm).map view
  refine @result_gather_one _ _ _ _ nullContext data _ _ k _ hviews value (fun e he => ?_) _ _
    fun b l hl => ?_
  · obtain ⟨e', he', rfl⟩ := List.mem_map.mp he
    exact h e' he'
  · rw [List.map_map] at hl
    exact putMappingObject_of_perm (hl.trans (hmembers b)) (hsorted b)

/-- A mapping throws if one step in it never returns a value. -/
theorem result_mapping_error (hash : KeyOrder) {key : String} {step : StepFunction σ}
    {rest : List (String × StepFunction σ)} {data : Json} {β : Type} {kept : σ → β}
    (hkeeps : ∀ e ∈ (key, step) :: rest,
      Action.Keeps kept (e.2.result hash.toHashOrder (some data)))
    {e : String × StepFunction σ} (he : e ∈ (key, step) :: rest)
    (h : ∀ w w' b, e.2.result hash.toHashOrder (some data) w ≠ (.ok (some b), w')) (w : σ) :
    ∃ thrown w', (StepFunction.mapping key step rest).result hash.toHashOrder (some data) w
      = (.error thrown, w') ∧ kept w' = kept w := by
  show ∃ thrown w', (View.gather nullContext
    (hash.order (evaluateEntries hash.toHashOrder ((key, step) :: rest))) _).result _ w = _ ∧ _
  rw [evaluateEntries_eq, hash.natural]
  have hmem {e : String × StepFunction σ} :
      e ∈ hash.order ((key, step) :: rest) ↔ e ∈ (key, step) :: rest := (hash.perm _).mem_iff
  refine exists_error_of_gather (fun e' he' => ?_) _
    (List.mem_map.mpr ⟨e, hmem.mpr he, rfl⟩) h w
  obtain ⟨e'', he'', rfl⟩ := List.mem_map.mp he'
  exact hkeeps e'' (hmem.mp he'')

/-- Members are in order if their keys are, letter by letter. -/
theorem sorted_of_keys {members : List (String × Json)} {keys : List String}
    (h : keys.Pairwise fun k k' => k.toList < k'.toList) (hkeys : members.map Prod.fst = keys) :
    Sorted members := by
  rw [← hkeys, List.pairwise_map] at h
  exact h.imp fun hlt => String.lt_iff_toList_lt.mpr hlt

end Result

end Instinct.StepFunctions
