/-
Instinct/AssistantUpdates.lean

`ModifyAssistant`: the request as a JSON context, the assignments that the UPDATE template
makes of it, and the row that is read back.

Each column has a test of its own.  The one of `instructions` asks for a member of another
name, and `name` has none, so that neither is ever assigned.  What is assigned is read
back if the metadata, the tools and the tool resources come back through JSON
(`modifyAssistant_iff`).
-/
import Instinct.AssistantCreation
import Instinct.SparseTools

namespace Instinct.AssistantRows

open Effects JsonStructs MessageRows StructConversion Tables

/-! ### The request -/

/-- The fields of a `ModifyAssistantRequest`.  A number is provided where it is not zero, and
`none` is one that is not finite. -/
structure ModifyAssistantRequest where
  model : String := ""
  name : String := ""
  description : String := ""
  instructions : String := ""
  metadata : Option Struct := none
  temperature : Option Rat := some 0
  topP : Option Rat := some 0
  responseFormat : String := ""
  tools : List AssistantToolObject := []
  toolResources : Option AssistantToolResources := none
  assistantId : String := ""

/-- A number, if it is not zero. -/
def providedNumber (x : Option Rat) : Option ContextValue :=
  if x = some 0 then none else some (.struct (numberJson x))

/-- The members of the context, given the JSON of the metadata. -/
def ModifyAssistantRequest.toContext (request : ModifyAssistantRequest) (metadata : Option Json) :
    SqlContext := fun name =>
  match name with
  | "model" => textMember request.model
  | "name" => textMember request.name
  | "description" => textMember request.description
  | "instructions" => textMember request.instructions
  | "metadata" => metadata.map .struct
  | "temperature" => providedNumber request.temperature
  | "top_p" => providedNumber request.topP
  | "response_format" => textMember request.responseFormat
  | "tools" =>
      if request.tools.isEmpty then none
      else some (.struct (.array (request.tools.map sparseTool)))
  | "tool_resources" =>
      request.toolResources.map fun resources => .struct (convertToolResources resources)
  | "assistant_id" => textMember request.assistantId
  | _ => none

/-- `ConvertMessageToJsonObject`. -/
def convertRequest (request : ModifyAssistantRequest) : Except Exn SqlContext :=
  match request.metadata with
  | none => pure (request.toContext none)
  | some fields => do
      let members ← convertStruct fields
      pure (request.toContext (some (.ofMembers members)))

/-! ### The statement -/

/-- What an update assigns, column by column. -/
structure AssistantUpdate where
  model : Option Cell
  description : Option Cell
  instructions : Option Cell
  metadata : Option Cell
  temperature : Option Cell
  topP : Option Cell
  responseFormat : Option Cell
  tools : Option Cell
  toolResources : Option Cell

/-- `{% if exists(tested) and is_not_blank(name) %} … = {{text(name)}}, {% endif %}`. -/
def assignText (context : SqlContext) (tested name : String) : Except Exn (Option Cell) := do
  if hasMember context tested then
    if ← isNotBlank context name then do
      let value ← text context name
      pure (some (.text value))
    else pure none
  else pure none

/-- `{% if exists(name) %} … = {{stringify(name)}}, {% endif %}`. -/
def assignJson (context : SqlContext) (name : String) : Except Exn (Option Cell) :=
  if hasMember context name then do
    let value ← stringify context name
    pure (some (.text value))
  else pure none

/-- `{% if exists(name) %} … = {{name}}, {% endif %}`. -/
def assignNumber (context : SqlContext) (name : String) : Except Exn (Option Cell) :=
  if hasMember context name then do
    let value ← printNumber context name
    pure (some (.number value))
  else pure none

/-- The assignments of `UpdateAssistant`.  Each ends with a comma, and that of `modified_at` is
always the last one. -/
def assistantUpdate (context : SqlContext) : Except Exn AssistantUpdate := do
  let model ← assignText context "model" "model"
  let description ← assignText context "description" "description"
  let instructions ← assignText context "instruction" "instructions"
  let metadata ← assignJson context "metadata"
  let temperature ← assignNumber context "temperature"
  let topP ← assignNumber context "top_p"
  let responseFormat ← assignText context "response_format" "response_format"
  let tools ← assignJson context "tools"
  let toolResources ← assignJson context "tool_resources"
  pure ⟨model, description, instructions, metadata, temperature, topP, responseFormat, tools,
    toolResources⟩

/-- What is assigned to a column. -/
def AssistantUpdate.cell? (update : AssistantUpdate) : String → Option Cell
  | "model" => update.model
  | "description" => update.description
  | "instructions" => update.instructions
  | "metadata" => update.metadata
  | "temperature" => update.temperature
  | "top_p" => update.topP
  | "response_format" => update.responseFormat
  | "tools" => update.tools
  | "tool_resources" => update.toolResources
  | _ => none

/-- The columns that the template names, in its order. -/
def updatedColumns : List String :=
  ["model", "description", "instructions", "metadata", "temperature", "top_p",
    "response_format", "tools", "tool_resources"]

/-- The assignments of the statement. -/
def AssistantUpdate.assignments (update : AssistantUpdate) : AssistantRow :=
  updatedColumns.filterMap fun name => (update.cell? name).map (name, ·)

/-- A row with the assigned columns. -/
def AssistantUpdate.assign (update : AssistantUpdate) (row : AssistantRow) : AssistantRow :=
  update.assignments ++ row

/-- No NULL is put where none may be. -/
def AssistantUpdate.Assignable (update : AssistantUpdate) : Prop :=
  ∀ name ∈ notNullColumns, ∀ cell ∈ update.assignments.lookup name, cell.isNull = false

instance (update : AssistantUpdate) : Decidable update.Assignable :=
  inferInstanceAs (Decidable (∀ name ∈ notNullColumns, _))

/-- Of the columns that the template does not name none is assigned. -/
theorem lookup_assignments (update : AssistantUpdate) (name : String) :
    update.assignments.lookup name
      = if name ∈ updatedColumns then update.cell? name else none := by
  have h : ∀ names : List String,
      (names.filterMap fun n => (update.cell? n).map (n, ·)).lookup name
        = if name ∈ names then update.cell? name else none := by
    intro names
    induction names with
    | nil => rfl
    | cons n names ih =>
        by_cases hn : name = n
        · subst hn
          rw [List.filterMap_cons, if_pos List.mem_cons_self]
          cases hcell : update.cell? name with
          | some cell => simp
          | none =>
              rw [Option.map_none, ih, hcell]
              exact ite_self _
        · rw [List.filterMap_cons]
          have hmem : name ∈ n :: names ↔ name ∈ names := by simp [hn]
          simp only [hmem, ← ih]
          cases update.cell? n with
          | none => rfl
          | some cell =>
              rw [Option.map_some, List.lookup_cons, beq_false_of_ne hn]
  exact h updatedColumns

section Assign

variable (update : AssistantUpdate) (row : AssistantRow)

theorem lookup_assign (name : String) : (update.assign row).lookup name
    = (if name ∈ updatedColumns then update.cell? name else none).or (row.lookup name) := by
  rw [AssistantUpdate.assign, List.lookup_append, lookup_assignments]

theorem idText_assign : idText (update.assign row) = idText row := by
  rw [idText, lookup_assign, if_neg (by decide)]
  rfl

theorem notNull_assign (h : update.Assignable) (hrow : NotNull row) :
    NotNull (update.assign row) := by
  intro name hname
  rw [AssistantUpdate.assign, List.lookup_append]
  rcases hcell : update.assignments.lookup name with - | cell
  · exact hrow name hname
  · exact h name hname cell hcell

end Assign

/-! ### The table -/

/-- The database with the update of one assistant: how many rows it meets. -/
def executeUpdate (update : AssistantUpdate) (id : Option Text) : AssistantM Nat := fun table =>
  match id with
  | some (.plain id) =>
      if (table.find? fun row => idText row = id).isNone then (.ok 0, table)
      else if h : update.Assignable then
        (.ok (table.count fun row => idText row = id),
          table.update (fun row => idText row = id) update.assign (idText_assign update)
            fun row => notNull_assign update row h)
      else (.error (.client "Constraint Error: NOT NULL constraint failed"), table)
  | _ => (.ok 0, table)

/-- `EntitySQLUtils::UpdateAssistant`. -/
def updateAssistant (context : SqlContext) : AssistantM Nat := do
  let update ← assistantUpdate context
  let id ← text context "assistant_id"
  executeUpdate update id

/-- `AssistantServiceImpl::ModifyAssistant`. -/
def modifyAssistant (nulls : NullMessages) (request : ModifyAssistantRequest) :
    AssistantM (Option AssistantObject) := do
  assertNotBlank request.assistantId "assistant id should be given"
  let context ← convertRequest request
  let count ← updateAssistant context
  assertTrue (0 < count) ("should have assistant update. assistant_id=" ++ request.assistantId)
  retrieveAssistant nulls request.assistantId

/-! ### What a request asks for -/

/-- The assistant with the provided fields. -/
def ModifyAssistantRequest.applied (request : ModifyAssistantRequest) (old : AssistantObject) :
    AssistantObject :=
  { old with
    model := if request.model = "" then old.model else request.model
    name := if request.name = "" then old.name else request.name
    description := if request.description = "" then old.description else request.description
    instructions :=
      if request.instructions = "" then old.instructions else request.instructions
    metadata := request.metadata.or old.metadata
    temperature :=
      if request.temperature = some 0 then old.temperature else some request.temperature
    topP := if request.topP = some 0 then old.topP else some request.topP
    responseFormat :=
      if request.responseFormat = "" then old.responseFormat else request.responseFormat
    tools := if request.tools.isEmpty then old.tools else request.tools
    toolResources := request.toolResources.or old.toolResources }

/-- The texts that are provided are not blank. -/
def ModifyAssistantRequest.TextsFilled (request : ModifyAssistantRequest) : Prop :=
  ∀ s ∈ [request.model, request.name, request.description, request.instructions,
    request.responseFormat], s ≠ "" → isBlankString s = false

instance (request : ModifyAssistantRequest) : Decidable request.TextsFilled :=
  inferInstanceAs (Decidable (∀ s ∈ [_, _, _, _, _], _))

/-- The provided fields are returned and stored, the others stay, and so does every other
assistant. -/
structure Modified (nulls : NullMessages) (request : ModifyAssistantRequest)
    (old : AssistantObject) (table : AssistantTable) : Prop where
  returned : (modifyAssistant nulls request table).1 = .ok (some (request.applied old))
  stored : (retrieveAssistant nulls request.assistantId (modifyAssistant nulls request table).2).1
    = .ok (some (request.applied old))
  others : ∀ id ≠ request.assistantId,
    ((modifyAssistant nulls request table).2.find? fun row => idText row = id)
      = table.find? fun row => idText row = id

/-- What `ModifyAssistant` does as it is asked: neither a new name nor new instructions, numbers
that are finite, and metadata, tools and tool resources that come back through JSON. -/
structure ModifyAssistantRequest.Modifiable (nulls : NullMessages)
    (request : ModifyAssistantRequest) (old : AssistantObject) : Prop where
  name : request.name ≠ "" → request.name = old.name
  instructions : request.instructions ≠ "" → request.instructions = old.instructions
  metadata : ∀ fields ∈ request.metadata,
    fields ≠ [] ∧ ∀ p ∈ fields, StructConversion.Readable p.2
  temperature : request.temperature ≠ none
  topP : request.topP ≠ none
  tools : ∀ tool ∈ request.tools, tool.Kept nulls
  toolResources : ∀ resources ∈ request.toolResources, resources.Kept

/-! ### The assignments of a request -/

section Statement

variable {context : SqlContext} {name : String}

/-- The cell of a text, if it is provided. -/
def providedText (s : String) : Option Cell :=
  if s = "" then none else some (.text (some (.plain s)))

/-- The cell of a number, if it is provided. -/
def providedCell (x : Option Rat) : Option Cell := if x = some 0 then none else some (.number x)

theorem assignText_of_textMember {s : String} (h : context name = textMember s)
    (hs : s ≠ "" → isBlankString s = false) :
    assignText context name name = .ok (providedText s) := by
  rw [assignText, providedText]
  by_cases hempty : s = ""
  · rw [hasMember, h, textMember, if_pos hempty, if_pos hempty]
    rfl
  · have hsome : context name = some (.json (.string s)) := by rw [h, textMember, if_neg hempty]
    have hblank : isNotBlank context name = .ok true := by
      rw [isNotBlank, hsome]
      exact congrArg Except.ok (isNotBlankString_eq_true.mpr (hs hempty))
    rw [hasMember, hsome, Option.isSome_some, if_pos rfl, hblank, if_neg hempty,
      text_of_string hsome, plainText, if_neg hempty]
    rfl

theorem assignJson_of_struct {j? : Option Json} (h : context name = j?.map .struct) :
    assignJson context name = .ok (j?.map fun j => Cell.text (structText j)) := by
  cases j? with
  | none =>
      rw [assignJson, hasMember, h]
      rfl
  | some j =>
      rw [assignJson, hasMember, stringify, h]
      rfl

theorem assignNumber_of_provided {x : Option Rat} (h : context name = providedNumber x) :
    assignNumber context name = .ok (providedCell x) := by
  rw [assignNumber, providedCell]
  by_cases hzero : x = some 0
  · rw [hasMember, h, providedNumber, if_pos hzero, if_pos hzero]
    rfl
  · have hsome : context name = some (.struct (numberJson x)) := by
      rw [h, providedNumber, if_neg hzero]
    rw [hasMember, hsome, Option.isSome_some, if_pos rfl, printNumber_of_numberJson hsome,
      if_neg hzero]
    rfl

end Statement

/-- The JSON of the tools, if there are any. -/
def ModifyAssistantRequest.toolsJson (request : ModifyAssistantRequest) : Option Json :=
  if request.tools.isEmpty then none else some (.array (request.tools.map sparseTool))

/-- What a request assigns. -/
def ModifyAssistantRequest.update (request : ModifyAssistantRequest) (metadata : Option Json) :
    AssistantUpdate where
  model := providedText request.model
  description := providedText request.description
  instructions := none
  metadata := metadata.map fun j => .text (structText j)
  temperature := providedCell request.temperature
  topP := providedCell request.topP
  responseFormat := providedText request.responseFormat
  tools := request.toolsJson.map fun j => .text (structText j)
  toolResources := (request.toolResources.map convertToolResources).map fun j =>
    .text (structText j)

section Request

variable {request : ModifyAssistantRequest}

theorem assistantUpdate_toContext (htexts : request.TextsFilled) (metadata : Option Json) :
    assistantUpdate (request.toContext metadata) = .ok (request.update metadata) := by
  have htools : request.toContext metadata "tools" = request.toolsJson.map .struct := by
    rw [ModifyAssistantRequest.toolsJson, ModifyAssistantRequest.toContext]
    cases request.tools.isEmpty <;> rfl
  have hresources : request.toContext metadata "tool_resources"
      = (request.toolResources.map convertToolResources).map .struct := by
    rw [Option.map_map]
    rfl
  have hinstructions : assignText (request.toContext metadata) "instruction" "instructions"
      = .ok none := rfl
  have htext : ∀ name, ∀ s ∈ [request.model, request.name, request.description,
      request.instructions, request.responseFormat],
      request.toContext metadata name = textMember s →
      assignText (request.toContext metadata) name name = .ok (providedText s) :=
    fun name s hs h => assignText_of_textMember h (htexts s hs)
  have hnumber : ∀ name x, request.toContext metadata name = providedNumber x →
      assignNumber (request.toContext metadata) name = .ok (providedCell x) :=
    fun name x h => assignNumber_of_provided h
  have hmetadata : assignJson (request.toContext metadata) "metadata"
      = .ok (metadata.map fun j => Cell.text (structText j)) := assignJson_of_struct rfl
  rw [assistantUpdate, htext "model" request.model (by simp) rfl,
    htext "description" request.description (by simp) rfl, hinstructions, hmetadata,
    hnumber "temperature" request.temperature rfl, hnumber "top_p" request.topP rfl,
    htext "response_format" request.responseFormat (by simp) rfl,
    assignJson_of_struct htools, assignJson_of_struct hresources]
  rfl

/-- An update puts NULL nowhere if and only if the numbers are finite. -/
theorem assignable_update_iff {metadata : Option Json} :
    (request.update metadata).Assignable ↔ request.temperature ≠ none ∧ request.topP ≠ none := by
  have htext : ∀ s, ∀ cell ∈ providedText s, cell.isNull = false := by
    intro s cell hcell
    rw [providedText] at hcell
    split at hcell
    · cases hcell
    · obtain rfl := Option.some.inj hcell
      rfl
  have hnumber : ∀ x, (∀ cell ∈ providedCell x, cell.isNull = false) ↔ x ≠ none := by
    intro x
    rw [providedCell]
    split
    · next hzero =>
        refine iff_of_true (fun _ h => absurd h (Option.not_mem_none _)) ?_
        exact hzero ▸ Option.some_ne_none 0
    · simp only [Option.mem_some_iff, forall_eq', Cell.isNull]
      cases x <;> simp
  rw [← hnumber, ← hnumber]
  simp only [AssistantUpdate.Assignable, lookup_assignments]
  constructor
  · intro h
    exact ⟨h "temperature" (by decide), h "top_p" (by decide)⟩
  · rintro ⟨htemperature, htopP⟩
    simp only [notNullColumns, List.forall_mem_cons]
    refine ⟨fun _ h => absurd h (Option.not_mem_none _), htext request.model, htemperature, htopP,
      htext request.responseFormat, List.forall_mem_nil _⟩

end Request

/-! ### The row that is read back -/

section Reading

variable {update : AssistantUpdate} {row : AssistantRow} {name : String}

/-- A column that is not assigned is read as before. -/
theorem columnText_assign_of_none (h : name ∈ updatedColumns → update.cell? name = none) :
    columnText (update.assign row) name = columnText row name := by
  have hnone : (if name ∈ updatedColumns then update.cell? name else none) = none := by
    split
    · next hname => exact h hname
    · rfl
  rw [columnText, lookup_assign, hnone]
  rfl

theorem columnText_assign_of_some {value : Option Text} (hname : name ∈ updatedColumns)
    (h : update.cell? name = some (.text value)) :
    columnText (update.assign row) name = .ok value := by
  rw [columnText, lookup_assign, if_pos hname, h]
  rfl

/-- A text is read as it was provided, or as before. -/
theorem readString_assign {s t : String} (hname : name ∈ updatedColumns)
    (hcell : update.cell? name = providedText s)
    (hold : (columnText row name >>= readString) = .ok t) :
    (columnText (update.assign row) name >>= readString) = .ok (if s = "" then t else s) := by
  rw [providedText] at hcell
  split at hcell
  · next hempty => rw [columnText_assign_of_none fun _ => hcell, hold, if_pos hempty]
  · next hempty =>
      rw [columnText_assign_of_some hname hcell, if_neg hempty]
      rfl

/-- So is a number, if it is finite. -/
theorem readNumber_assign_iff {x : Option Rat} {t : Option (Option Rat)}
    (hname : name ∈ updatedColumns) (hcell : update.cell? name = providedCell x)
    (hold : (columnNumber row name).map (·.map some) = .ok t) :
    (columnNumber (update.assign row) name).map (·.map some)
        = .ok (if x = some 0 then t else some x) ↔ x ≠ none := by
  have hlookup : (update.assign row).lookup name = (providedCell x).or (row.lookup name) := by
    rw [lookup_assign, if_pos hname, hcell]
  by_cases hzero : x = some 0
  · rw [providedCell, if_pos hzero, Option.none_or] at hlookup
    rw [columnNumber, hlookup, if_pos hzero]
    exact iff_of_true hold (hzero ▸ Option.some_ne_none 0)
  · rw [providedCell, if_neg hzero] at hlookup
    rw [columnNumber, hlookup, if_neg hzero]
    show Except.ok (x.map some) = _ ↔ _
    cases x <;> simp

end Reading

/-- What the metadata of a request is written as. -/
def WrittenAs (metadata? : Option Struct) (json? : Option Json) : Prop :=
  match metadata? with
  | none => json? = none
  | some fields => ∃ members, convertStruct fields = .ok members ∧ json? = some (.ofMembers members)

section Reading

variable {nulls : NullMessages} {request : ModifyAssistantRequest} {old : AssistantObject}
variable {row : AssistantRow} {metadata : Option Json}

theorem readTools_update_iff (hold : (columnText row "tools" >>= readTools nulls) = .ok old.tools) :
    (columnText ((request.update metadata).assign row) "tools" >>= readTools nulls)
        = .ok (request.applied old).tools ↔ ∀ tool ∈ request.tools, tool.Kept nulls := by
  have hcell : (request.update metadata).cell? "tools"
      = request.toolsJson.map fun j => Cell.text (structText j) := rfl
  rw [ModifyAssistantRequest.toolsJson] at hcell
  show _ = Except.ok (if request.tools.isEmpty then old.tools else request.tools) ↔ _
  rcases htools : request.tools with - | ⟨tool, tools⟩
  · rw [htools] at hcell
    rw [columnText_assign_of_none fun _ => hcell, hold]
    exact iff_of_true rfl nofun
  · rw [htools] at hcell
    rw [columnText_assign_of_some (by decide) hcell,
      ← parseTools_map_iff parseTool_sparseTool_iff, ← readTools_array_iff]
    rfl

theorem readToolResources_update_iff
    (hold : (columnText row "tool_resources" >>= readToolResources) = .ok old.toolResources) :
    (columnText ((request.update metadata).assign row) "tool_resources" >>= readToolResources)
        = .ok (request.applied old).toolResources ↔
      ∀ resources ∈ request.toolResources, resources.Kept := by
  have hcell : (request.update metadata).cell? "tool_resources"
      = (request.toolResources.map convertToolResources).map fun j =>
        Cell.text (structText j) := rfl
  show _ = Except.ok (request.toolResources.or old.toolResources) ↔ _
  rcases hresources : request.toolResources with - | resources
  · rw [hresources] at hcell
    rw [columnText_assign_of_none fun _ => hcell, hold]
    exact iff_of_true rfl nofun
  · rw [hresources] at hcell
    rw [columnText_assign_of_some (by decide) hcell]
    simp only [Option.mem_some_iff, forall_eq']
    rw [← readToolResources_convert_iff]
    rfl

theorem readStruct_update_iff (hwritten : WrittenAs request.metadata metadata)
    (hold : (columnText row "metadata" >>= readStruct) = .ok old.metadata) :
    (columnText ((request.update metadata).assign row) "metadata" >>= readStruct)
        = .ok (request.applied old).metadata ↔
      ∀ fields ∈ request.metadata, fields ≠ [] ∧ ∀ p ∈ fields, StructConversion.Readable p.2 := by
  have hcell : (request.update metadata).cell? "metadata"
      = metadata.map fun j => Cell.text (structText j) := rfl
  show _ = Except.ok (request.metadata.or old.metadata) ↔ _
  rcases hmetadata : request.metadata with - | fields
  · rw [hmetadata] at hwritten
    obtain rfl : metadata = none := hwritten
    rw [columnText_assign_of_none fun _ => hcell, hold]
    exact iff_of_true rfl nofun
  · rw [hmetadata] at hwritten
    obtain ⟨members, hmembers, rfl⟩ := hwritten
    rw [columnText_assign_of_some (by decide) hcell]
    simp only [Option.mem_some_iff, forall_eq']
    rw [← readStruct_iff hmembers]
    rfl

/-- A text that is never assigned is right if it is the old one. -/
theorem unassigned_text_iff {s t : String} :
    t = (if s = "" then t else s) ↔ (s ≠ "" → s = t) := by
  split <;> simp_all [eq_comm]

/-- The row is read as it should be if and only if the request asks for nothing else than what
`ModifyAssistant` does. -/
theorem reads_update_iff (hwritten : WrittenAs request.metadata metadata)
    (hold : Reads nulls row old) :
    Reads nulls ((request.update metadata).assign row) (request.applied old) ↔
      request.Modifiable nulls old := by
  have hname : (columnText ((request.update metadata).assign row) "name" >>= readString)
      = .ok old.name := by
    rw [columnText_assign_of_none fun hin => absurd hin (by decide), hold.name]
  have hinstructions :
      (columnText ((request.update metadata).assign row) "instructions" >>= readString)
        = .ok old.instructions := by
    rw [columnText_assign_of_none fun _ => rfl, hold.instructions]
  constructor
  · intro h
    exact
      { name := unassigned_text_iff.mp (Except.ok.inj (hname.symm.trans h.name))
        instructions :=
          unassigned_text_iff.mp (Except.ok.inj (hinstructions.symm.trans h.instructions))
        metadata := (readStruct_update_iff hwritten hold.metadata).mp h.metadata
        temperature := (readNumber_assign_iff (by decide) rfl hold.temperature).mp h.temperature
        topP := (readNumber_assign_iff (by decide) rfl hold.topP).mp h.topP
        tools := (readTools_update_iff hold.tools).mp h.tools
        toolResources := (readToolResources_update_iff hold.toolResources).mp h.toolResources }
  · intro h
    exact
      { id := by
          rw [columnText_assign_of_none fun hin => absurd hin (by decide), hold.id]
          rfl
        name := hname.trans (congrArg Except.ok (unassigned_text_iff.mpr h.name))
        model := readString_assign (by decide) rfl hold.model
        description := readString_assign (by decide) rfl hold.description
        instructions :=
          hinstructions.trans (congrArg Except.ok (unassigned_text_iff.mpr h.instructions))
        temperature := (readNumber_assign_iff (by decide) rfl hold.temperature).mpr h.temperature
        topP := (readNumber_assign_iff (by decide) rfl hold.topP).mpr h.topP
        tools := (readTools_update_iff hold.tools).mpr h.tools
        toolResources := (readToolResources_update_iff hold.toolResources).mpr h.toolResources
        responseFormat := readString_assign (by decide) rfl hold.responseFormat
        metadata := (readStruct_update_iff hwritten hold.metadata).mpr h.metadata }

end Reading

/-! ### The update -/

section Modify

variable {nulls : NullMessages} {request : ModifyAssistantRequest} {old : AssistantObject}
variable {table : AssistantTable} {row : AssistantRow} {metadata : Option Json}

theorem convertRequest_ok {context : SqlContext} (h : convertRequest request = .ok context) :
    ∃ metadata, WrittenAs request.metadata metadata ∧ context = request.toContext metadata := by
  rw [convertRequest] at h
  rcases hmetadata : request.metadata with - | fields
  · rw [hmetadata] at h
    exact ⟨none, rfl, (Except.ok.inj h).symm⟩
  · rw [hmetadata] at h
    obtain ⟨members, hmembers, h⟩ := checks_eq_ok.mp h
    exact ⟨_, ⟨members, hmembers, rfl⟩, (Except.ok.inj h).symm⟩

/-- A request whose metadata comes back is converted. -/
theorem convertRequest_of_readable
    (h : ∀ fields ∈ request.metadata, ∀ p ∈ fields, StructConversion.Readable p.2) :
    ∃ context, convertRequest request = .ok context := by
  rw [convertRequest]
  rcases hmetadata : request.metadata with - | fields
  · exact ⟨_, rfl⟩
  · have hplain := convertStruct_of_plain fun p hp => (h fields hmetadata p hp).plain
    exact ⟨_, checks_eq_ok.mpr ⟨_, hplain, rfl⟩⟩

theorem exists_row_of_retrieved {id : String}
    (h : (retrieveAssistant nulls id table).1 = .ok (some old)) :
    ∃ row, (table.find? fun row => idText row = id) = some row ∧ Reads nulls row old := by
  rw [retrieveAssistant] at h
  cases hfind : table.find? fun row => idText row = id with
  | none =>
      simp only [hfind] at h
      cases h
  | some row =>
      simp only [hfind] at h
      obtain ⟨assistant, hread, hsame⟩ := map_eq_ok.mp h
      obtain rfl := Option.some.inj hsame
      exact ⟨row, rfl, convertAssistantRow_eq_ok_iff.mp hread⟩

/-- The statement meets the one row of the assistant. -/
theorem updateAssistant_toContext (hid : isBlankString request.assistantId = false)
    (htexts : request.TextsFilled)
    (hfind : (table.find? fun row => idText row = request.assistantId) = some row) :
    updateAssistant (request.toContext metadata) table
      = if h : (request.update metadata).Assignable then
          (.ok 1, table.update (fun row => idText row = request.assistantId)
            (request.update metadata).assign (idText_assign _) fun row => notNull_assign _ row h)
        else (.error (.client "Constraint Error: NOT NULL constraint failed"), table) := by
  have hne : request.assistantId ≠ "" := by
    intro hempty
    rw [hempty] at hid
    cases hid
  have htext : text (request.toContext metadata) "assistant_id"
      = .ok (some (.plain request.assistantId)) := by
    have hmember : request.toContext metadata "assistant_id"
        = some (.json (.string request.assistantId)) := if_neg hne
    rw [text_of_string hmember, plainText, if_neg hne]
  have hcount : (table.count fun row => idText row = request.assistantId) = 1 := by
    refine Table.count_of_find?_some hfind fun r hr => ?_
    have hrow := List.find?_some hfind
    simp only [decide_eq_true_eq] at hr hrow
    rw [hr, hrow]
  rw [updateAssistant, Action.liftM_bind_of_ok (assistantUpdate_toContext htexts metadata),
    Action.liftM_bind_of_ok htext, executeUpdate]
  simp only [hfind, hcount, Option.isNone_some, Bool.false_eq_true, if_false]

/-- The rewritten row is read back. -/
theorem retrieveAssistant_update {update : AssistantUpdate} (h : update.Assignable) {id : String}
    (hfind : (table.find? fun row => idText row = id) = some row) :
    retrieveAssistant nulls id (table.update (fun row => idText row = id) update.assign
        (idText_assign update) fun row => notNull_assign update row h)
      = ((convertAssistantRow nulls (update.assign row)).map some,
        table.update (fun row => idText row = id) update.assign (idText_assign update)
          fun row => notNull_assign update row h) := by
  have hself := Table.find?_update_self table (fun row => idText row = id) update.assign
    (idText_assign update) (fun row => notNull_assign update row h)
    fun r => by rw [idText_assign]
  rw [hfind, Option.map_some] at hself
  rw [retrieveAssistant, hself]

/-- Every other assistant is found as before. -/
theorem find?_update_other_id {update : AssistantUpdate} (h : update.Assignable) {id other : String}
    (hother : other ≠ id) :
    ((table.update (fun row => idText row = id) update.assign (idText_assign update)
        fun row => notNull_assign update row h).find? fun row => idText row = other)
      = table.find? fun row => idText row = other := by
  refine Table.find?_update_other _ _ _ _ _ (fun r => by rw [idText_assign]) fun r hr => ?_
  rw [decide_eq_true_eq] at hr
  rw [hr]
  exact decide_eq_false hother

theorem modifyAssistant_of_unconverted (hid : isBlankString request.assistantId = false) {e : Exn}
    (hconverted : convertRequest request = .error e) :
    (modifyAssistant nulls request table).1 = .error e := by
  rw [modifyAssistant, Action.liftM_bind_of_ok (assertNotBlank_of hid),
    Action.liftM_bind_of_error hconverted]

/-- What `ModifyAssistant` does with a request that is converted: the row is rewritten and read
back, if no NULL is put where none may be. -/
theorem modifyAssistant_toContext (hid : isBlankString request.assistantId = false)
    (htexts : request.TextsFilled)
    (hconverted : convertRequest request = .ok (request.toContext metadata))
    (hfind : (table.find? fun row => idText row = request.assistantId) = some row) :
    modifyAssistant nulls request table
      = if h : (request.update metadata).Assignable then
          ((convertAssistantRow nulls ((request.update metadata).assign row)).map some,
            table.update (fun row => idText row = request.assistantId)
              (request.update metadata).assign (idText_assign _) fun row => notNull_assign _ row h)
        else (.error (.client "Constraint Error: NOT NULL constraint failed"), table) := by
  rw [modifyAssistant, Action.liftM_bind_of_ok (assertNotBlank_of hid),
    Action.liftM_bind_of_ok hconverted]
  have hupdate := @updateAssistant_toContext request table row metadata hid htexts hfind
  split
  · next h =>
      rw [dif_pos h] at hupdate
      rw [Action.bind_of_ok hupdate]
      exact retrieveAssistant_update h hfind
  · next h =>
      rw [dif_neg h] at hupdate
      rw [Action.bind_of_error hupdate]

end Modify

/-- **The assistants that are modified.**  After `ModifyAssistant` every provided field of a
stored assistant has the provided value, every other its old one, and no other assistant
has changed, if and only if the request asks for neither a new name nor new
instructions, its numbers are finite, and its metadata, tools and tool resources come back
through JSON. -/
theorem modifyAssistant_iff (nulls : NullMessages) (request : ModifyAssistantRequest)
    (old : AssistantObject) (table : AssistantTable)
    (hstored : (retrieveAssistant nulls request.assistantId table).1 = .ok (some old))
    (hid : isBlankString request.assistantId = false) (htexts : request.TextsFilled) :
    Modified nulls request old table ↔ request.Modifiable nulls old := by
  obtain ⟨row, hfind, hreads⟩ := exists_row_of_retrieved hstored
  constructor
  · intro hmodified
    have hreturned := hmodified.returned
    cases hconverted : convertRequest request with
    | error e =>
        rw [modifyAssistant_of_unconverted hid hconverted] at hreturned
        cases hreturned
    | ok context =>
        obtain ⟨metadata, hwritten, rfl⟩ := convertRequest_ok hconverted
        rw [modifyAssistant_toContext hid htexts hconverted hfind] at hreturned
        split at hreturned
        · obtain ⟨assistant, hread, hsame⟩ := map_eq_ok.mp hreturned
          rw [Option.some.inj hsame] at hread
          exact (reads_update_iff hwritten hreads).mp (convertAssistantRow_eq_ok_iff.mp hread)
        · cases hreturned
  · intro hmodifiable
    obtain ⟨context, hconverted⟩ := convertRequest_of_readable fun fields hfields =>
      (hmodifiable.metadata fields hfields).2
    obtain ⟨metadata, hwritten, rfl⟩ := convertRequest_ok hconverted
    have hassignable : (request.update metadata).Assignable :=
      assignable_update_iff.mpr ⟨hmodifiable.temperature, hmodifiable.topP⟩
    have hrun := @modifyAssistant_toContext nulls _ _ _ _ hid htexts hconverted hfind
    have hread := convertAssistantRow_eq_ok_iff.mpr
      ((reads_update_iff hwritten hreads).mpr hmodifiable)
    rw [dif_pos hassignable, hread] at hrun
    refine ⟨by rw [hrun]; rfl, ?_, fun other hother => ?_⟩
    · rw [hrun, retrieveAssistant_update hassignable hfind, hread]
      rfl
    · rw [hrun]
      exact find?_update_other_id hassignable hother

/-! ### One stored assistant -/

/-- An assistant with what `CreateAssistant` fills in. -/
def plainAssistant : AssistantObject where
  model := "gpt-4o"
  temperature := some (some 1)
  topP := some (some 1)
  responseFormat := "auto"
  id := "asst_1"

/-- A table with it. -/
def oneAssistant : AssistantTable where
  rows := [plainAssistant.row]
  nodup := List.nodup_singleton _
  valid := by
    intro row hrow
    obtain rfl := List.mem_singleton.mp hrow
    decide

theorem retrieveAssistant_oneAssistant :
    ∀ nulls, (retrieveAssistant nulls "asst_1" oneAssistant).1 = .ok (some plainAssistant) :=
  fun _ => rfl

/-- A description and a temperature are provided, and a tool. -/
theorem modifyAssistant_described : Modified ⟨false, false⟩
    { description := "Helps.", temperature := some (1 / 2), tools := [{ type := 2 }],
      assistantId := "asst_1" } plainAssistant oneAssistant := by
  refine (modifyAssistant_iff _ _ _ _ (retrieveAssistant_oneAssistant _) (by decide) ?_).mpr ?_
  · decide
  · exact
      { name := fun h => absurd rfl h
        instructions := fun h => absurd rfl h
        metadata := nofun
        temperature := Option.some_ne_none _
        topP := Option.some_ne_none _
        tools := fun tool htool => by
          obtain rfl := List.mem_singleton.mp htool
          exact ⟨fun h => absurd (congrArg (·.type) h) (by decide),
            List.mem_map.mpr ⟨("file_search", 2), by decide, rfl⟩, nofun⟩
        toolResources := nofun }

/-- New instructions for it. -/
def briefRequest : ModifyAssistantRequest where
  instructions := "Be brief."
  assistantId := "asst_1"

/-- A new name for it. -/
def renameRequest : ModifyAssistantRequest where
  name := "Ada"
  assistantId := "asst_1"

/-- Neither is stored. -/
theorem instructions_not_modified :
    (retrieveAssistant ⟨false, false⟩ "asst_1" oneAssistant).1 = .ok (some plainAssistant) ∧
    (briefRequest.TextsFilled ∧
      ¬ Modified ⟨false, false⟩ briefRequest plainAssistant oneAssistant) ∧
    renameRequest.TextsFilled ∧
      ¬ Modified ⟨false, false⟩ renameRequest plainAssistant oneAssistant := by
  have hsame : ∀ {request : ModifyAssistantRequest},
      Modified ⟨false, false⟩ request plainAssistant oneAssistant →
      (modifyAssistant ⟨false, false⟩ request oneAssistant).1 = .ok (some plainAssistant) →
      request.applied plainAssistant = plainAssistant := fun h hrun =>
    Option.some.inj (Except.ok.inj (h.returned.symm.trans hrun))
  refine ⟨retrieveAssistant_oneAssistant _, ⟨by decide, fun h => ?_⟩, by decide, fun h => ?_⟩
  · have hinstructions := congrArg (·.instructions) (hsame h rfl)
    exact absurd hinstructions (by decide)
  · have hname := congrArg (·.name) (hsame h rfl)
    exact absurd hname (by decide)

end Instinct.AssistantRows
