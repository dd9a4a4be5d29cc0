/-
Instinct/AssistantCreation.lean

Which assistants `CreateAssistant` creates.

The values are always separated by commas, and so are the columns, except that none
stands before `metadata` (`separated_assistantColumns`): a statement with metadata does
not parse.  Without, the row is that of the assistant with the defaults filled in, and it
is read back if its tools and its tool resources are.
-/
import Instinct.AssistantRows
import Instinct.MessagesReadBack

namespace Instinct.AssistantRows

open Effects JsonStructs MessageRows StructConversion Tables

/-! ### Lists with separators -/

section Separated

variable {α : Type} {tokens : List (Token α)} {items : List α}

/-- One more item after a comma. -/
theorem separated_append_comma (h : separated tokens = some items) (a : α) :
    separated (tokens ++ [.comma, .item a]) = some (items ++ [a]) := by
  induction tokens using separated.induct generalizing items with
  | case1 b =>
      obtain rfl := Option.some.inj h
      rfl
  | case2 b rest ih =>
      rw [separated] at h
      obtain ⟨items', hrest, rfl⟩ := Option.map_eq_some_iff.mp h
      rw [List.cons_append, List.cons_append, separated, ih hrest]
      rfl
  | case3 tokens hone hmore =>
      rw [separated] at h
      · cases h
      · exact hone
      · exact hmore

/-- One more item without a comma. -/
theorem separated_append_item (h : separated tokens = some items) (a : α) :
    separated (tokens ++ [.item a]) = none := by
  induction tokens using separated.induct generalizing items with
  | case1 b => rfl
  | case2 b rest ih =>
      rw [separated] at h
      obtain ⟨items', hrest, rfl⟩ := Option.map_eq_some_iff.mp h
      rw [List.cons_append, List.cons_append, separated, ih hrest]
      rfl
  | case3 tokens hone hmore =>
      rw [separated] at h
      · cases h
      · exact hone
      · exact hmore

/-- An item that is there or not. -/
def optionalItem : Option α → List (Token α)
  | none => []
  | some a => [.comma, .item a]

theorem separated_append_optional (h : separated tokens = some items) (a? : Option α) :
    separated (tokens ++ optionalItem a?) = some (items ++ a?.toList) := by
  cases a? with
  | none =>
      rw [optionalItem, Option.toList_none, List.append_nil, List.append_nil]
      exact h
  | some a => exact separated_append_comma h a

end Separated

/-! ### The context -/

/-- The assistant that is to be created: the request with an id, and with the defaults for what
is not set. -/
def AssistantObject.completed (request : AssistantObject) (id : String) : AssistantObject :=
  { request with
    id := id
    temperature := some (request.temperature.getD (some 1))
    topP := some (request.topP.getD (some 1))
    responseFormat :=
      if isBlankString request.responseFormat then "auto" else request.responseFormat }

theorem setMember_eq {context context' : SqlContext} {name : String} {value : ContextValue}
    (hself : context' name = some value) (hothers : ∀ n, n ≠ name → context' n = context n) :
    setMember context name value = context' := by
  funext n
  rw [setMember]
  split
  · next hn => rw [hn, hself]
  · next hn => rw [hothers n hn]

section Context

variable (assistant : AssistantObject) (metadata : Option Json)

theorem setMember_topP :
    setMember (assistant.toContext metadata) "top_p" (.struct (.number 1))
      = { assistant with topP := some (some 1) }.toContext metadata := by
  refine setMember_eq rfl fun n hn => ?_
  unfold AssistantObject.toContext
  split <;> first | rfl | exact absurd rfl hn

theorem setMember_temperature :
    setMember (assistant.toContext metadata) "temperature" (.struct (.number 1))
      = { assistant with temperature := some (some 1) }.toContext metadata := by
  refine setMember_eq rfl fun n hn => ?_
  unfold AssistantObject.toContext
  split <;> first | rfl | exact absurd rfl hn

theorem setMember_responseFormat (format : String) :
    setMember (assistant.toContext metadata) "response_format" (.json (.string format))
      = { assistant with responseFormat := format }.toContext metadata := by
  refine setMember_eq rfl fun n hn => ?_
  unfold AssistantObject.toContext
  split <;> first | rfl | exact absurd rfl hn

theorem setMember_id (id : String) :
    setMember (assistant.toContext metadata) "id" (.json (.string id))
      = { assistant with id := id }.toContext metadata := by
  refine setMember_eq rfl fun n hn => ?_
  unfold AssistantObject.toContext
  split <;> first | rfl | exact absurd rfl hn

end Context

/-- The context of the request, once filled, is that of the assistant to be created. -/
theorem fillContext_toContext (request : AssistantObject) (id : String) (metadata : Option Json) :
    fillContext request id (request.toContext metadata)
      = (request.completed id).toContext metadata := by
  obtain ⟨model, name, description, instructions, fields, temperature, topP, responseFormat, id₀,
    tools, toolResources⟩ := request
  rcases topP with - | topP <;> rcases temperature with - | temperature <;>
    cases hformat : isBlankString responseFormat <;>
    simp only [fillContext, AssistantObject.completed, Option.isNone_none, Option.isNone_some,
      hformat, if_true, if_false, Bool.false_eq_true, setMember_topP, setMember_temperature,
      setMember_responseFormat, setMember_id, Option.getD_none, Option.getD_some]

/-! ### The statement -/

section Statement

variable {context : SqlContext} {name : String}

/-- The literal of a text: an empty one is NULL. -/
def plainText (s : String) : Option Text := if s = "" then none else some (.plain s)

theorem text_of_string {s : String} (h : context name = some (.json (.string s))) :
    text context name = .ok (plainText s) := by
  rw [text, h]
  rfl

theorem printNumber_of_numberJson {x : Option Rat}
    (h : context name = some (.struct (numberJson x))) : printNumber context name = .ok x := by
  rw [printNumber, h]
  cases x <;> rfl

theorem optionalValue_of_struct {j? : Option Json} (h : context name = j?.map .struct) :
    optionalValue context name
      = .ok (optionalItem (j?.map fun j => Cell.text (structText j))) := by
  cases j? with
  | none =>
      rw [optionalValue, hasMember, h]
      rfl
  | some j =>
      rw [optionalValue, hasMember, stringify, h]
      rfl

theorem optionalColumn_of_struct {j? : Option Json} (h : context name = j?.map .struct) :
    (if hasMember context name then [.comma, .item name] else [])
      = optionalItem (j?.map fun _ => name) := by
  rw [hasMember, h]
  cases j? <;> rfl

end Statement

/-- The JSON of the tools, if there are any. -/
def AssistantObject.toolsJson (assistant : AssistantObject) : Option Json :=
  if assistant.tools.isEmpty then none else some (.array (assistant.tools.map convertTool))

/-- The row of an assistant without metadata. -/
def AssistantObject.row (assistant : AssistantObject) : AssistantRow :=
  [("id", .text (plainText assistant.id)), ("name", .text (plainText assistant.name)),
    ("model", .text (plainText assistant.model)),
    ("description", .text (plainText assistant.description)),
    ("instructions", .text (plainText assistant.instructions)),
    ("temperature", .number (assistant.temperature.getD (some 0))),
    ("top_p", .number (assistant.topP.getD (some 0)))] ++
  (assistant.toolsJson.map fun j => ("tools", Cell.text (structText j))).toList ++
  (assistant.toolResources.map fun resources =>
    ("tool_resources", Cell.text (structText (convertToolResources resources)))).toList ++
  [("response_format", .text (plainText assistant.responseFormat))]

section Lists

variable (assistant : AssistantObject)

theorem toContext_tools (metadata : Option Json) :
    assistant.toContext metadata "tools" = assistant.toolsJson.map .struct := by
  rw [AssistantObject.toolsJson, AssistantObject.toContext]
  cases assistant.tools.isEmpty <;> rfl

theorem toContext_toolResources (metadata : Option Json) :
    assistant.toContext metadata "tool_resources"
      = (assistant.toolResources.map convertToolResources).map .struct := by
  rw [Option.map_map]
  rfl

/-- The columns parse if and only if there is no metadata. -/
theorem separated_assistantColumns (metadata : Option Json) :
    separated (assistantColumns (assistant.toContext metadata))
      = if metadata.isNone then some (assistant.row.map Prod.fst) else none := by
  have hfirst : separated [.item "id", .comma, .item "name", .comma, .item "model", .comma,
      .item "description", .comma, .item "instructions", .comma, .item "temperature", .comma,
      .item "top_p"] = some ["id", "name", "model", "description", "instructions", "temperature",
        "top_p"] := rfl
  have hall := separated_append_comma (separated_append_optional
    (separated_append_optional hfirst (assistant.toolsJson.map fun _ => "tools"))
    ((assistant.toolResources.map convertToolResources).map fun _ => "tool_resources"))
    "response_format"
  rw [assistantColumns, optionalColumn_of_struct (toContext_tools assistant metadata),
    optionalColumn_of_struct (toContext_toolResources assistant metadata)]
  cases metadata with
  | none =>
      have hrow : assistant.row.map Prod.fst = ["id", "name", "model", "description",
            "instructions", "temperature", "top_p"]
          ++ (assistant.toolsJson.map fun _ => "tools").toList
          ++ ((assistant.toolResources.map convertToolResources).map
              fun _ => "tool_resources").toList ++ ["response_format"] := by
        rw [AssistantObject.row]
        cases assistant.toolsJson <;> cases assistant.toolResources <;> rfl
      rw [hrow]
      exact (congrArg separated (List.append_nil _)).trans hall
  | some j => exact separated_append_item hall "metadata"

/-- The values always do. -/
theorem separated_assistantValues (metadata : Option Json) :
    ∃ values, assistantValues (assistant.toContext metadata) = .ok values ∧
      separated values = some (assistant.row.map Prod.snd
        ++ (metadata.map fun j => Cell.text (structText j)).toList) := by
  have htext : ∀ name s, assistant.toContext metadata name = some (.json (.string s)) →
      text (assistant.toContext metadata) name = .ok (plainText s) := fun _ _ => text_of_string
  have hnumber : ∀ name x, assistant.toContext metadata name = some (.struct (numberJson x)) →
      printNumber (assistant.toContext metadata) name = .ok x :=
    fun _ _ => printNumber_of_numberJson
  have hmetadata : optionalValue (assistant.toContext metadata) "metadata"
      = .ok (optionalItem (metadata.map fun j => Cell.text (structText j))) :=
    optionalValue_of_struct rfl
  have hfirst : separated
      [.item (.text (plainText assistant.id)), .comma, .item (.text (plainText assistant.name)),
        .comma, .item (.text (plainText assistant.model)), .comma,
        .item (.text (plainText assistant.description)), .comma,
        .item (.text (plainText assistant.instructions)), .comma,
        .item (.number (assistant.temperature.getD (some 0))), .comma,
        .item (.number (assistant.topP.getD (some 0)))]
      = some [Cell.text (plainText assistant.id), .text (plainText assistant.name),
        .text (plainText assistant.model), .text (plainText assistant.description),
        .text (plainText assistant.instructions),
        .number (assistant.temperature.getD (some 0)), .number (assistant.topP.getD (some 0))] :=
    rfl
  have hall := separated_append_optional (separated_append_comma (separated_append_optional
    (separated_append_optional hfirst (assistant.toolsJson.map fun j => Cell.text (structText j)))
    ((assistant.toolResources.map convertToolResources).map fun j => Cell.text (structText j)))
    (Cell.text (plainText assistant.responseFormat)))
    (metadata.map fun j => Cell.text (structText j))
  refine ⟨_, ?_, hall.trans ?_⟩
  · rw [assistantValues, htext "id" _ rfl, htext "name" _ rfl, htext "model" _ rfl,
      htext "description" _ rfl, htext "instructions" _ rfl, htext "response_format" _ rfl,
      hnumber "temperature" _ rfl, hnumber "top_p" _ rfl,
      optionalValue_of_struct (toContext_tools assistant metadata),
      optionalValue_of_struct (toContext_toolResources assistant metadata), hmetadata]
    rfl
  · rw [AssistantObject.row]
    cases assistant.toolsJson <;> cases assistant.toolResources <;> rfl

theorem nodup_columns : (assistant.row.map Prod.fst).Nodup := by
  rw [AssistantObject.row]
  cases assistant.toolsJson <;> cases assistant.toolResources <;>
    simp only [Option.map_none, Option.map_some, Option.toList_none, Option.toList_some,
      List.append_nil, List.cons_append, List.nil_append, List.map_cons, List.map_nil] <;>
    decide

/-- The context has what the statement asks for. -/
theorem checkPresence_toContext (metadata : Option Json) :
    checkPresence (assistant.toContext metadata) ["id", "model", "temperature", "top_p"]
      = .ok () := rfl

/-- The statement is well-formed if and only if there is no metadata, and its row is then that
of the assistant. -/
theorem insertAssistantStatement_toContext (metadata : Option Json) :
    ∃ statement, insertAssistantStatement (assistant.toContext metadata) = .ok statement ∧
      statement.row? = if metadata.isNone then some assistant.row else none := by
  obtain ⟨values, hvalues, hseparated⟩ := separated_assistantValues assistant metadata
  refine ⟨⟨assistantColumns (assistant.toContext metadata), values⟩, ?_, ?_⟩
  · rw [insertAssistantStatement, checkPresence_toContext, hvalues]
    rfl
  · rw [InsertStatement.row?]
    show (separated (assistantColumns (assistant.toContext metadata))).bind _ = _
    rw [separated_assistantColumns]
    cases metadata with
    | none =>
        show (separated values).bind _ = _
        rw [hseparated]
        show (if _ then some ((assistant.row.map Prod.fst).zip (assistant.row.map Prod.snd ++ []))
          else none) = _
        rw [List.append_nil, if_pos ⟨nodup_columns assistant, by simp⟩]
        have hzip := List.zip_unzip assistant.row
        rw [List.unzip_eq_map] at hzip
        exact congrArg some hzip
    | some j => rfl

end Lists

/-! ### The row -/

/-- An assistant as it is put in the table: the texts that must not be NULL are there, the
numbers too, and there is no metadata. -/
structure Complete (assistant : AssistantObject) : Prop where
  id : assistant.id ≠ ""
  model : assistant.model ≠ ""
  responseFormat : assistant.responseFormat ≠ ""
  temperature : assistant.temperature ≠ none
  topP : assistant.topP ≠ none
  metadata : assistant.metadata = none

section Reading

variable {nulls : NullMessages} {assistant : AssistantObject}

theorem lookup_tools : assistant.row.lookup "tools"
    = assistant.toolsJson.map fun j => Cell.text (structText j) := by
  rw [AssistantObject.row]
  cases assistant.toolsJson <;> cases assistant.toolResources <;> rfl

theorem lookup_toolResources : assistant.row.lookup "tool_resources"
    = assistant.toolResources.map fun resources =>
      Cell.text (structText (convertToolResources resources)) := by
  rw [AssistantObject.row]
  cases assistant.toolsJson <;> cases assistant.toolResources <;> rfl

theorem lookup_responseFormat : assistant.row.lookup "response_format"
    = some (.text (plainText assistant.responseFormat)) := by
  rw [AssistantObject.row]
  cases assistant.toolsJson <;> cases assistant.toolResources <;> rfl

theorem lookup_metadata : assistant.row.lookup "metadata" = none := by
  rw [AssistantObject.row]
  cases assistant.toolsJson <;> cases assistant.toolResources <;> rfl

theorem idText_row (h : assistant.id ≠ "") : idText assistant.row = assistant.id := by
  have hlookup : assistant.row.lookup "id" = some (.text (some (.plain assistant.id))) :=
    congrArg (some ∘ Cell.text) (if_neg h)
  rw [idText, hlookup]

theorem readString_plainText (s : String) : readString (plainText s) = .ok s := by
  rw [plainText]
  split
  · next h => rw [h]; rfl
  · rfl

theorem readTools_array_iff {items : List Json} {tools : List AssistantToolObject} :
    readTools nulls (structText (.array items)) = .ok tools ↔
      items.mapM (parseTool nulls) = some tools := by
  show ((items.mapM (parseTool nulls)).elim (.error conversionError) .ok : Except Exn _) = _ ↔ _
  cases items.mapM (parseTool nulls) <;> simp

theorem readToolResources_convert_iff (resources : AssistantToolResources) :
    readToolResources (structText (convertToolResources resources)) = .ok (some resources) ↔
      resources.Kept := by
  rw [← parseToolResources_convertToolResources_iff]
  obtain ⟨members, hmembers⟩ : ∃ members, convertToolResources resources = .ofMembers members :=
    ⟨_, rfl⟩
  rw [hmembers]
  cases members with
  | nil => exact iff_of_false nofun nofun
  | cons member members =>
      show (parseToolResources (.object (member :: members))).elim _ _ = _ ↔
        parseToolResources (.object (member :: members)) = _
      cases parseToolResources (.object (member :: members)) <;> simp

/-- The tools are read back if and only if every one of them is. -/
theorem readTools_iff :
    (columnText assistant.row "tools" >>= readTools nulls) = .ok assistant.tools ↔
      ∀ tool ∈ assistant.tools, MessageRows.assistantToolType.Declares tool.type := by
  rw [columnText, lookup_tools, AssistantObject.toolsJson, ← parseTools_convertTools_iff]
  cases htools : assistant.tools with
  | nil => exact iff_of_true rfl rfl
  | cons tool tools => exact readTools_array_iff

theorem readToolResources_iff :
    (columnText assistant.row "tool_resources" >>= readToolResources)
        = .ok assistant.toolResources ↔
      ∀ resources ∈ assistant.toolResources, resources.Kept := by
  rw [columnText, lookup_toolResources]
  cases hresources : assistant.toolResources with
  | none => exact iff_of_true rfl nofun
  | some resources =>
      simp only [Option.mem_some_iff, forall_eq']
      exact readToolResources_convert_iff resources

/-- A row is accepted if and only if its numbers are finite. -/
theorem notNull_row_iff (h : Complete assistant) :
    NotNull assistant.row ↔ assistant.temperature ≠ some none ∧ assistant.topP ≠ some none := by
  have htext : ∀ s : String, s ≠ "" → (Cell.text (plainText s)).isNull = false := fun s hs => by
    rw [plainText, if_neg hs]
    rfl
  have hnumber : ∀ x : Option (Option Rat), x ≠ none →
      ((Cell.number (x.getD (some 0))).isNull = false ↔ x ≠ some none) := by
    rintro (- | - | x) hx
    · exact absurd rfl hx
    · exact iff_of_false nofun fun h => h rfl
    · exact iff_of_true rfl nofun
  have hformat : ((assistant.row.lookup "response_format").elim true Cell.isNull) = false := by
    rw [lookup_responseFormat]
    exact htext _ h.responseFormat
  rw [← hnumber _ h.temperature, ← hnumber _ h.topP]
  constructor
  · intro hrow
    exact ⟨hrow "temperature" (by decide), hrow "top_p" (by decide)⟩
  · rintro ⟨htemperature, htopP⟩
    exact List.forall_mem_cons.mpr ⟨htext _ h.id, List.forall_mem_cons.mpr ⟨htext _ h.model,
      List.forall_mem_cons.mpr ⟨htemperature, List.forall_mem_cons.mpr ⟨htopP,
        List.forall_mem_singleton.mpr hformat⟩⟩⟩⟩

theorem map_getD_of_finite {x : Option (Option Rat)} (hset : x ≠ none) (hfinite : x ≠ some none) :
    (x.getD (some 0)).map some = x := by
  rcases x with - | - | x
  · exact absurd rfl hset
  · exact absurd rfl hfinite
  · rfl

/-- A row is read back if and only if the tools and the tool resources in it are. -/
theorem convertAssistantRow_iff (h : Complete assistant) (hrow : NotNull assistant.row) :
    convertAssistantRow nulls assistant.row = .ok assistant ↔
      (∀ tool ∈ assistant.tools, MessageRows.assistantToolType.Declares tool.type) ∧
      ∀ resources ∈ assistant.toolResources, resources.Kept := by
  obtain ⟨htemperature, htopP⟩ := (notNull_row_iff h).mp hrow
  have htext : ∀ name s, assistant.row.lookup name = some (.text (plainText s)) →
      (columnText assistant.row name >>= readString) = .ok s := fun name s hname => by
    rw [columnText, hname]
    exact readString_plainText s
  have hnumber : ∀ name x, x ≠ none → x ≠ some none →
      assistant.row.lookup name = some (.number (x.getD (some 0))) →
      (columnNumber assistant.row name).map (·.map some) = .ok x :=
    fun name x hset hfinite hname => by
      rw [columnNumber, hname]
      exact congrArg Except.ok (map_getD_of_finite hset hfinite)
  rw [convertAssistantRow_eq_ok_iff, ← readTools_iff, ← readToolResources_iff]
  constructor
  · intro hreads
    exact ⟨hreads.tools, hreads.toolResources⟩
  · rintro ⟨htools, hresources⟩
    exact
      { id := htext "id" _ rfl
        name := htext "name" _ rfl
        model := htext "model" _ rfl
        description := htext "description" _ rfl
        instructions := htext "instructions" _ rfl
        temperature := hnumber "temperature" _ h.temperature htemperature rfl
        topP := hnumber "top_p" _ h.topP htopP rfl
        tools := htools
        toolResources := hresources
        responseFormat := htext "response_format" _ lookup_responseFormat
        metadata := by
          rw [columnText, lookup_metadata, h.metadata]
          rfl }

end Reading

/-! ### The creation -/

/-- What `CreateAssistant` creates: no metadata, numbers that are finite, tools of a type that
has a name, and tool resources that are kept. -/
structure AssistantObject.Creatable (request : AssistantObject) : Prop where
  metadata : request.metadata = none
  temperature : request.temperature ≠ some none
  topP : request.topP ≠ some none
  tools : ∀ tool ∈ request.tools, MessageRows.assistantToolType.Declares tool.type
  toolResources : ∀ resources ∈ request.toolResources, resources.Kept

section Creation

variable {nulls : NullMessages} {request : AssistantObject} {id : String}

/-- A statement with metadata is not well-formed. -/
theorem not_wellFormed_of_metadata {fields : Struct} (h : request.metadata = some fields)
    {statement : InsertStatement} (hbuilt : assistantStatement id request = .ok statement) :
    ¬ statement.WellFormed := by
  rw [assistantStatement, convertAssistant, h] at hbuilt
  obtain ⟨context, hcontext, hbuilt⟩ := checks_eq_ok.mp hbuilt
  obtain ⟨members, -, hcontext⟩ := checks_eq_ok.mp hcontext
  obtain rfl := Except.ok.inj hcontext
  rw [fillContext_toContext] at hbuilt
  obtain ⟨statement', hbuilt', hrow⟩ :=
    insertAssistantStatement_toContext (request.completed id) (some (.ofMembers members))
  obtain rfl := Except.ok.inj (hbuilt.symm.trans hbuilt')
  rw [InsertStatement.WellFormed, hrow]
  exact Bool.false_ne_true

/-- One without has the row of the assistant to be created. -/
theorem assistantStatement_of_no_metadata (h : request.metadata = none) :
    ∃ statement, assistantStatement id request = .ok statement ∧
      statement.row? = some (request.completed id).row := by
  obtain ⟨statement, hbuilt, hrow⟩ :=
    insertAssistantStatement_toContext (request.completed id) none
  refine ⟨statement, ?_, hrow⟩
  rw [assistantStatement, convertAssistant, h, ← hbuilt, ← fillContext_toContext]
  rfl

theorem complete_completed (hmodel : isBlankString request.model = false)
    (hid : isBlankString id = false) (h : request.metadata = none) :
    Complete (request.completed id) where
  id := by
    rintro rfl
    cases hid
  model := fun hempty => by
    rw [show request.model = "" from hempty] at hmodel
    cases hmodel
  responseFormat := by
    show (if isBlankString request.responseFormat then "auto" else request.responseFormat) ≠ ""
    split
    · decide
    · next hformat =>
        intro hempty
        rw [hempty] at hformat
        exact hformat rfl
  temperature := Option.some_ne_none _
  topP := Option.some_ne_none _
  metadata := h

theorem completed_finite_iff {x : Option (Option Rat)} :
    some (x.getD (some 1)) ≠ some none ↔ x ≠ some none := by
  rcases x with - | - | x <;> simp

/-- What happens to a request without metadata: its row is stored, if it has no NULL where none
may be, and read back. -/
theorem createAssistant_of_no_metadata {number : Nat} {table : AssistantTable}
    (hmodel : isBlankString request.model = false)
    (hfresh : generateNextObjectId "asst" number ∉ table.rows.map idText)
    (h : request.metadata = none) (hid : id = generateNextObjectId "asst" number) :
    (createAssistant nulls number request table).1
      = if NotNull (request.completed id).row then
          (convertAssistantRow nulls (request.completed id).row).map some
        else .error (.client "Constraint Error: NOT NULL constraint failed") := by
  obtain ⟨statement, hbuilt, hrow⟩ := @assistantStatement_of_no_metadata request id h
  have hkey : idText (request.completed id).row = id := by
    refine idText_row fun hempty => ?_
    have hblank := generateNextObjectId_not_blank "asst" number
    rw [← hid, show id = "" from hempty] at hblank
    cases hblank
  rw [createAssistant, Action.liftM_bind_of_ok (assertNotBlank_of hmodel), ← hid,
    Action.liftM_bind_of_ok hbuilt]
  by_cases hnotNull : NotNull (request.completed id).row
  · rw [← hid, ← hkey] at hfresh
    obtain ⟨table', hinsert⟩ : ∃ table', table.insert _ hnotNull = some table' :=
      Table.insert_isSome hfresh
    have hexecute : executeInsert statement table = (.ok (), table') := by
      rw [executeInsert, hrow]
      simp only [dif_pos hnotNull, hinsert]
    have hmem : (request.completed id).row ∈ table'.rows := by
      rw [Table.rows_insert hinsert]
      exact List.mem_append_right _ List.mem_cons_self
    have hfind : table'.find? (fun row => decide (idText row = id))
        = some (request.completed id).row := by
      refine Table.find?_eq_some_of_mem hmem (decide_eq_true hkey) fun row hrow => ?_
      rw [of_decide_eq_true hrow, hkey]
    rw [Action.bind_of_ok hexecute, if_pos hnotNull, retrieveAssistant, hfind]
  · have hexecute : executeInsert statement table
        = (.error (.client "Constraint Error: NOT NULL constraint failed"), table) := by
      rw [executeInsert, hrow]
      simp only [dif_neg hnotNull]
    rw [Action.bind_of_error hexecute, if_neg hnotNull]

/-- **The assistants that are created.** -/
theorem createAssistant_right_iff (nulls : NullMessages) (number : Nat)
    (request : AssistantObject) (table : AssistantTable)
    (hmodel : isBlankString request.model = false)
    (hfresh : generateNextObjectId "asst" number ∉ table.rows.map idText) :
    ((∃ statement,
        assistantStatement (generateNextObjectId "asst" number) request = .ok statement ∧
        statement.WellFormed) ∧
      (createAssistant nulls number request table).1
        = .ok (some (request.completed (generateNextObjectId "asst" number))))
      ↔ request.Creatable := by
  have hid := generateNextObjectId_not_blank "asst" number
  cases hmetadata : request.metadata with
  | some fields =>
      refine iff_of_false ?_ fun hcreatable => ?_
      · rintro ⟨⟨statement, hbuilt, hformed⟩, -⟩
        exact not_wellFormed_of_metadata hmetadata hbuilt hformed
      · rw [hcreatable.metadata] at hmetadata
        cases hmetadata
  | none =>
      have hcomplete := complete_completed hmodel hid hmetadata
      obtain ⟨statement, hbuilt, hrow⟩ := assistantStatement_of_no_metadata hmetadata
      have hformed : ∃ statement,
          assistantStatement (generateNextObjectId "asst" number) request = .ok statement ∧
          statement.WellFormed :=
        ⟨statement, hbuilt, by rw [InsertStatement.WellFormed, hrow]; rfl⟩
      rw [createAssistant_of_no_metadata hmodel hfresh hmetadata rfl, and_iff_right hformed]
      have hfinite := (notNull_row_iff hcomplete).trans
        (and_congr completed_finite_iff completed_finite_iff)
      constructor
      · intro hcreated
        split at hcreated
        · next hnotNull =>
            obtain ⟨htemperature, htopP⟩ := hfinite.mp hnotNull
            obtain ⟨assistant, hread, hsame⟩ := map_eq_ok.mp hcreated
            rw [Option.some.inj hsame] at hread
            obtain ⟨htools, hresources⟩ :=
              (convertAssistantRow_iff hcomplete hnotNull).mp hread
            exact ⟨hmetadata, htemperature, htopP, htools, hresources⟩
        · cases hcreated
      · intro hcreatable
        have hnotNull := hfinite.mpr ⟨hcreatable.temperature, hcreatable.topP⟩
        rw [if_pos hnotNull, (convertAssistantRow_iff hcomplete hnotNull).mpr
          ⟨hcreatable.tools, hcreatable.toolResources⟩]
        rfl

end Creation

/-- A request with a temperature, two tools and the files of one of them.  The rest is left to
the defaults. -/
def plotterRequest : AssistantObject where
  model := "gpt-4o"
  temperature := some (some (1 / 2))
  tools := [{ type := 1 }, { type := 3, function := some { name := "plot" } }]
  toolResources := some { codeInterpreter := some ["file_1"] }

/-- It is created. -/
theorem createAssistant_right_plotter :
    (∃ statement, assistantStatement (generateNextObjectId "asst" 1) plotterRequest
        = .ok statement ∧ statement.WellFormed) ∧
      (createAssistant ⟨false, false⟩ 1 plotterRequest .empty).1 = .ok (some
        (plotterRequest.completed (generateNextObjectId "asst" 1))) := by
  refine (createAssistant_right_iff ⟨false, false⟩ 1 plotterRequest .empty (by decide)
    List.not_mem_nil).mpr ?_
  exact
    { metadata := rfl
      temperature := nofun
      topP := nofun
      tools := by
        intro tool htool
        rcases List.mem_pair.mp htool with rfl | rfl
        · exact List.mem_map.mpr ⟨("code_interpreter", 1), by decide, rfl⟩
        · exact List.mem_map.mpr ⟨("function", 3), by decide, rfl⟩
      toolResources := by
        rintro _ ⟨⟩
        exact ⟨.inl nofun, by rintro _ ⟨⟩; exact List.cons_ne_nil _ _, nofun⟩ }

/-- One with metadata is not created: its columns do not parse. -/
theorem metadata_not_created : ¬ ∃ nulls, ∀ (number : Nat) (request : AssistantObject)
    (table : AssistantTable), isBlankString request.model = false →
    generateNextObjectId "asst" number ∉ table.rows.map idText →
    (∃ statement, assistantStatement (generateNextObjectId "asst" number) request
        = .ok statement ∧ statement.WellFormed) ∧
      (createAssistant nulls number request table).1
        = .ok (some (request.completed (generateNextObjectId "asst" number))) := by
  rintro ⟨nulls, h⟩
  obtain ⟨⟨statement, hbuilt, hformed⟩, -⟩ :=
    h 1 { model := "gpt-4o", metadata := some [("k", .string "v")] } .empty (by decide)
      List.not_mem_nil
  exact not_wellFormed_of_metadata rfl hbuilt hformed

end Instinct.AssistantRows
