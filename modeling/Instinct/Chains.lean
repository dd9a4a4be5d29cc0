/-
Instinct/Chains.lean

Chains of prompts, models and memory: `LLMChain.hpp`, `MessageChain.hpp` and `RAGChain.hpp`, with
`EphemeralChatMemory`.

A chain is a step function between an input parser and an output parser.  What it does is read
off the evaluation of its step, in which the hash maps may be passed through in any order.

* `CreateLLMChain` with a memory puts the whole input under "question" of the prompt, beside the
  history.  Neither is a primitive value, so the prompt template discards both.
* `CreateConversationalRAGFunction` asks the model twice, first with the history and the question.
-/
import Instinct.Entities
import Instinct.StepFunctions
import Mathlib.Data.Countable.Basic
import Mathlib.Data.Fintype.EquivFin
import Mathlib.Logic.Equiv.List
import Mathlib.Tactic.DeriveCountable

namespace Instinct.Chains

open Cells Effects JsonContexts SortedMaps StepFunctions

/-! ### Messages in contexts -/

/-- `Generation`. -/
structure Generation where
  text : String := ""
  message : Option Message := none
  isChunk : Bool := false
  deriving DecidableEq

/-- `MessageUtils::StringifyGeneration`. -/
def Generation.stringify (generation : Generation) : String :=
  match generation.message with
  | some message => message.content
  | none => generation.text

/-- The JSON text of messages of one type, by `MessageToJsonString` and `JsonStringToMessage`. -/
structure MessageFormat (α : Type) where
  toJsonString : α → String
  ofJsonString : String → Option α
  readBack : ∀ m, ofJsonString (toJsonString m) = some m

/-- The formats of the messages that chains put into contexts. -/
structure Formats where
  promptValue : MessageFormat PromptValue
  generation : MessageFormat Generation
  messageList : MessageFormat (List Message)

section Messages

variable {α : Type} (format : MessageFormat α)

/-- `PutMessage`. -/
def putMessage (message : α) : Json :=
  .object [(messageWrapperDataKey, .string (format.toJsonString message))]

/-- `RequireMessage`. -/
def requireMessage (data : Json) : Except Exn α := do
  assertTrue (isMessage data = true) "expecting a message wrapper type"
  match data.find? messageWrapperDataKey with
  | some (.string text) =>
      match format.ofJsonString text with
      | some message => pure message
      | none => .error (Exn.client "message deserialization failed")
  | _ => .error (.other "type must be string")

theorem requireMessage_putMessage (message : α) :
    requireMessage format (putMessage format message) = .ok message := by
  show (match format.ofJsonString (format.toJsonString message) with
    | some message => Except.ok message
    | none => .error (Exn.client "message deserialization failed")) = _
  rw [format.readBack]

end Messages

/-! ### There are formats -/

instance countableChar : Countable Char :=
  Function.Injective.countable fun _ _ h => Char.toNat_inj.mp h

instance countableString : Countable String :=
  Function.Injective.countable fun _ _ h => String.toList_injective h

deriving instance Countable for ToolCallFunctionObject, ToolCallObjectType, ToolCallObject, Message,
  PromptValue, Generation

/-- The messages of a type are told apart by some texts. -/
noncomputable def MessageFormat.ofCountable (α : Type) [Countable α] : MessageFormat α :=
  let number := Classical.choose (exists_injective_nat α)
  { toJsonString := Infinite.natEmbedding String ∘ number
    ofJsonString := Function.partialInv (Infinite.natEmbedding String ∘ number)
    readBack := Function.partialInv_left ((Infinite.natEmbedding String).injective.comp
      (Classical.choose_spec (exists_injective_nat α))) }

noncomputable instance : Inhabited Formats := ⟨⟨.ofCountable _, .ofCountable _, .ofCountable _⟩⟩

/-! ### The state that chains share -/

/-- What a model is asked: an `LLM` a text, a chat model messages. -/
inductive Request
  | prompt (text : String)
  | messages (messages : List Message)
  deriving DecidableEq

/-- The messages of an `EphemeralChatMemory`, and what the model was asked so far. -/
structure Conversation where
  messageList : List Message := []
  asked : List Request := []

/-- A language model: what it generates may depend on all that it was asked. -/
structure LanguageModel where
  toRequest : PromptValue → Except Exn Request
  generate : List Request → Request → Except Exn (List (List Generation))
  emptyResponse : String
  emptyOutput : String

/-- `conv_prompt_value_variant_to_message_list`, for a `PromptValue`. -/
def toMessageList : PromptValue → List Message
  | .chat messages => messages
  | .string text => [{ role := "user", content := text }]
  | .unset => []

/-- `MessageUtils::CombineMessages`. -/
def combineMessages (messages : List Message) : String :=
  "\n".intercalate (messages.map fun m => m.role ++ ": " ++ m.content)

/-- `conv_prompt_value_variant_to_string`, for a `PromptValue`. -/
def toPromptString : PromptValue → Except Exn String
  | .chat messages => .ok (combineMessages messages)
  | .string text => .ok text
  | .unset => .error (.instinct "PromptValue is empty")

/-- A `BaseChatModel`. -/
def chatModel (generate : List Request → Request → Except Exn (List (List Generation))) :
    LanguageModel where
  toRequest value := .ok (.messages (toMessageList value))
  generate := generate
  emptyResponse := "Empty response"
  emptyOutput := "Empty response of first output"

/-- A `BaseLLM`. -/
def llm (generate : List Request → Request → Except Exn (List (List Generation))) :
    LanguageModel where
  toRequest value := (toPromptString value).map .prompt
  generate := generate
  emptyResponse := "Empty Response"
  emptyOutput := "Empty Response in first model output"

/-- The first generation of the first result. -/
def LanguageModel.first (model : LanguageModel) (results : List (List Generation)) :
    Except Exn Generation := do
  assertNonEmptyRange results model.emptyResponse
  assertNonEmptyRange (results.headD []) model.emptyOutput
  pure ((results.headD []).headD {})

/-- Ask the model. -/
def LanguageModel.ask (model : LanguageModel) (value : PromptValue) :
    Action Exn Conversation Generation := do
  let request ← Action.ofExcept (model.toRequest value)
  let asked ← Action.gets Conversation.asked
  Action.modify fun c => { c with asked := asked ++ [request] }
  let results ← Action.ofExcept (model.generate asked request)
  Action.ofExcept (model.first results)

/-- The message by which an answer is remembered. -/
def Generation.toMessage (generation : Generation) : Message :=
  generation.message.getD { role := "assistant", content := generation.text }

/-- `EphemeralChatMemory::SaveMemory`. -/
def saveMemory (value : PromptValue) (generation : Generation) : Action Exn Conversation Unit :=
  Action.modify fun c =>
    { c with
      messageList := c.messageList ++ (match value with
        | .chat messages => messages
        | .string text => [{ role := "human", content := text }]
        | .unset => []) ++ [generation.toMessage] }

/-! ### The steps of chains -/

/-- A function that puts what it makes of its context there, and returns the context. -/
def onContext {σ : Type} (f : Json → Action Exn σ Json) : StepLambda σ := fun (data, w) =>
  match f data w with
  | (.ok data', w') => (.ok .same, data', w')
  | (.error e, w') => (.error e, data, w')

/-- A prompt template, by what it makes of the variables. -/
structure PromptTemplate where
  inputKeys : List String := ["question"]
  formatPrompt : List (String × Json) → Except Exn PromptValue

/-- The variables that `BasePromptTemplate::Invoke` takes from a context: only primitive values
of a mapping. -/
def PromptTemplate.templateVariables (template : PromptTemplate) (hash : HashOrder) (data : Json) :
    Except Exn (List (String × Json)) :=
  if isPrimitive data then
    match template.inputKeys with
    | key :: _ => (requireString data).map fun text => [(key, .string text)]
    | [] => .error (.undefinedBehaviour "input_keys[0]")
  else
    (getMappingObject data).map fun mapping =>
      (hash.order mapping).foldl (fun m e => if isPrimitive e.2 then set e.1 e.2 m else m) []

/-- `SaveMemoryFunctionOptions`. -/
structure SaveMemoryFunctionOptions where
  isQuestionString : Bool
  promptVariableKey : String := "question"
  answerVariableKey : String := "answer"

/-- `mapping_data.at(key)`. -/
def atKey (mapping : List (String × Json)) (key : String) : Except Exn Json :=
  match mapping.find? fun e => e.1 = key with
  | some e => .ok e.2
  | none => .error (.other "out_of_range")

section Steps

variable (formats : Formats) (hash : HashOrder)

/-- `BasePromptTemplate::Invoke`. -/
def PromptTemplate.step (template : PromptTemplate) : StepFunction Conversation :=
  .lambda (onContext fun data => do
    let vars ← Action.ofExcept (template.templateVariables hash data)
    let value ← Action.ofExcept (template.formatPrompt vars)
    pure (putMessage formats.promptValue value))

/-- `AsModelFunction`. -/
def LanguageModel.step (model : LanguageModel) : StepFunction Conversation :=
  .lambda (onContext fun data => do
    let value ← Action.ofExcept (requireMessage formats.promptValue data)
    let generation ← model.ask value
    pure (putMessage formats.generation generation))

/-- `AsInstructorFunction`. -/
def instructorFunction (formatInstruction : String) : StepFunction Conversation :=
  .lambda (onContext fun _ => pure (.string formatInstruction))

/-- `AsLoadMemoryFunction`. -/
def loadMemoryFunction : StepFunction Conversation :=
  .lambda (onContext fun _ => do
    let messages ← Action.gets Conversation.messageList
    pure (putMessage formats.messageList messages))

/-- `AsSaveMemoryFunction`. -/
def saveMemoryFunction (options : SaveMemoryFunctionOptions) : StepFunction Conversation :=
  .lambda (onContext fun data => do
    let mapping ← Action.ofExcept (getMappingObject data)
    let answer ← Action.ofExcept (atKey mapping options.answerVariableKey)
    let generation ← Action.ofExcept (requireMessage formats.generation answer)
    let question ← Action.ofExcept (atKey mapping options.promptVariableKey)
    let value ← Action.ofExcept (if options.isQuestionString then
        (requireString question).map .string
      else requireMessage formats.promptValue question)
    saveMemory value generation
    pure data)

/-- `stringify_generation`. -/
def stringifyGeneration : StepFunction Conversation :=
  .lambda (onContext fun data => do
    let generation ← Action.ofExcept (requireMessage formats.generation data)
    pure (.string generation.stringify))

/-- `combine_chat_history`. -/
def combineChatHistory : StepFunction Conversation :=
  .lambda (onContext fun data => do
    let messages ← Action.ofExcept (requireMessage formats.messageList data)
    pure (.string (combineMessages messages)))

/-- `DocumentUtils::CombineDocuments`, by the texts of the documents. -/
def combineDocuments (texts : List String) : String :=
  texts.foldl (fun buf text => buf ++ text ++ "\n") ""

/-- `AsContextRetrieverFunction`, given the texts of the documents that are retrieved. -/
def contextRetrieverFunction (retrieve : String → Except Exn (List String)) :
    StepFunction Conversation :=
  .lambda (onContext fun data => do
    let question ← Action.ofExcept (requireString data)
    let texts ← Action.ofExcept (retrieve question)
    pure (.string (combineDocuments texts)))

/-! ### Chains -/

/-- The step function of `CreateLLMChain` without memory. -/
def llmFunction (template : PromptTemplate) (model : LanguageModel) (formatInstruction : String) :
    StepFunction Conversation :=
  pipes
    (.mapping "format_instruction" (instructorFunction formatInstruction)
      [("question", .passthrough)])
    [template.step formats hash, model.step formats]

/-- The step function of `CreateLLMChain` with a memory. -/
def llmMemoryFunction (template : PromptTemplate) (model : LanguageModel)
    (formatInstruction : String) : StepFunction Conversation :=
  let contextFn := .mapping "format_instruction" (instructorFunction formatInstruction)
    [("chat_history", loadMemoryFunction formats), ("question", .passthrough)]
  pipes
    (.mapping "answer" (pipes contextFn [template.step formats hash, model.step formats])
      [("question", .selection "question")])
    [saveMemoryFunction formats { isQuestionString := true }, .selection "answer"]

/-- `CreateConversationalRAGFunction`. -/
def conversationalRAGFunction (retrieve : String → Except Exn (List String))
    (model : LanguageModel) (questionTemplate answerTemplate : PromptTemplate) :
    StepFunction Conversation :=
  let historyFn := .mapping "question" .passthrough
    [("chat_history", pipes (loadMemoryFunction formats) [combineChatHistory formats])]
  let questionFn := .mapping "standalone_question"
    (pipes historyFn [questionTemplate.step formats hash, model.step formats,
      stringifyGeneration formats])
    [("question", .passthrough)]
  let contextFn := .mapping "context"
    (pipes (.selection "question") [contextRetrieverFunction retrieve])
    [("standalone_question", .selection "standalone_question"),
      ("question", .selection "question")]
  let answerFn := .mapping "answer"
    (pipes (answerTemplate.step formats hash) [model.step formats])
    [("question", .selection "question")]
  pipes questionFn [contextFn, answerFn,
    saveMemoryFunction formats { isQuestionString := true }, .selection "answer"]

end Steps

/-- `MessageChain`: a step function between two parsers. -/
structure MessageChain (Input Output : Type) where
  inputParser : Input → Except Exn Json
  stepFunction : StepFunction Conversation
  outputParser : Json → Except Exn Output

/-- `MessageChain::Invoke`: the input parser makes a new context. -/
def MessageChain.invoke {Input Output : Type} (hash : HashOrder)
    (chain : MessageChain Input Output) (input : Input) :
    Action Exn (Memory Json Conversation) Output := do
  let data ← Action.ofExcept (chain.inputParser input)
  let output ← callNew (chain.stepFunction.invoke hash) data
  let result ← read nullContext output
  Action.ofExcept (chain.outputParser result)

/-- Calls one after the other.  What a call throws is caught by its caller. -/
def MessageChain.converse {Input Output : Type} (hash : HashOrder)
    (chain : MessageChain Input Output) :
    List Input → Memory Json Conversation → List (Except Exn Output) × Memory Json Conversation
  | [], m => ([], m)
  | input :: inputs, m =>
      let (out, m') := chain.invoke hash input m
      let (outs, m'') := MessageChain.converse hash chain inputs m'
      (out :: outs, m'')

/-- `StringOutputParser::Invoke`. -/
def stringOutputParser (formats : Formats) (data : Json) : Except Exn String :=
  (requireMessage formats.generation data).map Generation.stringify

/-- `CreateTextRAGChain`. -/
def textRAGChain (formats : Formats) (hash : HashOrder)
    (retrieve : String → Except Exn (List String)) (model : LanguageModel)
    (questionTemplate answerTemplate : PromptTemplate) : MessageChain PromptValue String where
  inputParser value := (toPromptString value).map .string
  stepFunction :=
    conversationalRAGFunction formats hash retrieve model questionTemplate answerTemplate
  outputParser := stringOutputParser formats

/-- `CreateTextChain` with a memory. -/
def textMemoryChain (formats : Formats) (hash : HashOrder) (model : LanguageModel)
    (template : PromptTemplate) : MessageChain PromptValue String where
  inputParser value := (toPromptString value).map .string
  stepFunction := llmMemoryFunction formats hash template model ""
  outputParser := stringOutputParser formats

/-! ### What the steps make of a context -/

section Results

variable {σ : Type} {hash : HashOrder}

theorem result_onContext (f : Json → Action Exn σ Json) (data : Json) :
    (StepFunction.lambda (onContext f)).result hash (some data)
      = f data >>= fun data' => pure (some data') := by
  funext w
  refine (result_ofCell nullContext (onContext f) data w).trans ?_
  rcases ef : f data w with ⟨e | data', w'⟩
  · rw [Action.bind_of_error ef]
    simp only [onContext, ef]
    rfl
  · rw [Action.bind_of_ok ef]
    simp only [onContext, ef]
    rfl

theorem result_passthrough (own : Option Json) :
    (StepFunction.passthrough : StepFunction σ).result hash own = pure own := rfl

theorem result_selection {data : Json} {mapping : List (String × Json)}
    (h : getMappingObject data = .ok mapping) (variableName : String) :
    (StepFunction.selection variableName : StepFunction σ).result hash (some data)
      = pure ((mapping.find? fun e => e.1 = variableName).map Prod.snd) := by
  funext w
  refine (result_ofCell nullContext (select variableName) data w).trans ?_
  simp only [select, h]
  cases mapping.find? fun e => e.1 = variableName <;> rfl

theorem result_selection_error {data : Json} {e : Exn} (h : getMappingObject data = .error e)
    (variableName : String) :
    (StepFunction.selection variableName : StepFunction σ).result hash (some data)
      = Action.ofExcept (.error e) := by
  funext w
  refine (result_ofCell nullContext (select variableName) data w).trans ?_
  simp only [select, h]
  rfl

theorem result_pipes (first : StepFunction σ) (rest : List (StepFunction σ)) (own : Option Json) :
    (pipes first rest).result hash own
      = rest.foldl (fun x step => x >>= step.result hash) (first.result hash own) := by
  induction rest generalizing first with
  | nil => rfl
  | cons step rest ih =>
      show (pipes (pipe (some first) (some step)) rest).result hash own = _
      rw [ih, result_pipe]
      rfl

/-- The variables are the members that are primitive. -/
theorem templateVariables_contextOf (template : PromptTemplate) {members : List (String × Json)}
    (h : Sorted members) :
    template.templateVariables hash (contextOf members)
      = .ok (members.filter fun e => isPrimitive e.2) := by
  have hplain : isPrimitive (contextOf members) = false := rfl
  rw [PromptTemplate.templateVariables, hplain, if_neg Bool.false_ne_true,
    getMappingObject_wrapper]
  refine congrArg Except.ok ?_
  show (hash.order members).foldl (fun m e => if isPrimitive e.2 then set e.1 e.2 m else m) [] = _
  rw [← @List.foldl_filter (String × Json) (List (String × Json)) (fun e => isPrimitive e.2)
    (fun m e => set e.1 e.2 m)]
  exact foldl_set_of_perm ((hash.perm members).filter _) (h.filter _)

end Results

/-! ### The retrieval chain -/

section RAG

variable (formats : Formats) (retrieve : String → Except Exn (List String))
variable (model : LanguageModel) (questionTemplate answerTemplate : PromptTemplate)

/-- What the retrieval chain is for: the question is rephrased with the conversation so far, the
documents are those for the question itself, and question and answer are remembered. -/
def answerQuestion (question : String) : Action Exn Conversation Generation := do
  let messages ← Action.gets Conversation.messageList
  let value ← Action.ofExcept (questionTemplate.formatPrompt
    [("chat_history", .string (combineMessages messages)), ("question", .string question)])
  let rephrased ← model.ask value
  let texts ← Action.ofExcept (retrieve question)
  let value' ← Action.ofExcept (answerTemplate.formatPrompt
    [("context", .string (combineDocuments texts)), ("question", .string question),
      ("standalone_question", .string rephrased.stringify)])
  let answer ← model.ask value'
  saveMemory (.string question) answer
  pure answer

theorem result_historyFn (hash : KeyOrder) (question : String) :
    (StepFunction.mapping "question" .passthrough
      [("chat_history", pipes (loadMemoryFunction formats) [combineChatHistory formats])]).result
        hash.toHashOrder (some (.string question))
      = Action.gets Conversation.messageList >>= fun messages => pure (some (contextOf
          [("chat_history", .string (combineMessages messages)),
            ("question", .string question)])) := by
  rw [@result_mapping _ hash "question" "chat_history" .passthrough
    (pipes (loadMemoryFunction formats) [combineChatHistory formats]) _
    [("question", .passthrough)] (.string question) (fun _ => .string question)
    (fun history => [("chat_history", history), ("question", .string question)])
    (List.Perm.swap _ _ _) (List.forall_mem_singleton.mpr fun w => rfl)
    (fun history => @sorted_of_keys _ ["chat_history", "question"] (by decide) rfl)
    fun history => .refl _, result_pipes, loadMemoryFunction, combineChatHistory]
  simp only [List.foldl, result_onContext, Action.bind_assoc, Action.pure_bind,
    requireMessage_putMessage, Action.ofExcept_ok_bind]
  rfl

variable {formats retrieve model questionTemplate answerTemplate}

/-- What a template makes of a context of primitive members. -/
theorem result_template (template : PromptTemplate) (hash : HashOrder)
    {members : List (String × Json)} (h : Sorted members) :
    (template.step formats hash).result hash (some (contextOf members))
      = Action.ofExcept (template.formatPrompt (members.filter fun e => isPrimitive e.2))
          >>= fun value => pure (some (putMessage formats.promptValue value)) := by
  rw [PromptTemplate.step, result_onContext]
  simp only [templateVariables_contextOf template h, Action.bind_assoc, Action.ofExcept_ok_bind,
    Action.pure_bind]

theorem result_model (hash : HashOrder) (value : PromptValue) :
    (model.step formats).result hash (some (putMessage formats.promptValue value))
      = model.ask value >>= fun generation =>
          pure (some (putMessage formats.generation generation)) := by
  rw [LanguageModel.step, result_onContext]
  simp only [requireMessage_putMessage, Action.bind_assoc, Action.ofExcept_ok_bind,
    Action.pure_bind]

theorem result_stringifyGeneration (hash : HashOrder) (generation : Generation) :
    (stringifyGeneration formats).result hash (some (putMessage formats.generation generation))
      = pure (some (.string generation.stringify)) := by
  rw [stringifyGeneration, result_onContext]
  simp only [requireMessage_putMessage, Action.ofExcept_ok_bind, Action.pure_bind]

theorem result_contextRetrieverFunction (hash : HashOrder) (question : String) :
    (contextRetrieverFunction retrieve).result hash (some (.string question))
      = Action.ofExcept (retrieve question)
          >>= fun texts => pure (some (.string (combineDocuments texts))) := by
  rw [contextRetrieverFunction, result_onContext]
  simp only [Action.bind_assoc, Action.pure_bind]
  rfl

theorem result_saveMemoryFunction (hash : HashOrder) {members : List (String × Json)}
    {generation : Generation} {question : String}
    (hanswer : atKey members "answer" = .ok (putMessage formats.generation generation))
    (hquestion : atKey members "question" = .ok (.string question)) :
    (saveMemoryFunction formats { isQuestionString := true }).result hash
        (some (contextOf members))
      = saveMemory (.string question) generation >>= fun _ => pure (some (contextOf members)) := by
  rw [saveMemoryFunction, result_onContext]
  simp only [getMappingObject_wrapper, Action.ofExcept_ok_bind, hanswer,
    requireMessage_putMessage, hquestion, if_true, Action.bind_assoc]
  rfl

theorem result_questionFn (hash : KeyOrder) (question : String) :
    (StepFunction.mapping "standalone_question"
      (pipes (.mapping "question" .passthrough
          [("chat_history", pipes (loadMemoryFunction formats) [combineChatHistory formats])])
        [questionTemplate.step formats hash.toHashOrder, model.step formats,
          stringifyGeneration formats])
      [("question", .passthrough)]).result hash.toHashOrder (some (.string question))
      = (do
        let messages ← Action.gets Conversation.messageList
        let value ← Action.ofExcept (questionTemplate.formatPrompt
          [("chat_history", .string (combineMessages messages)), ("question", .string question)])
        let rephrased ← model.ask value
        pure (some (contextOf [("question", .string question),
          ("standalone_question", .string rephrased.stringify)]))) := by
  have hhistory (messages : List Message) : Sorted
      [("chat_history", Json.string (combineMessages messages)), ("question", .string question)] :=
    @sorted_of_keys _ ["chat_history", "question"] (by decide) rfl
  rw [@result_mapping _ hash _ _ _ _ _ [("question", .passthrough)] (.string question)
    (fun _ => .string question)
    (fun rephrased => [("question", .string question), ("standalone_question", rephrased)])
    (.refl _) (List.forall_mem_singleton.mpr fun w => rfl)
    (fun rephrased => @sorted_of_keys _ ["question", "standalone_question"] (by decide) rfl)
    fun rephrased => .swap _ _ _, result_pipes]
  simp only [List.foldl, result_historyFn, Action.bind_assoc, Action.pure_bind,
    result_template questionTemplate hash.toHashOrder (hhistory _), result_model,
    result_stringifyGeneration]
  rfl

theorem result_contextFn (hash : KeyOrder) (question : String) (standalone : Json) :
    (StepFunction.mapping "context"
      (pipes (.selection "question") [contextRetrieverFunction retrieve])
      [("standalone_question", .selection "standalone_question"),
        ("question", .selection "question")]).result hash.toHashOrder (some (contextOf
          [("question", .string question), ("standalone_question", standalone)]))
      = (do
        let texts ← Action.ofExcept (retrieve question)
        pure (some (contextOf [("context", .string (combineDocuments texts)),
          ("question", .string question), ("standalone_question", standalone)]))) := by
  let members : List (String × Json) :=
    [("question", .string question), ("standalone_question", standalone)]
  have hselect (name : String) :
      (StepFunction.selection name : StepFunction Conversation).result hash.toHashOrder
          (some (contextOf members))
        = pure ((members.find? fun e => e.1 = name).map Prod.snd) :=
    result_selection (getMappingObject_wrapper members) name
  rw [@result_mapping _ hash _ _ _ _ _
    [("standalone_question", .selection "standalone_question"),
      ("question", .selection "question")] (contextOf members)
    (fun key => if key = "question" then .string question else standalone)
    (fun context => ("context", context) :: members) (.refl _)
    (List.forall_mem_cons.mpr ⟨fun w => congrFun (hselect "standalone_question") w,
      List.forall_mem_singleton.mpr fun w => congrFun (hselect "question") w⟩)
    (fun context => @sorted_of_keys _ ["context", "question", "standalone_question"] (by decide)
      rfl)
    fun context => .cons _ (.swap _ _ _), result_pipes]
  simp only [List.foldl]
  rw [hselect "question"]
  show (contextRetrieverFunction retrieve).result hash.toHashOrder (some (.string question))
    >>= _ = _
  rw [result_contextRetrieverFunction, Action.bind_assoc]
  rfl

theorem result_answerFn (hash : KeyOrder) (context question standalone : String) :
    (StepFunction.mapping "answer"
      (pipes (answerTemplate.step formats hash.toHashOrder) [model.step formats])
      [("question", .selection "question")]).result hash.toHashOrder (some (contextOf
        [("context", .string context), ("question", .string question),
          ("standalone_question", .string standalone)]))
      = (do
        let value ← Action.ofExcept (answerTemplate.formatPrompt [("context", .string context),
          ("question", .string question), ("standalone_question", .string standalone)])
        let answer ← model.ask value
        pure (some (contextOf [("answer", putMessage formats.generation answer),
          ("question", .string question)]))) := by
  let members : List (String × Json) := [("context", .string context),
    ("question", .string question), ("standalone_question", .string standalone)]
  have hsorted : Sorted members :=
    @sorted_of_keys _ ["context", "question", "standalone_question"] (by decide) rfl
  have hselect : (StepFunction.selection "question" : StepFunction Conversation).result
      hash.toHashOrder (some (contextOf members)) = pure (some (.string question)) :=
    result_selection (getMappingObject_wrapper members) "question"
  rw [@result_mapping _ hash _ _ _ _ _ [("question", .selection "question")] (contextOf members)
    (fun _ => .string question) (fun answer => [("answer", answer), ("question", .string question)])
    (.refl _) (List.forall_mem_singleton.mpr fun w => congrFun hselect w)
    (fun answer => @sorted_of_keys _ ["answer", "question"] (by decide) rfl) fun answer => .refl _,
    result_pipes]
  simp only [List.foldl, result_template answerTemplate hash.toHashOrder hsorted,
    Action.bind_assoc, Action.pure_bind, result_model]
  rfl

/-- **The retrieval chain does what it is for**, in whatever order the hash maps are passed
through. -/
theorem result_conversationalRAGFunction (hash : KeyOrder) (question : String) :
    (conversationalRAGFunction formats hash.toHashOrder retrieve model questionTemplate
        answerTemplate).result hash.toHashOrder (some (.string question))
      = answerQuestion retrieve model questionTemplate answerTemplate question
          >>= fun answer => pure (some (putMessage formats.generation answer)) := by
  have hselect (answer : Json) :
      (StepFunction.selection "answer" : StepFunction Conversation).result hash.toHashOrder
          (some (contextOf [("answer", answer), ("question", .string question)]))
        = pure (some answer) :=
    result_selection (getMappingObject_wrapper [("answer", answer), ("question", .string question)])
      "answer"
  have hsave (answer : Generation) :=
    @result_saveMemoryFunction formats hash.toHashOrder
      [("answer", putMessage formats.generation answer), ("question", .string question)] answer
      question rfl rfl
  rw [conversationalRAGFunction, result_pipes]
  simp only [List.foldl, result_questionFn, result_contextFn, result_answerFn, Action.bind_assoc,
    Action.pure_bind, hsave, hselect, answerQuestion]

end RAG

/-! ### Calls of a chain -/

section Calls

variable {Input Output : Type} {chain : MessageChain Input Output}

/-- A call of a chain, seen from the state that it shares. -/
def MessageChain.respond (hash : HashOrder) (chain : MessageChain Input Output) (input : Input) :
    Action Exn Conversation Output := do
  let data ← Action.ofExcept (chain.inputParser input)
  let result ← chain.stepFunction.result hash (some data)
  Action.ofExcept (result.elim (.error nullContext) chain.outputParser)

/-- **A call of a chain** adds contexts, and does what its step makes of the parsed input. -/
theorem invoke_eq_respond (hash : KeyOrder) (chain : MessageChain Input Output) (input : Input)
    (m : Memory Json Conversation) :
    ∃ added, chain.invoke hash.toHashOrder input m
      = ((chain.respond hash.toHashOrder input m.world).1,
          ⟨m.cells ++ added, (chain.respond hash.toHashOrder input m.world).2⟩) := by
  rw [MessageChain.invoke, MessageChain.respond]
  rcases chain.inputParser input with e | data
  · exact ⟨[], by rw [List.append_nil]; rfl⟩
  · simp only [Action.ofExcept_ok_bind]
    obtain ⟨seen, hresult, hkeeps, hout⟩ :=
      refines_callNew (refines_evaluate hash chain.stepFunction) m data
    rcases hcall : callNew (chain.stepFunction.invoke hash.toHashOrder) data m with ⟨out, m'⟩
    rw [hcall] at hresult hkeeps hout
    have hstep : chain.stepFunction.result hash.toHashOrder (some data) m.world
        = (seen, m'.world) := hresult
    refine ⟨m'.cells.drop m.cells.length, ?_⟩
    rw [← hkeeps.cells_eq_append]
    cases hout with
    | error e => rw [Action.bind_of_error hcall, Action.bind_of_error hstep]
    | @ok output result hadded =>
        rw [Action.bind_of_ok hcall, Action.bind_of_ok hstep]
        cases result with
        | none => rw [Action.bind_of_error (read_of_value hadded.value_eq)]; rfl
        | some data' => rw [Action.bind_of_ok (read_of_value hadded.value_eq)]; rfl

end Calls

/-! ### Conversations -/

section Conversations

variable (retrieve : String → Except Exn (List String)) (model : LanguageModel)
variable (questionTemplate answerTemplate : PromptTemplate)

/-- A conversation, without contexts: one question after the other is answered. -/
def dialogue : List PromptValue → Conversation → List (Except Exn Generation) × Conversation
  | [], c => ([], c)
  | value :: values, c =>
      let (r, c') := (Action.ofExcept (toPromptString value) >>=
        answerQuestion retrieve model questionTemplate answerTemplate) c
      let (rs, c'') := dialogue values c'
      (r :: rs, c'')

/-- The messages of one exchange. -/
def exchange (question : String) (answer : Generation) : List Message :=
  [{ role := "human", content := question }, answer.toMessage]

/-- What is remembered of one call: its exchange, if it returned. -/
def rememberedOf (value : PromptValue) (r : Except Exn Generation) : List Message :=
  match toPromptString value, r with
  | .ok question, .ok answer => exchange question answer
  | _, _ => []

/-- What is remembered of a conversation. -/
def remembered (values : List PromptValue) (rs : List (Except Exn Generation)) : List Message :=
  (values.zip rs).flatMap fun call => rememberedOf call.1 call.2

variable {retrieve model questionTemplate answerTemplate}

theorem ask_cases (value : PromptValue) (c : Conversation) :
    (∃ e, model.ask value c = (.error e, c)) ∨
      ∃ request r, model.toRequest value = .ok request ∧
        model.ask value c = (r, { c with asked := c.asked ++ [request] }) := by
  rw [LanguageModel.ask]
  rcases model.toRequest value with e | request
  · exact .inl ⟨e, rfl⟩
  · refine .inr ⟨request, _, rfl, Prod.ext rfl ?_⟩
    show ((Action.ofExcept (model.generate c.asked request) >>= fun results =>
      Action.ofExcept (model.first results)) { c with asked := c.asked ++ [request] }).2 = _
    rcases model.generate c.asked request with e | results <;> rfl

/-- The model is asked no more than what one value says, and nothing is remembered. -/
structure Asks (c c' : Conversation) : Prop where
  remembers : c'.messageList = c.messageList
  asked : c.asked <+: c'.asked

theorem asks_ask (value : PromptValue) (c : Conversation) : Asks c (model.ask value c).2 := by
  rcases @ask_cases model value c with ⟨e, h⟩ | ⟨request, r, -, h⟩
  · rw [h]
    exact ⟨rfl, List.prefix_rfl⟩
  · rw [h]
    exact ⟨rfl, List.prefix_append _ _⟩

/-- What answering a question has come to, given what is remembered so far. -/
structure Answered (model : LanguageModel) (questionTemplate : PromptTemplate) (question : String)
    (c : Conversation) (out : Except Exn Generation × Conversation) : Prop where
  remembers : out.2.messageList
    = c.messageList ++ (match out.1 with
      | .ok answer => exchange question answer
      | .error _ => [])
  asked : ∀ request, (out.2.asked.drop c.asked.length).head? = some request →
    ∃ value, questionTemplate.formatPrompt
        [("chat_history", .string (combineMessages c.messageList)), ("question", .string question)]
          = .ok value ∧ model.toRequest value = .ok request

theorem answered_answerQuestion (question : String) (c : Conversation) :
    Answered model questionTemplate question c
      (answerQuestion retrieve model questionTemplate answerTemplate question c) := by
  have hthrow (e : Exn) : Answered model questionTemplate question c (.error e, c) :=
    ⟨(List.append_nil _).symm, fun request h => by
      rw [List.drop_length] at h
      cases h⟩
  rw [answerQuestion, Action.bind_of_ok (Action.gets_apply _ c)]
  rcases hvalue : questionTemplate.formatPrompt
    [("chat_history", .string (combineMessages c.messageList)), ("question", .string question)]
    with e | value
  · exact hthrow e
  · rw [Action.ofExcept_ok_bind]
    rcases @ask_cases model value c with ⟨e, hask⟩ | ⟨request, r, hrequest, hask⟩
    · rw [Action.bind_of_error hask]
      exact hthrow e
    · -- from here on the first request is that of the question
      have hasked {c' : Conversation} (h : c.asked ++ [request] <+: c'.asked) :
          ∀ request', (c'.asked.drop c.asked.length).head? = some request' →
            ∃ value, questionTemplate.formatPrompt
                [("chat_history", .string (combineMessages c.messageList)),
                  ("question", .string question)] = .ok value ∧
              model.toRequest value = .ok request' := by
        intro request' h'
        obtain ⟨rest, hrest⟩ := h
        rw [← hrest, List.append_assoc, List.drop_left] at h'
        cases h'
        exact ⟨value, hvalue, hrequest⟩
      have hthrow' {c' : Conversation} (hc' : Asks { c with asked := c.asked ++ [request] } c')
          (e : Exn) : Answered model questionTemplate question c (.error e, c') :=
        ⟨hc'.remembers.trans (List.append_nil _).symm, hasked hc'.asked⟩
      rcases r with e | rephrased
      · rw [Action.bind_of_error hask]
        exact hthrow' ⟨rfl, List.prefix_rfl⟩ e
      · rw [Action.bind_of_ok hask]
        rcases retrieve question with e | texts
        · exact hthrow' ⟨rfl, List.prefix_rfl⟩ e
        · rw [Action.ofExcept_ok_bind]
          rcases answerTemplate.formatPrompt [("context", .string (combineDocuments texts)),
            ("question", .string question), ("standalone_question", .string rephrased.stringify)]
            with e | value'
          · exact hthrow' ⟨rfl, List.prefix_rfl⟩ e
          · rw [Action.ofExcept_ok_bind]
            have hasks := @asks_ask model value' { c with asked := c.asked ++ [request] }
            rcases hask' : model.ask value' { c with asked := c.asked ++ [request] }
              with ⟨e | answer, c'⟩
            · rw [hask'] at hasks
              rw [Action.bind_of_error hask']
              exact hthrow' hasks e
            · rw [hask'] at hasks
              rw [Action.bind_of_ok hask']
              refine ⟨?_, hasked hasks.asked⟩
              show (c'.messageList ++ [_]) ++ [_] = _
              rw [hasks.remembers, List.append_assoc]
              rfl

/-- One call, with what is remembered of it and the first request in it. -/
theorem answered_call (value : PromptValue) (c : Conversation) {r : Except Exn Generation}
    {c' : Conversation}
    (hcall : (Action.ofExcept (toPromptString value) >>=
      answerQuestion retrieve model questionTemplate answerTemplate) c = (r, c')) :
    c'.messageList = c.messageList ++ rememberedOf value r ∧
      ∀ request, (c'.asked.drop c.asked.length).head? = some request →
        ∃ question prompt, toPromptString value = .ok question ∧
          questionTemplate.formatPrompt
            [("chat_history", .string (combineMessages c.messageList)),
              ("question", .string question)] = .ok prompt ∧
          model.toRequest prompt = .ok request := by
  rcases hparse : toPromptString value with e | question
  · rw [hparse] at hcall
    cases hcall
    simp only [rememberedOf, hparse, List.append_nil, List.drop_length]
    exact ⟨trivial, fun request h => by cases h⟩
  · have h := @answered_answerQuestion retrieve model questionTemplate answerTemplate question c
    rw [hparse, Action.ofExcept_ok_bind] at hcall
    rw [hcall] at h
    refine ⟨?_, fun request hrequest => ?_⟩
    · rw [h.remembers]
      simp only [rememberedOf, hparse]
      cases r <;> rfl
    · obtain ⟨prompt, hprompt, hasked⟩ := h.asked request hrequest
      exact ⟨question, prompt, rfl, hprompt, hasked⟩

/-- What a conversation leaves behind, by induction over its questions. -/
theorem dialogue_messageList (values : List PromptValue) (c : Conversation) :
    (dialogue retrieve model questionTemplate answerTemplate values c).2.messageList
      = c.messageList ++ remembered values
          (dialogue retrieve model questionTemplate answerTemplate values c).1 := by
  induction values generalizing c with
  | nil => exact (List.append_nil _).symm
  | cons value values ih =>
      rw [dialogue]
      rcases hcall : (Action.ofExcept (toPromptString value) >>=
        answerQuestion retrieve model questionTemplate answerTemplate) c with ⟨r, c'⟩
      show (dialogue retrieve model questionTemplate answerTemplate values c').2.messageList
        = c.messageList ++ (rememberedOf value r ++ remembered values _)
      rw [ih, (answered_call value c hcall).1, List.append_assoc]

/-- A call of the retrieval chain answers its question. -/
theorem respond_textRAGChain (formats : Formats) (hash : KeyOrder) (value : PromptValue) :
    (textRAGChain formats hash.toHashOrder retrieve model questionTemplate answerTemplate).respond
        hash.toHashOrder value
      = (Action.ofExcept (toPromptString value) >>=
          answerQuestion retrieve model questionTemplate answerTemplate) >>= fun answer =>
            pure answer.stringify := by
  have hparse (answer : Generation) :
      stringOutputParser formats (putMessage formats.generation answer) = .ok answer.stringify := by
    rw [stringOutputParser, requireMessage_putMessage]
    rfl
  show (Action.ofExcept ((toPromptString value).map Json.string) >>= fun data =>
    (conversationalRAGFunction formats hash.toHashOrder retrieve model questionTemplate
      answerTemplate).result hash.toHashOrder (some data) >>= fun result =>
      Action.ofExcept (result.elim (.error nullContext) (stringOutputParser formats))) = _
  rcases toPromptString value with e | question
  · rfl
  · rw [Action.ofExcept_ok_bind]
    show (conversationalRAGFunction formats hash.toHashOrder retrieve model questionTemplate
      answerTemplate).result hash.toHashOrder (some (.string question)) >>= _ = _
    rw [result_conversationalRAGFunction, Action.bind_assoc]
    simp only [Action.pure_bind, Option.elim_some, hparse]
    rfl

/-- **A conversation with the retrieval chain** is the one without contexts, by induction over
its questions. -/
theorem converse_eq_dialogue (formats : Formats) (hash : KeyOrder) (values : List PromptValue)
    (m : Memory Json Conversation) :
    ∃ added,
      (textRAGChain formats hash.toHashOrder retrieve model questionTemplate
          answerTemplate).converse hash.toHashOrder values m
        = ((dialogue retrieve model questionTemplate answerTemplate values m.world).1.map
            (·.map Generation.stringify), ⟨m.cells ++ added,
          (dialogue retrieve model questionTemplate answerTemplate values m.world).2⟩) := by
  induction values generalizing m with
  | nil => exact ⟨[], by rw [List.append_nil]; rfl⟩
  | cons value values ih =>
      obtain ⟨added, hcall⟩ := invoke_eq_respond hash
        (textRAGChain formats hash.toHashOrder retrieve model questionTemplate answerTemplate)
        value m
      rw [MessageChain.converse, hcall, respond_textRAGChain, dialogue]
      rcases hanswer : (Action.ofExcept (toPromptString value) >>=
        answerQuestion retrieve model questionTemplate answerTemplate) m.world with ⟨r, c'⟩
      obtain ⟨added', hrest⟩ := ih ⟨m.cells ++ added, c'⟩
      refine ⟨added ++ added', ?_⟩
      rcases r with e | answer
      · rw [Action.bind_of_error hanswer]
        simp only [hrest, List.append_assoc]
        rfl
      · rw [Action.bind_of_ok hanswer]
        simp only [Action.pure_apply, hrest, List.append_assoc]
        rfl

/-- **Main result.**  In every conversation with the retrieval chain the memory holds the
exchanges of the calls that returned, in their order.  The next call does what
`answerQuestion` says, and the first request in it is made of the question and of the text of
these exchanges. -/
theorem textRAGChain_remembers (formats : Formats) (hash : KeyOrder)
    (retrieve : String → Except Exn (List String)) (model : LanguageModel)
    (questionTemplate answerTemplate : PromptTemplate) (values : List PromptValue)
    (value : PromptValue) (m : Memory Json Conversation) :
    let chain := textRAGChain formats hash.toHashOrder retrieve model questionTemplate
      answerTemplate
    ∃ answers c added r c' added',
      chain.converse hash.toHashOrder values m
          = (answers.map (·.map Generation.stringify), ⟨m.cells ++ added, c⟩) ∧
        c.messageList = m.world.messageList ++ remembered values answers ∧
        chain.invoke hash.toHashOrder value ⟨m.cells ++ added, c⟩
          = (r.map Generation.stringify, ⟨m.cells ++ added ++ added', c'⟩) ∧
        (Action.ofExcept (toPromptString value) >>=
          answerQuestion retrieve model questionTemplate answerTemplate) c = (r, c') ∧
        ∀ request, (c'.asked.drop c.asked.length).head? = some request →
          ∃ question prompt, toPromptString value = .ok question ∧
            questionTemplate.formatPrompt
              [("chat_history", .string (combineMessages c.messageList)),
                ("question", .string question)] = .ok prompt ∧
            model.toRequest prompt = .ok request := by
  intro chain
  obtain ⟨added, hconverse⟩ := @converse_eq_dialogue retrieve model questionTemplate answerTemplate
    formats hash values m
  have hmessages := @dialogue_messageList retrieve model questionTemplate answerTemplate values
    m.world
  rcases hdialogue : dialogue retrieve model questionTemplate answerTemplate values m.world
    with ⟨answers, c⟩
  rw [hdialogue] at hconverse hmessages
  obtain ⟨added', hinvoke⟩ := invoke_eq_respond hash chain value ⟨m.cells ++ added, c⟩
  rcases hcall : (Action.ofExcept (toPromptString value) >>=
    answerQuestion retrieve model questionTemplate answerTemplate) c with ⟨r, c'⟩
  refine ⟨answers, c, added, r, c', added', hconverse, hmessages, ?_, hcall,
    (answered_call value c hcall).2⟩
  rw [hinvoke, respond_textRAGChain]
  rcases r with e | answer
  · rw [Action.bind_of_error hcall]
    rfl
  · rw [Action.bind_of_ok hcall]
    rfl

end Conversations

/-! ### The chain with and without a memory -/

section MemoryChain

variable {formats : Formats} {model : LanguageModel} {template : PromptTemplate}
variable {formatInstruction : String}

/-- Without a memory the question is in the prompt. -/
theorem result_llmFunction (hash : KeyOrder) (question : String) :
    (llmFunction formats hash.toHashOrder template model formatInstruction).result
        hash.toHashOrder (some (.string question))
      = (do
        let value ← Action.ofExcept (template.formatPrompt
          [("format_instruction", .string formatInstruction), ("question", .string question)])
        let generation ← model.ask value
        pure (some (putMessage formats.generation generation))) := by
  have hsorted : Sorted
      [("format_instruction", Json.string formatInstruction), ("question", .string question)] :=
    @sorted_of_keys _ ["format_instruction", "question"] (by decide) rfl
  rw [llmFunction, result_pipes]
  simp only [List.foldl]
  rw [@result_mapping _ hash _ _ _ _ _ [("question", .passthrough)] (.string question)
    (fun _ => .string question)
    (fun instruction => [("format_instruction", instruction), ("question", .string question)])
    (.refl _) (List.forall_mem_singleton.mpr fun w => rfl)
    (fun instruction => @sorted_of_keys _ ["format_instruction", "question"] (by decide) rfl)
    fun instruction => .refl _, instructorFunction, result_onContext]
  simp only [Action.bind_assoc, Action.pure_bind, Option.elim_some, Action.ofExcept_ok_bind,
    result_template template hash.toHashOrder hsorted, result_model]
  rfl

/-- The question in a mapping. -/
def questionOf (data : Json) : Option String :=
  match getMappingObject data with
  | .ok mapping =>
      match mapping.find? fun e => e.1 = "question" with
      | some (_, .string question) => some question
      | _ => none
  | .error _ => none

/-- The variables of the prompt: of the input only what is primitive, and nothing of the
history. -/
def promptVariables (formatInstruction : String) (data : Json) : List (String × Json) :=
  ("format_instruction", .string formatInstruction) ::
    if isPrimitive data then [("question", data)] else []

theorem result_memoryContextFn (hash : KeyOrder) (data : Json) :
    (StepFunction.mapping "format_instruction" (instructorFunction formatInstruction)
      [("chat_history", loadMemoryFunction formats), ("question", .passthrough)]).result
        hash.toHashOrder (some data)
      = Action.gets Conversation.messageList >>= fun messages => pure (some (contextOf
          [("chat_history", putMessage formats.messageList messages),
            ("format_instruction", .string formatInstruction), ("question", data)])) := by
  rw [@result_mapping _ hash _ "chat_history" _ (loadMemoryFunction formats) _
    [("format_instruction", instructorFunction formatInstruction), ("question", .passthrough)]
    data (fun key => if key = "question" then data else .string formatInstruction)
    (fun history => [("chat_history", history),
      ("format_instruction", .string formatInstruction), ("question", data)])
    (.swap _ _ _) (List.forall_mem_cons.mpr ⟨fun w => rfl,
      List.forall_mem_singleton.mpr fun w => rfl⟩)
    (fun history => @sorted_of_keys _ ["chat_history", "format_instruction", "question"]
      (by decide) rfl)
    fun history => .refl _, loadMemoryFunction, result_onContext]
  simp only [Action.bind_assoc, Action.pure_bind]
  rfl

/-- What the model is asked, whatever the history is. -/
theorem result_memoryAnswer (hash : KeyOrder) (data : Json) :
    (pipes (.mapping "format_instruction" (instructorFunction formatInstruction)
        [("chat_history", loadMemoryFunction formats), ("question", .passthrough)])
      [template.step formats hash.toHashOrder, model.step formats]).result hash.toHashOrder
        (some data)
      = (do
        let value ← Action.ofExcept (template.formatPrompt (promptVariables formatInstruction data))
        let generation ← model.ask value
        pure (some (putMessage formats.generation generation))) := by
  have hsorted (messages : List Message) : Sorted
      [("chat_history", putMessage formats.messageList messages),
        ("format_instruction", .string formatInstruction), ("question", data)] :=
    @sorted_of_keys _ ["chat_history", "format_instruction", "question"] (by decide) rfl
  have hvars (messages : List Message) :
      ([("chat_history", putMessage formats.messageList messages),
        ("format_instruction", Json.string formatInstruction), ("question", data)].filter
          fun e => isPrimitive e.2) = promptVariables formatInstruction data := by
    show ("format_instruction", _) :: List.filter _ [("question", data)] = _
    rw [promptVariables, List.filter_singleton]
    cases isPrimitive data <;> rfl
  rw [result_pipes]
  simp only [List.foldl, result_memoryContextFn, Action.bind_assoc, Action.pure_bind,
    result_template template hash.toHashOrder (hsorted _), hvars, result_model]
  rfl

theorem keeps_ask (value : PromptValue) :
    Action.Keeps Conversation.messageList (model.ask value) := fun c =>
  (asks_ask value c).remembers

theorem keeps_memoryAnswer (hash : KeyOrder) (data : Json) :
    Action.Keeps Conversation.messageList ((pipes
        (.mapping "format_instruction" (instructorFunction formatInstruction)
          [("chat_history", loadMemoryFunction formats), ("question", .passthrough)])
        [template.step formats hash.toHashOrder, model.step formats]).result hash.toHashOrder
          (some data)) := by
  rw [result_memoryAnswer]
  exact Action.keeps_bind (Action.keeps_liftM _) fun value =>
    Action.keeps_bind (keeps_ask value) fun _ => Action.keeps_pure _

/-- What selecting the question comes to. -/
theorem result_question (hash : HashOrder) (data : Json) :
    (∃ e, (StepFunction.selection "question" : StepFunction Conversation).result hash (some data)
        = Action.ofExcept (.error e) ∧ questionOf data = none) ∨
      ((StepFunction.selection "question" : StepFunction Conversation).result hash (some data)
        = pure none ∧ questionOf data = none) ∨
      ∃ found, (StepFunction.selection "question" : StepFunction Conversation).result hash
          (some data) = pure (some found) ∧ isPrimitive data = false ∧
        questionOf data = (match found with
          | .string question => some question
          | _ => none) := by
  rcases hmapping : getMappingObject data with e | mapping
  · exact .inl ⟨e, result_selection_error hmapping _, by simp only [questionOf, hmapping]⟩
  · have hobject : isPrimitive data = false := by
      cases data with
      | array _ => rfl
      | object _ => rfl
      | _ => cases hmapping
    rw [result_selection hmapping]
    rcases hfind : mapping.find? fun e => e.1 = "question" with - | ⟨key, found⟩
    · exact .inr (.inl ⟨by rw [hfind]; rfl, by simp only [questionOf, hmapping, hfind]⟩)
    · refine .inr (.inr ⟨found, by rw [hfind]; rfl, hobject, ?_⟩)
      simp only [questionOf, hmapping, hfind]
      cases found <;> rfl

/-- What is made of an input that has something under "question". -/
theorem result_memoryMapping (hash : KeyOrder) {data found : Json}
    (hselect : (StepFunction.selection "question" : StepFunction Conversation).result
      hash.toHashOrder (some data) = pure (some found)) (hdata : isPrimitive data = false) :
    (StepFunction.mapping "answer" (pipes
        (.mapping "format_instruction" (instructorFunction formatInstruction)
          [("chat_history", loadMemoryFunction formats), ("question", .passthrough)])
        [template.step formats hash.toHashOrder, model.step formats])
      [("question", .selection "question")]).result hash.toHashOrder (some data)
      = (do
        let value ← Action.ofExcept
          (template.formatPrompt [("format_instruction", .string formatInstruction)])
        let generation ← model.ask value
        pure (some (contextOf [("answer", putMessage formats.generation generation),
          ("question", found)]))) := by
  rw [@result_mapping _ hash _ _ _ _ _ [("question", .selection "question")] data
    (fun _ => found) (fun answer => [("answer", answer), ("question", found)]) (.refl _)
    (List.forall_mem_singleton.mpr fun w => congrFun hselect w)
    (fun answer => @sorted_of_keys _ ["answer", "question"] (by decide) rfl) fun answer => .refl _,
    result_memoryAnswer, promptVariables, hdata, if_neg Bool.false_ne_true]
  simp only [Action.bind_assoc, Action.pure_bind]
  rfl

/-- A call with a question. -/
theorem result_llmMemoryFunction (hash : KeyOrder) {data : Json} {question : String}
    (h : questionOf data = some question) :
    (llmMemoryFunction formats hash.toHashOrder template model formatInstruction).result
        hash.toHashOrder (some data)
      = (do
        let value ← Action.ofExcept
          (template.formatPrompt [("format_instruction", .string formatInstruction)])
        let generation ← model.ask value
        saveMemory (.string question) generation
        pure (some (putMessage formats.generation generation))) := by
  obtain ⟨e, -, hnone⟩ | ⟨-, hnone⟩ | ⟨found, hselect, hdata, hquestion⟩ :=
    result_question hash.toHashOrder data
  · rw [h] at hnone
    cases hnone
  · rw [h] at hnone
    cases hnone
  · obtain rfl : found = .string question := by
      rw [h] at hquestion
      cases found with
      | string text => rw [Option.some.inj hquestion]
      | _ => cases hquestion
    have hanswer (answer : Json) :
        (StepFunction.selection "answer" : StepFunction Conversation).result hash.toHashOrder
            (some (contextOf [("answer", answer), ("question", .string question)]))
          = pure (some answer) :=
      result_selection
        (getMappingObject_wrapper [("answer", answer), ("question", .string question)]) "answer"
    have hsave (answer : Generation) :=
      @result_saveMemoryFunction formats hash.toHashOrder
        [("answer", putMessage formats.generation answer), ("question", .string question)] answer
        question rfl rfl
    rw [llmMemoryFunction, result_pipes]
    simp only [List.foldl, result_memoryMapping hash hselect hdata, Action.bind_assoc,
      Action.pure_bind, hsave, hanswer]

/-- A call without a question. -/
theorem llmMemoryFunction_throws (hash : KeyOrder) {data : Json} (h : questionOf data = none)
    (c : Conversation) :
    ∃ e c', (llmMemoryFunction formats hash.toHashOrder template model formatInstruction).result
        hash.toHashOrder (some data) c = (.error e, c') ∧ c'.messageList = c.messageList := by
  rw [llmMemoryFunction, result_pipes]
  simp only [List.foldl]
  -- the mapping throws if nothing is selected for the question
  have hthrows (hselect : ∀ w w' b,
        (StepFunction.selection "question" : StepFunction Conversation).result hash.toHashOrder
          (some data) w ≠ (.ok (some b), w'))
      (hkeeps : Action.Keeps Conversation.messageList
        ((StepFunction.selection "question" : StepFunction Conversation).result hash.toHashOrder
          (some data))) := @result_mapping_error _ hash "answer"
      (pipes (.mapping "format_instruction" (instructorFunction formatInstruction)
          [("chat_history", loadMemoryFunction formats), ("question", .passthrough)])
        [template.step formats hash.toHashOrder, model.step formats])
      [("question", .selection "question")] data _ Conversation.messageList
      (List.forall_mem_cons.mpr ⟨keeps_memoryAnswer hash data,
        List.forall_mem_singleton.mpr hkeeps⟩)
      ("question", .selection "question") (List.mem_cons_of_mem _ (List.mem_singleton.mpr rfl))
      hselect c
  obtain ⟨e, hselect, -⟩ | ⟨hselect, -⟩ | ⟨found, hselect, hdata, hquestion⟩ :=
    result_question hash.toHashOrder data
  · obtain ⟨thrown, c', hmapping, hkept⟩ := hthrows
      (fun w w' b => by rw [hselect]; intro hb; cases hb) (by rw [hselect]; exact fun _ => rfl)
    exact ⟨thrown, c', Action.bind_of_error (Action.bind_of_error hmapping), hkept⟩
  · obtain ⟨thrown, c', hmapping, hkept⟩ := hthrows
      (fun w w' b => by rw [hselect]; intro hb; cases hb) (by rw [hselect]; exact fun _ => rfl)
    exact ⟨thrown, c', Action.bind_of_error (Action.bind_of_error hmapping), hkept⟩
  · obtain ⟨thrown, hthrown⟩ : ∃ thrown, requireString found = .error thrown := by
      rw [h] at hquestion
      cases found with
      | string question => cases hquestion
      | _ => exact ⟨_, rfl⟩
    have hsave (answer : Generation) :
        (saveMemoryFunction formats { isQuestionString := true }).result hash.toHashOrder
            (some (contextOf
              [("answer", putMessage formats.generation answer), ("question", found)]))
          = Action.ofExcept (.error thrown) := by
      have hanswer : atKey [("answer", putMessage formats.generation answer),
          ("question", found)] "answer" = .ok (putMessage formats.generation answer) := rfl
      have hfound : atKey [("answer", putMessage formats.generation answer),
          ("question", found)] "question" = .ok found := rfl
      rw [saveMemoryFunction, result_onContext]
      simp only [getMappingObject_wrapper, Action.ofExcept_ok_bind, hanswer,
        requireMessage_putMessage, hfound, hthrown, if_true]
      rfl
    rw [result_memoryMapping hash hselect hdata]
    simp only [Action.bind_assoc, Action.pure_bind, hsave]
    rcases template.formatPrompt [("format_instruction", .string formatInstruction)] with e | value
    · exact ⟨e, c, rfl, rfl⟩
    · rw [Action.ofExcept_ok_bind]
      have hkept := @keeps_ask model value c
      rcases hask : model.ask value c with ⟨e | answer, c'⟩
      · rw [hask] at hkept
        exact ⟨e, c', Action.bind_of_error hask, hkept⟩
      · rw [hask] at hkept
        exact ⟨thrown, c', Action.bind_of_ok hask, hkept⟩

/-- A call of the chain that throws before it remembers anything. -/
theorem invoke_throws {Input Output : Type} (hash : KeyOrder)
    {inputParser : Input → Except Exn Json} {outputParser : Json → Except Exn Output}
    {input : Input} (h : ∀ data, inputParser input = .ok data → questionOf data = none)
    (m : Memory Json Conversation) :
    ∃ e m', MessageChain.invoke hash.toHashOrder ⟨inputParser,
        llmMemoryFunction formats hash.toHashOrder template model formatInstruction,
        outputParser⟩ input m = (.error e, m') ∧ m'.world.messageList = m.world.messageList := by
  obtain ⟨added, hinvoke⟩ := invoke_eq_respond hash ⟨inputParser,
    llmMemoryFunction formats hash.toHashOrder template model formatInstruction, outputParser⟩
    input m
  rw [hinvoke]
  rcases hparse : inputParser input with e | data
  · simp only [MessageChain.respond, hparse]
    exact ⟨e, _, rfl, rfl⟩
  · obtain ⟨e, c', hresult, hkept⟩ := @llmMemoryFunction_throws formats model template
      formatInstruction hash data (h data hparse) m.world
    simp only [MessageChain.respond, hparse, Action.ofExcept_ok_bind,
      Action.bind_of_error hresult]
    exact ⟨e, _, rfl, hkept⟩

/-- **Main result.**  In the chain that `CreateLLMChain` makes with a memory, whatever is
remembered and whatever the input is, a call either throws and remembers nothing, or it has asked
the model once, for the format instruction alone: neither the question nor the history is in the
prompt.  With the input parser of `CreateTextChain` every call throws. -/
theorem llmMemoryChain_forgets (formats : Formats) (hash : KeyOrder) (template : PromptTemplate)
    (model : LanguageModel) :
    (∀ (Input Output : Type) (inputParser : Input → Except Exn Json)
        (outputParser : Json → Except Exn Output) (formatInstruction : String) (input : Input)
        (m : Memory Json Conversation),
      ∃ out m', MessageChain.invoke hash.toHashOrder ⟨inputParser,
          llmMemoryFunction formats hash.toHashOrder template model formatInstruction,
          outputParser⟩ input m = (out, m') ∧
        ((∃ e, out = .error e ∧ m'.world.messageList = m.world.messageList) ∨
          ∃ data question value request answer, inputParser input = .ok data ∧
            questionOf data = some question ∧
            template.formatPrompt [("format_instruction", .string formatInstruction)]
              = .ok value ∧
            model.toRequest value = .ok request ∧
            m'.world = { messageList := m.world.messageList ++ exchange question answer,
                         asked := m.world.asked ++ [request] } ∧
            out = outputParser (putMessage formats.generation answer))) ∧
      ∀ (values : List PromptValue) (m : Memory Json Conversation),
        let run := (textMemoryChain formats hash.toHashOrder model template).converse
          hash.toHashOrder values m
        (∀ out ∈ run.1, ∃ e, out = .error e) ∧ run.2.world.messageList = m.world.messageList := by
  refine ⟨fun Input Output inputParser outputParser formatInstruction input m => ?_,
    fun values => ?_⟩
  · by_cases h : ∃ data question, inputParser input = .ok data ∧ questionOf data = some question
    · obtain ⟨data, question, hparse, hquestion⟩ := h
      obtain ⟨added, hinvoke⟩ := invoke_eq_respond hash ⟨inputParser,
        llmMemoryFunction formats hash.toHashOrder template model formatInstruction, outputParser⟩
        input m
      refine ⟨_, _, hinvoke, ?_⟩
      simp only [MessageChain.respond, hparse, Action.ofExcept_ok_bind,
        result_llmMemoryFunction hash hquestion, Action.bind_assoc, Action.pure_bind]
      rcases template.formatPrompt [("format_instruction", .string formatInstruction)]
        with e | value
      · exact .inl ⟨e, rfl, rfl⟩
      · simp only [Action.ofExcept_ok_bind]
        rcases @ask_cases model value m.world with ⟨e, hask⟩ | ⟨request, r, hrequest, hask⟩
        · rw [Action.bind_of_error hask]
          exact .inl ⟨e, rfl, rfl⟩
        · rcases r with e | answer
          · rw [Action.bind_of_error hask]
            exact .inl ⟨e, rfl, rfl⟩
          · rw [Action.bind_of_ok hask]
            refine .inr ⟨data, question, value, request, answer, rfl, hquestion, rfl, hrequest, ?_,
              rfl⟩
            show (⟨m.world.messageList ++ [_] ++ [_], _⟩ : Conversation) = _
            rw [List.append_assoc]
            rfl
    · have hnone : ∀ data, inputParser input = .ok data → questionOf data = none := by
        intro data hparse
        cases hquestion : questionOf data with
        | none => rfl
        | some question => exact absurd ⟨data, question, hparse, hquestion⟩ h
      obtain ⟨e, m', hinvoke, hkept⟩ := @invoke_throws formats model template formatInstruction
        Input Output hash inputParser outputParser input hnone m
      exact ⟨_, m', hinvoke, .inl ⟨e, rfl, hkept⟩⟩
  · induction values with
    | nil => exact fun m => ⟨fun out hout => absurd hout List.not_mem_nil, rfl⟩
    | cons value values ih =>
        intro m
        have hnone : ∀ data, (toPromptString value).map Json.string = .ok data →
            questionOf data = none := by
          intro data hdata
          obtain ⟨text, -, rfl⟩ := map_eq_ok.mp hdata
          rfl
        obtain ⟨e, m', hinvoke, hkept⟩ := @invoke_throws formats model template "" PromptValue
          String hash (fun value => (toPromptString value).map .string)
          (stringOutputParser formats) value hnone m
        obtain ⟨hrest, hrestKept⟩ := ih m'
        have hrun : (textMemoryChain formats hash.toHashOrder model template).converse
            hash.toHashOrder (value :: values) m
          = (.error e :: ((textMemoryChain formats hash.toHashOrder model template).converse
              hash.toHashOrder values m').1,
            ((textMemoryChain formats hash.toHashOrder model template).converse
              hash.toHashOrder values m').2) := by
          rw [MessageChain.converse, textMemoryChain, hinvoke]
        simp only [hrun]
        exact ⟨List.forall_mem_cons.mpr ⟨⟨e, rfl⟩, hrest⟩, hrestKept.trans hkept⟩

end MemoryChain

end Instinct.Chains
