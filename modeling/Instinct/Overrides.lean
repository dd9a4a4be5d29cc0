/-
Instinct/Overrides.lean

What a run takes over from its request and what from the assistant.

A request sets a field of proto3 by giving it a value that is not the default:
a text that is not empty, a number that is not zero.  `wantedOverrides` and
`wantedInstructions` say what `BuildAgentExecutor_` should come to: the value of
the request where it sets one, otherwise that of the assistant.

The way from the request to the executor leads through a row of the database.
`CreateRun` and `CreateThreadAndRun` keep the default values of the request, so
the row always has a temperature and a `top_p`, and the assistant is never asked
for its own.  `overrides_follow_request_iff` says when this makes no difference.
-/
import Instinct.Handler
import Instinct.RunServiceSpec

namespace Instinct

open Effects

/-! ### What the request and the assistant ask for -/

/-- A text field, where it is set. -/
def textField (text : String) : Option String := if text = "" then none else some text

/-- A number field without presence, where it is set. -/
def numberField (number : Rat) : Option Rat := if number = 0 then none else some number

/-- The overrides, field by field: the request goes before the assistant. -/
def wantedOverrides (model : String) (options : RunOptions) (assistant : AssistantObject) :
    ModelOverrides :=
  { modelName := (textField model).or (textField assistant.model)
    temperature := (numberField options.temperature).or assistant.temperature
    topP := (numberField options.topP).or assistant.topP
    stopWords := ["<END_OF_PLAN>", "<END_OF_RESPONSE>"] }

/-- The instructions: the request goes before the assistant. -/
def wantedInstructions (options : RunOptions) (assistant : AssistantObject) : Option String :=
  (textField options.instructions).or (textField assistant.instructions)

/-- The executor of a run is built as the request and the assistant want it. -/
def Follows (run : RunObject) (model : String) (options : RunOptions)
    (assistant : AssistantObject) : Prop :=
  modelOverrides run assistant = wantedOverrides model options assistant ∧
  firstNotBlank run.instructions assistant.instructions = wantedInstructions options assistant

/-! ### When the row says the same -/

/-- The text that decides, that of the request or else that of the assistant, is not made
of blanks only. -/
def TextKept (own other : String) : Prop :=
  (own ≠ "" → isBlankString own = false) ∧
  (own = "" → other ≠ "" → isBlankString other = false)

/-- The number is set by the request, or the assistant has the default value as well. -/
def NumberKept (own : Rat) (other : Option Rat) : Prop := own ≠ 0 ∨ other = some 0

instance (own other : String) : Decidable (TextKept own other) :=
  inferInstanceAs (Decidable (_ ∧ _))

instance (own : Rat) (other : Option Rat) : Decidable (NumberKept own other) :=
  inferInstanceAs (Decidable (_ ∨ _))

/-- What keeps the way through the row from changing a field. -/
structure OverridesKept (model : String) (options : RunOptions) (assistant : AssistantObject) :
    Prop where
  model : TextKept model assistant.model
  instructions : TextKept options.instructions assistant.instructions
  temperature : NumberKept options.temperature assistant.temperature
  topP : NumberKept options.topP assistant.topP

theorem textField_of_not_blank {text : String} (h : isBlankString text = false) :
    textField text = some text := by
  refine if_neg fun hempty => ?_
  rw [hempty, isBlankString_empty] at h
  exact absurd h (by decide)

/-- Two texts that decide in turn: blanks are skipped in the row, but set in a message. -/
theorem firstNotBlank_eq_iff (own other : String) :
    firstNotBlank own other = (textField own).or (textField other) ↔ TextKept own other := by
  unfold firstNotBlank TextKept
  by_cases hown : own = ""
  · -- the request leaves the field open
    subst hown
    by_cases hother : other = ""
    · subst hother
      exact ⟨fun _ => ⟨fun h => absurd rfl h, fun _ h => absurd rfl h⟩, fun _ => rfl⟩
    · rcases hblank : isBlankString other with - | -
      · -- a text that is not blank is taken by both
        rw [textField_of_not_blank hblank]
        simp [isNotBlankString, textField, hblank]
      · simp [isNotBlankString, textField, hblank, hother]
  · rcases hblank : isBlankString own with - | -
    · rw [textField_of_not_blank hblank]
      simp [isNotBlankString, hblank, hown]
    · -- the request sets blanks
      have hset : textField own = some own := if_neg hown
      rw [hset]
      simp only [isNotBlankString, hblank, hown]
      by_cases hother : isBlankString other = true
      · simp [hother, hown]
      · have hne : other ≠ own := fun heq => hother (heq ▸ hblank)
        simp [hother, hne, hown]

/-- The row has a number in every case. -/
theorem some_eq_numberField_or_iff (own : Rat) (other : Option Rat) :
    some own = (numberField own).or other ↔ NumberKept own other := by
  unfold numberField NumberKept
  by_cases hown : own = 0
  · subst hown
    rw [if_pos rfl, Option.none_or]
    exact ⟨fun h => .inr h.symm, fun h => (h.resolve_left fun h => h rfl).symm⟩
  · rw [if_neg hown]
    exact ⟨fun _ => .inl hown, fun _ => rfl⟩

/-- The row of a run and the request that it was made from. -/
theorem follows_newRow_iff (options : RunOptions) (model runId threadId assistantId : String)
    (now : Nat) (assistant : AssistantObject) :
    Follows (options.newRow model runId threadId assistantId now) model options assistant
      ↔ OverridesKept model options assistant := by
  show ({ modelName := firstNotBlank model assistant.model
          temperature := some options.temperature
          topP := some options.topP
          stopWords := _ } : ModelOverrides) = wantedOverrides model options assistant ∧
      firstNotBlank options.instructions assistant.instructions
        = (textField options.instructions).or (textField assistant.instructions) ↔ _
  -- field by field
  rw [wantedOverrides, ModelOverrides.mk.injEq, firstNotBlank_eq_iff, firstNotBlank_eq_iff,
    some_eq_numberField_or_iff, some_eq_numberField_or_iff]
  constructor
  · rintro ⟨⟨hmodel, htemperature, htopP, -⟩, hinstructions⟩
    exact ⟨hmodel, hinstructions, htemperature, htopP⟩
  · intro h
    exact ⟨⟨h.model, h.temperature, h.topP, rfl⟩, h.instructions⟩

/-! ### Both create requests -/

/-- The run that starts is the row of its request. -/
theorem startRun_ok {options : RunOptions} {model : String}
    {toolResources : Option AssistantToolResources}
    {runId : { id : String // isBlankString id = false }} {threadId assistantId : String}
    (hthread : isBlankString threadId = false) {s s' : Store} {run : RunObject}
    (h : startRun options model toolResources runId threadId assistantId s
      = (.ok (some run), s')) :
    run = options.newRow model runId.val threadId assistantId s.clock := by
  rcases startRun_cases options model toolResources runId hthread assistantId s
    with ⟨e, -, hstart⟩ | ⟨-, t, -, hstart⟩
  · rw [hstart] at h
    simp at h
  · rw [hstart] at h
    simp only [Prod.mk.injEq, Except.ok.injEq, Option.some.injEq] at h
    exact h.1.symm

theorem createRun_ok {req : CreateRunRequest} {s s' : Store} {run : RunObject}
    (h : createRun req s = (.ok (some run), s')) :
    ∃ runId now, run = req.options.newRow "" runId req.threadId req.assistantId now := by
  obtain ⟨_, s₁, hthread, h⟩ := Action.ok_of_bind h
  obtain ⟨_, s₂, -, h⟩ := Action.ok_of_bind h
  obtain ⟨_, s₃, -, h⟩ := Action.ok_of_bind h
  obtain ⟨_, s₄, -, h⟩ := Action.ok_of_bind h
  obtain ⟨runId, s₅, -, h⟩ := Action.ok_of_bind h
  obtain ⟨_, s₆, -, h⟩ := Action.ok_of_bind h
  have hblank := assertNotBlank_eq_ok.mp (Prod.mk.inj hthread).1
  exact ⟨runId.val, s₆.clock, startRun_ok hblank h⟩

theorem createThreadAndRun_ok {req : CreateThreadAndRunRequest} {s s' : Store} {run : RunObject}
    (h : createThreadAndRun req s = (.ok (some run), s')) :
    ∃ runId threadId now,
      run = req.options.newRow req.model runId threadId req.assistantId now := by
  obtain ⟨_, s₁, -, h⟩ := Action.ok_of_bind h
  obtain ⟨_, s₂, -, h⟩ := Action.ok_of_bind h
  obtain ⟨_, s₃, -, h⟩ := Action.ok_of_bind h
  obtain ⟨_, s₄, -, h⟩ := Action.ok_of_bind h
  obtain ⟨_, s₅, -, h⟩ := Action.ok_of_bind h
  obtain ⟨runId, s₆, -, h⟩ := Action.ok_of_bind h
  obtain ⟨threadId, s₇, -, h⟩ := Action.ok_of_bind h
  obtain ⟨_, s₈, -, h⟩ := Action.ok_of_bind h
  obtain ⟨_, s₉, -, h⟩ := Action.ok_of_bind h
  exact ⟨runId.val, threadId.val, s₉.clock, startRun_ok threadId.property h⟩

/-- **Request before assistant.**  The executor of a run follows its request and the
assistant in every field if and only if the texts that decide are not blank and each number
is set by the request or zero at the assistant as well.  The request of `CreateRun` has no
model. -/
theorem overrides_follow_request_iff (assistant : AssistantObject) :
    (∀ req s run s', createRun req s = (.ok (some run), s') →
      (Follows run "" req.options assistant ↔ OverridesKept "" req.options assistant)) ∧
    (∀ req s run s', createThreadAndRun req s = (.ok (some run), s') →
      (Follows run req.model req.options assistant
        ↔ OverridesKept req.model req.options assistant)) := by
  refine ⟨fun req s run s' h => ?_, fun req s run s' h => ?_⟩
  · obtain ⟨runId, now, rfl⟩ := createRun_ok h
    exact follows_newRow_iff _ _ _ _ _ _ _
  · obtain ⟨runId, threadId, now, rfl⟩ := createThreadAndRun_ok h
    exact follows_newRow_iff _ _ _ _ _ _ _

/-- An assistant with a temperature of its own. -/
def warmAssistant : AssistantObject := { id := "asst_1", model := "llama", temperature := some 1 }

/-- A request that leaves the temperature and `top_p` open. -/
def openRequest : CreateRunRequest := { threadId := "thread_1", assistantId := "asst_1" }

/-- The same request with both numbers set. -/
def fixedRequest : CreateRunRequest :=
  { openRequest with options := { temperature := 2, topP := 1 } }

/-- A new thread with one message, and both numbers set. -/
def fixedThreadRequest : CreateThreadAndRunRequest :=
  { assistantId := "asst_1"
    thread := some { messages := [{ role := .user, content := "hi" }] }
    options := { temperature := 2, topP := 1 } }

theorem overrides_follow_fixed_requests :
    (∃ run s', createRun fixedRequest {} = (.ok (some run), s') ∧
      Follows run "" fixedRequest.options warmAssistant) ∧
    (∃ run s', createThreadAndRun fixedThreadRequest {} = (.ok (some run), s') ∧
      Follows run fixedThreadRequest.model fixedThreadRequest.options warmAssistant) :=
  ⟨⟨_, _, rfl, ((overrides_follow_request_iff warmAssistant).1 fixedRequest {} _ _ rfl).mpr
      ⟨by decide, by decide, by decide, by decide⟩⟩,
    ⟨_, _, rfl, ((overrides_follow_request_iff warmAssistant).2 fixedThreadRequest {} _ _ rfl).mpr
      ⟨by decide, by decide, by decide, by decide⟩⟩⟩

/-- With the open request the run has temperature 0, not the 1 of the assistant. -/
theorem overrides_ignore_assistant :
    ¬ ∀ assistant req s run s', createRun req s = (.ok (some run), s') →
      Follows run "" req.options assistant := by
  intro h
  have htemperature := congrArg (·.temperature) (h warmAssistant openRequest {} _ _ rfl).1
  revert htemperature
  decide

end Instinct
