/-
Instinct/RecoveredTools.lean

The function tools of the state that `RecoverAgentState` returns.

The tools of the assistant, of the run and of the local toolkit are put one after the
other, and `std::ranges::unique` goes over them without a sort before it.  It compares
neighbours only: a name counts once if and only if the tools that have it stand together
(`recoverAgentState_tools_iff`).
-/
import Instinct.Recover

namespace Instinct

open Effects

/-! ### First occurrences -/

/-- Every name of the sources has one tool, the first that has it there. -/
def HoldsFirsts (tools sources : List FunctionTool) : Prop :=
  ∀ name, (tools.filter fun tool => tool.name = name)
    = (sources.find? fun tool => tool.name = name).toList

/-- Between two tools of one name there is none of another. -/
def Together (tools : List FunctionTool) : Prop :=
  ∀ a b c, [a, b, c].Sublist tools → a.name = c.name → b.name = a.name

section Unique

variable {kept tool : FunctionTool} {tools : List FunctionTool} {name : String}

theorem Together.of_sublist {tools' : List FunctionTool} (h : Together tools)
    (hsub : tools'.Sublist tools) : Together tools' :=
  fun a b c habc => h a b c (habc.trans hsub)

theorem uniqueAfter_same (h : kept.name = tool.name) :
    uniqueAfter kept (tool :: tools) = uniqueAfter kept tools := by
  rw [uniqueAfter, if_pos h]

theorem uniqueAfter_other (h : kept.name ≠ tool.name) :
    uniqueAfter kept (tool :: tools) = tool :: uniqueAfter tool tools := by
  rw [uniqueAfter, if_neg h]

/-- Where the tools of each name stand together, those behind a kept one are the first of the
other names. -/
theorem filter_uniqueAfter (h : Together (kept :: tools)) (name : String) :
    ((uniqueAfter kept tools).filter fun tool => tool.name = name)
      = if kept.name = name then [] else (tools.find? fun tool => tool.name = name).toList := by
  induction tools generalizing kept with
  | nil => exact (ite_self _).symm
  | cons tool tools ih =>
      by_cases hsame : kept.name = tool.name
      · rw [uniqueAfter_same hsame, ih (h.of_sublist (by simp))]
        split
        · rfl
        · rename_i hname
          rw [List.find?_cons_of_neg (by simpa [← hsame] using hname)]
      · rw [uniqueAfter_other hsame, List.filter_cons,
          ih (h.of_sublist (List.sublist_cons_self _ _))]
        by_cases hname : tool.name = name
        · rw [if_pos (decide_eq_true hname), if_pos hname,
            if_neg fun heq => hsame (heq.trans hname.symm),
            List.find?_cons_of_pos (by simpa using hname)]
          rfl
        · rw [if_neg (by simpa using hname), if_neg hname,
            List.find?_cons_of_neg (by simpa using hname)]
          split
          · -- the name of the kept tool does not come again behind another one
            rename_i hkept
            have hnone : tools.find? (fun tool => tool.name = name) = none := by
              rw [List.find?_eq_none]
              intro later hlater heq
              have hsub : [kept, tool, later].Sublist (kept :: tool :: tools) :=
                ((List.singleton_sublist.mpr hlater).cons_cons tool).cons_cons kept
              exact hsame (h _ _ _ hsub (hkept.trans (of_decide_eq_true heq).symm)).symm
            rw [hnone]
            rfl
          · rfl

/-- A name behind a tool of another name is not lost. -/
theorem exists_of_mem_behind {later : FunctionTool} (hlater : later ∈ tools)
    (hname : kept.name ≠ later.name) : ∃ t ∈ uniqueAfter kept tools, t.name = later.name := by
  induction tools generalizing kept with
  | nil => cases hlater
  | cons tool tools ih =>
      by_cases hsame : kept.name = tool.name
      · rw [uniqueAfter_same hsame]
        refine ih ((List.mem_cons.mp hlater).resolve_left ?_) hname
        rintro rfl
        exact hname hsame
      · rw [uniqueAfter_other hsame]
        by_cases htool : tool.name = later.name
        · exact ⟨tool, List.mem_cons_self, htool⟩
        · have hbehind : later ∈ tools := (List.mem_cons.mp hlater).resolve_left fun heq =>
            htool (congrArg FunctionTool.name heq.symm)
          obtain ⟨t, ht, hname⟩ := ih hbehind htool
          exact ⟨t, List.mem_cons_of_mem _ ht, hname⟩

/-- The name of the kept tool comes again behind one of another name. -/
theorem exists_again {other later : FunctionTool} (hsub : [other, later].Sublist tools)
    (hkept : kept.name = later.name) (hother : other.name ≠ later.name) :
    ∃ t ∈ uniqueAfter kept tools, t.name = later.name := by
  induction tools with
  | nil => cases hsub
  | cons tool tools ih =>
      by_cases hsame : kept.name = tool.name
      · rw [uniqueAfter_same hsame]
        cases hsub with
        | cons _ hsub => exact ih hsub
        | cons_cons _ _ => exact absurd (hsame.symm.trans hkept) hother
      · rw [uniqueAfter_other hsame]
        have hbehind : later ∈ tools := by
          cases hsub with
          | cons _ hsub => exact hsub.subset (List.mem_cons_of_mem _ List.mem_cons_self)
          | cons_cons _ hsub => exact List.singleton_sublist.mp hsub
        obtain ⟨t, ht, hname⟩ :=
          exists_of_mem_behind hbehind fun h => hsame (hkept.trans h.symm)
        exact ⟨t, List.mem_cons_of_mem _ ht, hname⟩

/-- A name whose tools do not stand together is there twice. -/
theorem two_le_of_not_together {a b c : FunctionTool} (hsub : [a, b, c].Sublist (kept :: tools))
    (hac : a.name = c.name) (hb : b.name ≠ a.name) :
    2 ≤ ((kept :: uniqueAfter kept tools).filter fun tool => tool.name = a.name).length := by
  induction tools generalizing kept with
  | nil =>
      have hlength := hsub.length_le
      simp at hlength
  | cons tool tools ih =>
      have hagain : ∀ {first}, first.name = a.name → [b, c].Sublist (tool :: tools) →
          2 ≤ ((first :: uniqueAfter first (tool :: tools)).filter
            fun tool => tool.name = a.name).length := by
        intro first hfirst hbc
        obtain ⟨t, ht, hname⟩ := exists_again hbc (hfirst.trans hac) (hac ▸ hb)
        rw [List.filter_cons, if_pos (decide_eq_true hfirst), List.length_cons]
        exact Nat.succ_le_succ (List.length_pos_of_mem
          (List.mem_filter.mpr ⟨ht, decide_eq_true (hname.trans hac.symm)⟩))
      cases hsub with
      | cons_cons _ hbc => exact hagain rfl hbc
      | cons _ hsub =>
          by_cases hsame : kept.name = tool.name
          · cases hsub with
            | cons_cons _ hbc => exact hagain hsame (hbc.cons _)
            | cons _ hsub =>
                rw [uniqueAfter_same hsame]
                exact ih (hsub.cons _)
          · rw [uniqueAfter_other hsame, List.filter_cons]
            have hlater := ih hsub
            split
            · exact hlater.trans (Nat.le_succ _)
            · exact hlater

/-- `std::ranges::unique` keeps the first tool of each name if and only if the tools of each name
stand together. -/
theorem holdsFirsts_uniqueByName_iff (tools : List FunctionTool) :
    HoldsFirsts (uniqueByName tools) tools ↔ Together tools := by
  cases tools with
  | nil =>
      refine iff_of_true (fun name => rfl) fun a b c hsub => ?_
      cases hsub
  | cons tool tools =>
      constructor
      · intro h a b c hsub hac
        by_contra hb
        have htwo := two_le_of_not_together hsub hac hb
        have hlength := congrArg List.length (h a.name)
        rw [uniqueByName] at hlength
        have hone : ∀ x : Option FunctionTool, x.toList.length ≤ 1 := by
          intro x
          cases x <;> simp
        exact absurd (htwo.trans (hlength.trans_le (hone _))) (by decide)
      · intro h name
        rw [uniqueByName, List.filter_cons, filter_uniqueAfter h]
        by_cases hname : tool.name = name
        · rw [if_pos (decide_eq_true hname), if_pos hname,
            List.find?_cons_of_pos (by simpa using hname)]
          rfl
        · rw [if_neg (by simpa using hname), if_neg hname,
            List.find?_cons_of_neg (by simpa using hname)]

end Unique

/-! ### `RecoverAgentState` -/

/-- The function tools of the assistant, of the run and of the local toolkit, in this order. -/
def Store.toolSources (s : Store) (run : RunObject) (localToolkit : Toolkit) :
    List FunctionTool :=
  functionTools ((s.assistants.find? fun row => row.id = run.assistantId).getD {}).tools
    ++ functionTools run.tools ++ localToolkit

section Recovered

variable {config : HandlerConfig} {outside : Outside} {run : RunObject} {localToolkit : Toolkit}
variable {s s' : Store} {state : AgentState}

theorem functionTools_of_recovered
    (h : (recoverAgentState run localToolkit).run (Call.exec config outside) s
      = (.ok (some state), s')) :
    state.functionTools = uniqueByName (s'.toolSources run localToolkit) := by
  obtain ⟨loaded, hloaded, -, hassistant⟩ := recoverAgentState_ok h
  rw [recoverAgentState_of_loaded hloaded] at h
  obtain ⟨assistant, hfound⟩ := Option.isSome_iff_exists.mp hassistant
  rw [hfound] at h
  obtain rfl := Option.some.inj (Except.ok.inj (congrArg Prod.fst h))
  rw [Store.toolSources, hfound]
  rfl

/-- **The tools of a recovered state** are the first of each name if and only if the tools of
each name stand together in the sources. -/
theorem recoverAgentState_tools_iff
    (h : (recoverAgentState run localToolkit).run (Call.exec config outside) s
      = (.ok (some state), s')) :
    HoldsFirsts state.functionTools (s'.toolSources run localToolkit)
      ↔ Together (s'.toolSources run localToolkit) := by
  rw [functionTools_of_recovered h]
  exact holdsFirsts_uniqueByName_iff _

end Recovered

/-- A queued run of the assistant in the store of a question, with some tools. -/
def toolRun (tools : List AssistantToolObject) : RunObject :=
  { resumedRun with assistantId := "assistant_1", tools := tools }

theorem recover_toolRun (tools : List AssistantToolObject) (localToolkit : Toolkit) :
    (recoverAgentState (toolRun tools) localToolkit).run (Call.exec {} {}) questionStore
      = (.ok (some
          { input := .chat [{ role := "user", content := "1 + 2 + 4?" }]
            functionTools := uniqueByName (functionTools tools ++ localToolkit) }),
        questionStore) := by
  have hinput : questionStore.HasInput "thread_1" { type := .text, textValue := "1 + 2 + 4?" } :=
    ⟨questionMessage, rfl, rfl⟩
  have hsteps : listAllSteps "thread_1" "run_1" questionStore = (.ok [], questionStore) := rfl
  have hthread : (toolRun tools).threadId ≠ "" := (by decide : "thread_1" ≠ "")
  have hloaded := @loadAgentState_run {} {} (toolRun tools) questionStore rfl hthread _ hinput
    _ hsteps trivial
  exact recoverAgentState_of_loaded hloaded

/-- The local toolkit repeats the last tool of the run. -/
theorem recoverAgentState_tools_search :
    ∃ state s', (recoverAgentState
        (toolRun [{ type := .function, function := { name := "search" } }])
        [{ name := "search" }]).run (Call.exec {} {}) questionStore = (.ok (some state), s') ∧
      HoldsFirsts state.functionTools (s'.toolSources
        (toolRun [{ type := .function, function := { name := "search" } }])
        [{ name := "search" }]) := by
  refine ⟨_, _, recover_toolRun _ _, (recoverAgentState_tools_iff (recover_toolRun _ _)).mpr ?_⟩
  rintro a b c hsub -
  have hshort : (questionStore.toolSources
      (toolRun [{ type := .function, function := { name := "search" } }])
      [{ name := "search" }]).length = 2 := by decide
  exact absurd (hshort ▸ hsub.length_le) (by decide : ¬ 3 ≤ 2)

/-- With a tool of another name between them, both are there. -/
theorem recoverAgentState_repeats_name :
    ¬ ∀ (config : HandlerConfig) (outside : Outside) (run : RunObject) (localToolkit : Toolkit)
      (s s' : Store) (state : AgentState),
      (recoverAgentState run localToolkit).run (Call.exec config outside) s
        = (.ok (some state), s') →
      HoldsFirsts state.functionTools (s'.toolSources run localToolkit) := by
  intro h
  have hfirsts := h _ _ _ _ _ _ _ (recover_toolRun
    [{ type := .function, function := { name := "search" } },
      { type := .function, function := { name := "sum" } }] [{ name := "search" }]) "search"
  revert hfirsts
  decide

end Instinct
