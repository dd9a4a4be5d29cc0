/-
Instinct/Substitutions.lean

What `BuildToolCallRequest` puts into the arguments of a task.

A reference `$k` or `${k}` stands for the content of the result of task `k`
(`referenceAt?`, `Substituted`).  The code reads one digit of `k` and takes a brace that
follows, and replaces one match after the other, each at the first place where its text
occurs in the arguments as they are by then.

For given results that is right where each index has one digit with no digit and no brace
behind it, and no reference occurs in front of its own place when its turn comes
(`substituteResults_of_substitutable`).  It is right for all results exactly where,
besides, there is one reference at most (`buildToolCallRequest_substitutes_iff`).
-/
import Instinct.Placeholders
import Instinct.TaskGraphs

namespace Instinct

open Placeholders

/-! ### References -/

/-- A reference at the beginning of a text: `$k` or `${k}`, with an index of any length. -/
def referenceAt? : List Char → Option (List Char × Nat)
  | '$' :: '{' :: rest =>
      let digits := rest.takeWhile Char.isDigit
      if digits ≠ [] ∧ (rest.dropWhile Char.isDigit).head? = some '}' then
        some ('$' :: '{' :: (digits ++ ['}']), Nat.ofDigitChars 10 digits 0)
      else none
  | '$' :: rest =>
      let digits := rest.takeWhile Char.isDigit
      if digits ≠ [] then some ('$' :: digits, Nat.ofDigitChars 10 digits 0) else none
  | _ => none

/-- A reference that begins here has one digit, and no brace but its own behind it. -/
def SingleDigit : List Char → Prop
  | '$' :: '{' :: d :: rest => d.isDigit = true → rest.head? = some '}'
  | '$' :: d :: rest =>
      d.isDigit = true → ∀ c ∈ rest.head?, c.isDigit = false ∧ c ≠ '}'
  | _ => True

/-- The references of the arguments of a task. -/
def references (arguments : String) : List (List Char × Nat) :=
  placeholders (tokens referenceAt? arguments.toList)

/-- The content of the result of a task. -/
def contentOf (graph : LLMCompilerTaskGraph) (index : Nat) : List Char :=
  ((taskOf graph index).result.getD {}).content.toList

/-- Each reference is replaced by the content of the task that it names, and nothing else. -/
def Substituted (graph : LLMCompilerTaskGraph) (arguments args : String) : Prop :=
  (∀ reference ∈ references arguments, ∃ task ∈ graph.tasks, task.index = reference.2) ∧
    args.toList = substitute (contentOf graph) (tokens referenceAt? arguments.toList)

/-- The ids are those of tasks, and what these depend on is finished. -/
def ReadyIds (graph : LLMCompilerTaskGraph) (ids : List Int) : Prop :=
  ∀ id ∈ ids, (∃ task ∈ graph.tasks, task.index = id) ∧
    ∀ d ∈ (taskOf graph id).dependencies, graph.FinishedAt d

/-- For each id, in order, the call of its task is asked for, with the arguments substituted. -/
def RequestsCalls (graph : LLMCompilerTaskGraph) (ids : List Int) (request : Message) : Prop :=
  ∃ request' calls, buildToolCallRequest graph ids request = .ok request' ∧
    request'.toolCalls = request.toolCalls ++ calls ∧
    List.Forall₂ (fun id call => ∃ args,
      Substituted graph (taskOf graph id).toolCall.functionOrDefault.arguments args ∧
        call = (taskOf graph id).callWith args) ids calls

/-- The arguments of a task are substituted as they should be, with the results as they are. -/
structure Substitutable (graph : LLMCompilerTaskGraph) (arguments : String) : Prop where
  read : ∀ rest, rest <:+ arguments.toList → SingleDigit rest
  named : ∀ reference ∈ references arguments, ∃ task ∈ graph.tasks, task.index = reference.2
  undisturbed : Undisturbed (contentOf graph) [] (tokens referenceAt? arguments.toList)

/-- The same for all results. -/
structure AlwaysSubstitutable (graph : LLMCompilerTaskGraph) (arguments : String) : Prop where
  read : ∀ rest, rest <:+ arguments.toList → SingleDigit rest
  named : ∀ reference ∈ references arguments, ∃ task ∈ graph.tasks, task.index = reference.2
  alone : (references arguments).length ≤ 1

/-! ### The two readings -/

/-- No placeholder of any kind begins here, or one with a brace, or one without. -/
theorem placeholder_cases (cs : List Char) :
    (dependencyAt? cs = none ∧ referenceAt? cs = none ∧ SingleDigit cs) ∨
    ∃ d rest, d.isDigit = true ∧ (cs = '$' :: '{' :: d :: rest ∨ cs = '$' :: d :: rest) := by
  rcases cs with - | ⟨c, cs⟩
  · exact .inl ⟨rfl, rfl, trivial⟩
  by_cases hc : c = '$'
  · rcases cs with - | ⟨d, cs⟩
    · exact .inl ⟨by rw [hc]; rfl, by rw [hc]; rfl, by rw [hc]; trivial⟩
    by_cases hd : d = '{'
    · rcases cs with - | ⟨e, cs⟩
      · exact .inl ⟨by rw [hc, hd]; rfl, by rw [hc, hd]; rfl, by rw [hc, hd]; nofun⟩
      by_cases he : e.isDigit = true
      · exact .inr ⟨e, cs, he, .inl (by rw [hc, hd])⟩
      · subst hc hd
        exact .inl ⟨by simp [dependencyAt?, he], by simp [referenceAt?, he],
          fun hdigit => absurd hdigit he⟩
    · by_cases hdigit : d.isDigit = true
      · exact .inr ⟨d, cs, hdigit, .inr (by rw [hc])⟩
      · subst hc
        exact .inl ⟨by simp [dependencyAt?, hd, hdigit], by simp [referenceAt?, hd, hdigit],
          by simp [SingleDigit, hd, hdigit]⟩
  · exact .inl ⟨by simp [dependencyAt?, hc], by simp [referenceAt?, hc], by simp [SingleDigit, hc]⟩

section Digit

variable {d : Char} (hd : d.isDigit = true) (rest : List Char)
include hd

theorem referenceAt?_braced : referenceAt? ('$' :: '{' :: d :: rest)
    = if (rest.dropWhile Char.isDigit).head? = some '}' then
        some ('$' :: '{' :: d :: (rest.takeWhile Char.isDigit ++ ['}']),
          Nat.ofDigitChars 10 (d :: rest.takeWhile Char.isDigit) 0)
      else none := by
  simp [referenceAt?, hd]

theorem referenceAt?_unbraced : referenceAt? ('$' :: d :: rest)
    = some ('$' :: d :: rest.takeWhile Char.isDigit,
        Nat.ofDigitChars 10 (d :: rest.takeWhile Char.isDigit) 0) := by
  have hbrace : d ≠ '{' := by
    rintro rfl
    cases hd
  simp [referenceAt?, hbrace, hd]

theorem singleDigit_unbraced : SingleDigit ('$' :: d :: rest)
    ↔ ∀ c ∈ rest.head?, c.isDigit = false ∧ c ≠ '}' := by
  have hbrace : d ≠ '{' := by
    rintro rfl
    cases hd
  simp [SingleDigit, hbrace, hd]

end Digit

/-- What can stand behind a digit. -/
theorem behind_cases (rest : List Char) :
    (closingBrace rest = [] ∧ rest.takeWhile Char.isDigit = [] ∧ rest.head? ≠ some '}' ∧
        rest.dropWhile Char.isDigit = rest ∧ ∀ c ∈ rest.head?, c.isDigit = false) ∨
    (closingBrace rest = ['}'] ∧ rest.takeWhile Char.isDigit = [] ∧ rest.head? = some '}' ∧
        rest.dropWhile Char.isDigit = rest) ∨
    (closingBrace rest = [] ∧ rest.takeWhile Char.isDigit ≠ [] ∧
        ∃ c ∈ rest.head?, c.isDigit = true ∧ c ≠ '}') := by
  rcases rest with - | ⟨c, rest⟩
  · exact .inl ⟨rfl, rfl, nofun, rfl, nofun⟩
  by_cases hc : c = '}'
  · subst hc
    exact .inr (.inl ⟨rfl, rfl, rfl, rfl⟩)
  · by_cases hdigit : c.isDigit = true
    · exact .inr (.inr ⟨by simp [closingBrace, hc], by simp [hdigit], c, rfl, hdigit, hc⟩)
    · exact .inl ⟨by simp [closingBrace, hc], by simp [hdigit], by simpa using hc, by simp [hdigit],
        by simpa using hdigit⟩

theorem dollar_not_mem_digits (rest : List Char) : '$' ∉ rest.takeWhile Char.isDigit := by
  intro hmem
  cases List.mem_takeWhile_imp hmem

theorem marks_referenceAt? : Marks '$' referenceAt? := by
  intro cs found h
  rcases placeholder_cases cs with ⟨-, hnone, -⟩ | ⟨d, rest, hd, rfl | rfl⟩
  · rw [hnone] at h
    cases h
  · rw [referenceAt?_braced hd] at h
    split at h
    · rename_i hbrace
      obtain rfl := Option.some.inj h
      obtain ⟨behind, hbehind⟩ := List.head?_eq_some_iff.mp hbrace
      refine ⟨'{' :: d :: (rest.takeWhile Char.isDigit ++ ['}']), behind, rfl, ?_, ?_⟩
      · show _ = '$' :: '{' :: d :: ((rest.takeWhile Char.isDigit ++ ['}']) ++ behind)
        rw [List.append_assoc, List.singleton_append, ← hbehind, List.takeWhile_append_dropWhile]
      · simp [dollar_not_mem_digits, dollar_ne hd]
    · cases h
  · rw [referenceAt?_unbraced hd] at h
    obtain rfl := Option.some.inj h
    refine ⟨d :: rest.takeWhile Char.isDigit, rest.dropWhile Char.isDigit, rfl, ?_, ?_⟩
    · show _ = '$' :: d :: (rest.takeWhile Char.isDigit ++ rest.dropWhile Char.isDigit)
      rw [List.takeWhile_append_dropWhile]
    · simp [dollar_not_mem_digits, dollar_ne hd]

/-- The two readings differ in the digits and braces that they take. -/
theorem differ_references :
    Differ '$' (fun c => c.isDigit = true ∨ c = '}') dependencyAt? referenceAt? where
  coarse_marks := marks_dependencyAt?
  fine_marks := marks_referenceAt?
  none_of_none {cs} h := by
    rcases placeholder_cases cs with ⟨-, hnone, -⟩ | ⟨d, rest, hd, rfl | rfl⟩
    · exact hnone
    · rw [dependencyAt?_braced hd] at h
      cases h
    · rw [dependencyAt?_unbraced hd] at h
      cases h
  cases {cs found found'} h h' := by
    have hdigit : ∀ {rest : List Char}, ∀ c ∈ rest.takeWhile Char.isDigit, c.isDigit = true :=
      fun _ hc => List.mem_takeWhile_imp hc
    rcases placeholder_cases cs with ⟨hnone, -, -⟩ | ⟨d, rest, hd, rfl | rfl⟩
    · rw [hnone] at h
      cases h
    · rw [dependencyAt?_braced hd] at h
      rw [referenceAt?_braced hd] at h'
      split at h'
      · rename_i hbrace
        obtain rfl := Option.some.inj h
        obtain rfl := Option.some.inj h'
        rcases behind_cases rest with ⟨-, -, hhead, hdrop, -⟩ |
          ⟨hclosing, hdigits, -, -⟩ | ⟨hclosing, -, -⟩
        · exact absurd (hdrop ▸ hbrace) hhead
        · rw [hclosing, hdigits]
          exact .inl (by simp [Nat.ofDigitChars_cons])
        · refine .inr ⟨rest.takeWhile Char.isDigit ++ ['}'], by simp, ?_, .inl ?_⟩
          · intro c hc
            rcases List.mem_append.mp hc with hc | hc
            · exact .inl (hdigit c hc)
            · exact .inr (List.mem_singleton.mp hc)
          · rw [hclosing]
            rfl
      · cases h'
    · rw [dependencyAt?_unbraced hd] at h
      rw [referenceAt?_unbraced hd] at h'
      obtain rfl := Option.some.inj h
      obtain rfl := Option.some.inj h'
      rcases behind_cases rest with ⟨hclosing, hdigits, -⟩ | ⟨hclosing, hdigits, -, -⟩ |
        ⟨hclosing, hdigits, -⟩
      · rw [hclosing, hdigits]
        exact .inl (by simp [Nat.ofDigitChars_cons])
      · refine .inr ⟨['}'], by simp, by simp, .inr ?_⟩
        rw [hclosing, hdigits]
        rfl
      · refine .inr ⟨rest.takeWhile Char.isDigit, hdigits, fun c hc => .inl (hdigit c hc), .inl ?_⟩
        rw [hclosing]
        rfl
  not_sign := by simp

theorem dependencyAt?_eq_referenceAt?_iff {cs : List Char} :
    dependencyAt? cs = referenceAt? cs ↔ SingleDigit cs := by
  rcases placeholder_cases cs with ⟨hdep, href, hsingle⟩ | ⟨d, rest, hd, rfl | rfl⟩
  · rw [hdep, href]
    exact iff_of_true rfl hsingle
  · rw [dependencyAt?_braced hd, referenceAt?_braced hd]
    show _ ↔ (d.isDigit = true → rest.head? = some '}')
    rcases behind_cases rest with ⟨hclosing, hdigits, hhead, hdrop, -⟩ |
      ⟨hclosing, hdigits, hhead, hdrop⟩ | ⟨hclosing, hdigits, c, hhead, hdigit, hc⟩
    · rw [hdrop, if_neg hhead]
      exact iff_of_false (by simp) fun h => hhead (h hd)
    · rw [hdrop, if_pos hhead, hclosing, hdigits]
      exact iff_of_true (by simp [Nat.ofDigitChars_cons]) fun _ => hhead
    · refine iff_of_false ?_ fun h => hc (Option.some.inj (hhead.symm.trans (h hd)))
      rw [hclosing]
      split
      · simp
      · simp
  · rw [dependencyAt?_unbraced hd, referenceAt?_unbraced hd, singleDigit_unbraced hd]
    rcases behind_cases rest with ⟨hclosing, hdigits, hhead, -, hnot⟩ |
      ⟨hclosing, hdigits, hhead, -⟩ | ⟨hclosing, hdigits, c, hhead, hdigit, hc⟩
    · rw [hclosing, hdigits]
      refine iff_of_true (by simp [Nat.ofDigitChars_cons]) fun c hmem => ⟨hnot c hmem, ?_⟩
      rintro rfl
      exact hhead hmem
    · rw [hclosing, hdigits]
      exact iff_of_false (by simp) fun h => (h '}' hhead).2 rfl
    · rw [hclosing]
      refine iff_of_false (fun h => hdigits ?_) fun h => ?_
      · simpa using (congrArg (List.drop 2 ·.1) (Option.some.inj h)).symm
      · rw [(h c hhead).1] at hdigit
        cases hdigit

/-- The code reads a text as it should just where each reference has one digit. -/
theorem tokens_eq_iff_singleDigit {cs : List Char} :
    tokens dependencyAt? cs = tokens referenceAt? cs ↔ ∀ rest, rest <:+ cs → SingleDigit rest := by
  rw [tokens_eq_iff marks_dependencyAt? marks_referenceAt?]
  exact forall₂_congr fun _ _ => dependencyAt?_eq_referenceAt?_iff

/-- A match is seen wherever its text begins. -/
theorem local_dependencyAt? : Local dependencyAt? := by
  intro cs found w h hbegins
  obtain ⟨back, rfl⟩ := hbegins
  obtain ⟨d, rest, hd, ⟨-, hfound⟩ | ⟨-, hfound⟩⟩ := dependencyAt?_some h
  · rw [hfound]
    show dependencyAt? ('$' :: '{' :: d :: (closingBrace rest ++ back)) ≠ none
    rw [dependencyAt?_braced hd]
    exact Option.some_ne_none _
  · rw [hfound]
    show dependencyAt? ('$' :: d :: (closingBrace rest ++ back)) ≠ none
    rw [dependencyAt?_unbraced hd]
    exact Option.some_ne_none _

/-- No match has an `x`. -/
theorem x_not_mem {cs : List Char} {found : List Char × Nat} (h : dependencyAt? cs = some found) :
    'x' ∉ found.1 := by
  have hdigit : ∀ {d : Char}, d.isDigit = true → 'x' ≠ d := by
    rintro _ hd rfl
    cases hd
  have hbrace : ∀ rest, 'x' ∉ closingBrace rest := fun rest hmem => by
    cases eq_of_mem_closingBrace hmem
  obtain ⟨d, rest, hd, ⟨-, hfound⟩ | ⟨-, hfound⟩⟩ := dependencyAt?_some h
  · rw [hfound]
    simp [hbrace, hdigit hd]
  · rw [hfound]
    simp [hbrace, hdigit hd]

/-! ### One match after the other -/

/-- A pattern is not found across a letter that it does not have. -/
theorem replaceFirst_behind {pattern front : List Char} {z : Char} (hz : z ∉ pattern)
    (h : ¬ pattern <:+: front) (replacement back : List Char) :
    replaceFirst pattern replacement (front ++ z :: back)
      = (replaceFirst pattern replacement back).map (front ++ z :: ·) := by
  have hnot : ∀ {front : List Char}, ¬ pattern <:+: front →
      ¬ pattern.isPrefixOf (front ++ z :: back) = true := fun h hstart =>
    h (prefix_of_not_mem (List.isPrefixOf_iff_prefix.mp hstart) hz).isInfix
  induction front with
  | nil =>
      have hstart : ¬ pattern.isPrefixOf (z :: back) = true := hnot h
      rw [List.nil_append, replaceFirst, if_neg hstart]
      rfl
  | cons c front ih =>
      have hstart : ¬ pattern.isPrefixOf (c :: (front ++ z :: back)) = true := hnot h
      have hfront : ¬ pattern <:+: front := fun hinfix => h (List.infix_cons hinfix)
      rw [List.cons_append, replaceFirst, if_neg hstart, ih hfront, Option.map_map]
      rfl

/-- A match is replaced at its own place, if it does not occur in front of it. -/
theorem replaceFirst_front {body front : List Char} (hbody : '$' ∉ body)
    (h : ¬ '$' :: body <:+: front) (replacement back : List Char) :
    replaceFirst ('$' :: body) replacement (front ++ ('$' :: body ++ back))
      = some (front ++ (replacement ++ back)) := by
  induction front with
  | nil =>
      have hstart : ('$' :: body).isPrefixOf ('$' :: (body ++ back)) = true :=
        List.isPrefixOf_iff_prefix.mpr (List.prefix_append ('$' :: body) back)
      rw [List.nil_append, List.cons_append, replaceFirst, if_pos hstart, ← List.cons_append,
        List.drop_left]
      rfl
  | cons c front ih =>
      have hfront : ¬ '$' :: body <:+: front := fun hinfix => h (List.infix_cons hinfix)
      have hnot : ¬ ('$' :: body).isPrefixOf (c :: (front ++ ('$' :: body ++ back))) = true := by
        intro hstart
        obtain ⟨rfl, htail⟩ := List.cons_prefix_cons.mp (List.isPrefixOf_iff_prefix.mp hstart)
        exact h (List.cons_prefix_cons.mpr ⟨rfl, prefix_of_not_mem htail hbody⟩).isInfix
      rw [List.cons_append, replaceFirst, if_neg hnot, ih hfront]
      rfl

variable {graph : LLMCompilerTaskGraph} {ts : List (Token Char Nat)}

/-- The first match, if it does not occur in front of its place. -/
theorem substituteResult_front {found : List Char × Nat} {body front : List Char}
    (hfound : found.1 = '$' :: body) (hbody : '$' ∉ body) (h : ¬ found.1 <:+: front)
    (back : List Char) : substituteResult graph (front ++ (found.1 ++ back)) found
      = .ok (front ++ (contentOf graph found.2 ++ back)) := by
  rw [hfound] at h
  rw [substituteResult, hfound, replaceFirst_front hbody h]
  rfl

/-- Undisturbed matches are replaced as if all at once. -/
theorem foldlM_substituteResult {front : List Char}
    (hmarks : ∀ found ∈ placeholders ts, ∃ body, found.1 = '$' :: body ∧ '$' ∉ body)
    (h : Undisturbed (contentOf graph) front ts) :
    (placeholders ts).foldlM (substituteResult graph) (front ++ ts.flatMap (·.text))
      = .ok (front ++ substitute (contentOf graph) ts) := by
  induction ts generalizing front with
  | nil => rfl
  | cons t ts ih =>
      cases t with
      | letter a =>
          have htail := ih hmarks h
          rw [List.append_assoc, List.append_assoc] at htail
          exact htail
      | placeholder text key =>
          obtain ⟨body, hbody, hsign⟩ := hmarks (text, key) List.mem_cons_self
          have htail := ih (fun found hmem => hmarks found (List.mem_cons_of_mem _ hmem)) h.2
          rw [List.append_assoc, List.append_assoc] at htail
          exact checks_eq_ok.mpr ⟨_, substituteResult_front hbody hsign h.1 _, htail⟩

theorem placeholders_marks {cs : List Char} : ∀ found ∈ placeholders (tokens dependencyAt? cs),
    ∃ body, found.1 = '$' :: body ∧ '$' ∉ body := by
  intro found hmem
  obtain ⟨back, hback⟩ := exists_of_mem_placeholders marks_dependencyAt? hmem
  obtain ⟨body, -, hbody, -, hsign⟩ := marks_dependencyAt? _ _ hback
  exact ⟨body, hbody, hsign⟩

theorem substituteResults_of_undisturbed {arguments : String}
    (h : Undisturbed (contentOf graph) [] (tokens dependencyAt? arguments.toList)) :
    substituteResults graph arguments
      = .ok (String.ofList (substitute (contentOf graph)
          (tokens dependencyAt? arguments.toList))) := by
  have hfold := foldlM_substituteResult placeholders_marks h
  rw [flatMap_text_tokens marks_dependencyAt?] at hfold
  refine checks_eq_ok.mpr ⟨_, ?_, rfl⟩
  rw [dependencyMatches_eq]
  exact hfold

/-- What is put behind a text that holds no match stays behind it. -/
theorem foldlM_substituteResult_behind {found : List (List Char × Nat)} {front : List Char}
    {z : Char} (h : ∀ p ∈ found, z ∉ p.1 ∧ ¬ p.1 <:+: front) {back args : List Char}
    (hok : found.foldlM (substituteResult graph) (front ++ z :: back) = .ok args) :
    ∃ back', args = front ++ z :: back' ∧
      found.foldlM (substituteResult graph) back = .ok back' := by
  induction found generalizing back with
  | nil =>
      obtain rfl := Except.ok.inj hok
      exact ⟨back, rfl, rfl⟩
  | cons p found ih =>
      obtain ⟨hz, hinfix⟩ := h p List.mem_cons_self
      obtain ⟨next, hstep, hrest⟩ := checks_eq_ok.mp hok
      rw [substituteResult, replaceFirst_behind hz hinfix] at hstep
      rcases hfirst : replaceFirst p.1 ((taskOf graph p.2).result.getD {}).content.toList back
        with - | back₁
      · rw [hfirst] at hstep
        cases hstep
      · rw [hfirst] at hstep
        obtain rfl := Except.ok.inj hstep
        obtain ⟨back', hargs, hback'⟩ := ih (fun q hq => h q (List.mem_cons_of_mem _ hq)) hrest
        refine ⟨back', hargs, checks_eq_ok.mpr ⟨back₁, ?_, hback'⟩⟩
        rw [substituteResult, hfirst]

/-! ### For given results -/

/-- The condition is enough: the arguments are what they should be. -/
theorem substituteResults_of_substitutable {arguments : String}
    (h : Substitutable graph arguments) :
    ∃ args, substituteResults graph arguments = .ok args ∧ Substituted graph arguments args := by
  have htokens := tokens_eq_iff_singleDigit.mpr h.read
  refine ⟨_, substituteResults_of_undisturbed (by rw [htokens]; exact h.undisturbed), h.named, ?_⟩
  rw [String.toList_ofList, htokens]

theorem AlwaysSubstitutable.substitutable {arguments : String}
    (h : AlwaysSubstitutable graph arguments) : Substitutable graph arguments := by
  refine ⟨h.read, h.named, ?_⟩
  have halone := h.alone
  rw [references, ← tokens_eq_iff_singleDigit.mpr h.read] at halone
  rw [← tokens_eq_iff_singleDigit.mpr h.read]
  exact undisturbed_of_single marks_dependencyAt? local_dependencyAt? halone passed_nil

/-! ### For all results -/

section Results

variable {results : String → Option Message}

theorem exists_index_withResults {index : Int} :
    (∃ task ∈ (graph.withResults results).tasks, task.index = index)
      ↔ ∃ task ∈ graph.tasks, task.index = index := by
  constructor
  · rintro ⟨_, hin, hindex⟩
    obtain ⟨task, hmem, rfl⟩ := List.mem_map.mp hin
    exact ⟨task, hmem, hindex⟩
  · rintro ⟨task, hmem, hindex⟩
    exact ⟨_, List.mem_map_of_mem hmem, hindex⟩

theorem alwaysSubstitutable_withResults {arguments : String} :
    AlwaysSubstitutable (graph.withResults results) arguments
      ↔ AlwaysSubstitutable graph arguments := by
  constructor
  · rintro ⟨hread, hnamed, halone⟩
    exact ⟨hread, fun reference hmem => exists_index_withResults.mp (hnamed reference hmem), halone⟩
  · rintro ⟨hread, hnamed, halone⟩
    exact ⟨hread, fun reference hmem => exists_index_withResults.mpr (hnamed reference hmem),
      halone⟩

end Results

/-- Every task has a result of one content. -/
def LLMCompilerTaskGraph.withContent (graph : LLMCompilerTaskGraph) (content : String) :
    LLMCompilerTaskGraph :=
  graph.withResults fun _ => some { content := content }

theorem contentOf_withContent (hne : graph.tasks ≠ []) (content : String) :
    contentOf (graph.withContent content) = fun _ => content.toList := by
  funext index
  have hmem : taskOf (graph.withContent content) index ∈ (graph.withContent content).tasks :=
    taskOf_mem (fun hnil => hne (List.map_eq_nil_iff.mp hnil)) index
  obtain ⟨task, -, htask⟩ := List.mem_map.mp hmem
  rw [contentOf, ← htask]
  rfl

/-- The code puts a letter in the place of all its matches. -/
theorem substituteResults_x (hne : graph.tasks ≠ []) (arguments : String) :
    substituteResults (graph.withContent "x") arguments
      = .ok (String.ofList (substitute (fun _ => ['x'])
          (tokens dependencyAt? arguments.toList))) := by
  have hcontent : contentOf (graph.withContent "x") = fun _ => ['x'] :=
    contentOf_withContent hne "x"
  rw [substituteResults_of_undisturbed, hcontent]
  rw [hcontent]
  exact undisturbed_const marks_dependencyAt? local_dependencyAt? x_not_mem passed_nil

/-- Two matches, and the second is found in what has been put in the place of the first. -/
theorem foldlM_substituteResult_two {first second : List Char × Nat}
    {more : List (List Char × Nat)} {front back args : List Char}
    (hcontent : ∀ index, contentOf graph index = 'x' :: second.1)
    (hmarks : ∀ p ∈ first :: second :: more, ∃ body, p.1 = '$' :: body ∧ '$' ∉ body)
    (hin : ∀ p ∈ first :: second :: more, 'x' ∉ p.1 ∧ ¬ p.1 <:+: front)
    (hok : (first :: second :: more).foldlM (substituteResult graph)
      (front ++ (first.1 ++ back)) = .ok args) :
    ∃ behind, args = front ++ 'x' :: 'x' :: behind := by
  have hnil : ∀ p ∈ first :: second :: more, ¬ p.1 <:+: [] := by
    intro p hp hinfix
    obtain ⟨body, hbody, -⟩ := hmarks p hp
    rw [hbody] at hinfix
    cases List.infix_nil.mp hinfix
  have hmore : ∀ p ∈ more, p ∈ first :: second :: more := fun p hp =>
    List.mem_cons_of_mem _ (List.mem_cons_of_mem _ hp)
  have hsecond : second ∈ first :: second :: more := List.mem_cons_of_mem _ List.mem_cons_self
  -- the first match
  obtain ⟨body₁, hbody₁, hsign₁⟩ := hmarks first List.mem_cons_self
  obtain ⟨next, hstep, hrest⟩ := checks_eq_ok.mp hok
  rw [substituteResult_front hbody₁ hsign₁ (hin first List.mem_cons_self).2, hcontent] at hstep
  obtain rfl := Except.ok.inj hstep
  obtain ⟨behind, rfl, hbehind⟩ := foldlM_substituteResult_behind
    (fun p hp => hin p (List.mem_cons_of_mem _ hp)) hrest
  -- the second
  obtain ⟨body₂, hbody₂, hsign₂⟩ := hmarks second hsecond
  obtain ⟨next, hnext, hmoreOk⟩ := checks_eq_ok.mp hbehind
  have hfront := @substituteResult_front graph second body₂ [] hbody₂ hsign₂
    (hnil second hsecond) back
  rw [hcontent] at hfront
  obtain rfl := Except.ok.inj (hnext.symm.trans hfront)
  obtain ⟨behind, rfl, -⟩ := @foldlM_substituteResult_behind graph more [] 'x'
    (fun p hp => ⟨(hin p (hmore p hp)).1, hnil p (hmore p hp)⟩) _ _ hmoreOk
  exact ⟨behind, rfl⟩

/-- With two matches some content is not substituted as it should be: one that ends with
the second match is itself searched for it. -/
theorem not_substituted_of_two (hne : graph.tasks ≠ []) {arguments args : String}
    {first second : List Char × Nat} {more : List (List Char × Nat)}
    (htwo : placeholders (tokens dependencyAt? arguments.toList) = first :: second :: more)
    (hok : substituteResults (graph.withContent (String.ofList ('x' :: second.1))) arguments
      = .ok args) :
    args.toList ≠ substitute (contentOf (graph.withContent (String.ofList ('x' :: second.1))))
      (tokens dependencyAt? arguments.toList) := by
  have hcontent : ∀ index, contentOf (graph.withContent (String.ofList ('x' :: second.1))) index
      = 'x' :: second.1 := fun index => by
    rw [contentOf_withContent hne, String.toList_ofList]
  obtain ⟨front, back, hargs, hpassed, -, htokens⟩ := exists_front marks_dependencyAt? htwo
  have hmarks : ∀ p ∈ first :: second :: more, ∃ body, p.1 = '$' :: body ∧ '$' ∉ body :=
    htwo ▸ placeholders_marks
  have hin : ∀ p ∈ first :: second :: more, 'x' ∉ p.1 ∧ ¬ p.1 <:+: front := by
    intro p hp
    obtain ⟨cs, hcs⟩ := exists_of_mem_placeholders marks_dependencyAt? (htwo ▸ hp)
    exact ⟨x_not_mem hcs, hpassed.not_infix marks_dependencyAt? local_dependencyAt? hcs⟩
  obtain ⟨args', hfold, hpure⟩ := checks_eq_ok.mp hok
  obtain rfl := Except.ok.inj hpure
  rw [dependencyMatches_eq, hargs, List.append_assoc] at hfold
  obtain ⟨behind, rfl⟩ := @foldlM_substituteResult_two _ first second more front back args' hcontent
    hmarks hin (by rw [← htwo, hargs, List.append_assoc]; exact hfold)
  intro heq
  rw [String.toList_ofList, htokens, substitute_letters] at heq
  have hvalue : 'x' :: 'x' :: behind = ('x' :: second.1) ++ _ :=
    (List.append_cancel_left heq).trans (congrArg (· ++ _) (hcontent _))
  obtain ⟨body, hbody, -⟩ := hmarks second (List.mem_cons_of_mem _ List.mem_cons_self)
  rw [hbody] at hvalue
  cases (List.cons.inj (List.cons.inj hvalue).2).1

/-- The condition is needed, if the arguments are to be right for all contents. -/
theorem alwaysSubstitutable_of_contents (hne : graph.tasks ≠ []) {arguments : String}
    (h : ∀ content, isNotBlankString content = true → ∃ args,
      substituteResults (graph.withContent content) arguments = .ok args ∧
        Substituted (graph.withContent content) arguments args) :
    AlwaysSubstitutable graph arguments := by
  obtain ⟨args, hok, hnamed, hargs⟩ := h "x" (by decide)
  rw [substituteResults_x hne] at hok
  obtain rfl := Except.ok.inj hok
  have hcontent : contentOf (graph.withContent "x") = fun _ => ['x'] :=
    contentOf_withContent hne "x"
  rw [String.toList_ofList, hcontent] at hargs
  have htokens := differ_references.tokens_eq (by decide) (by decide) hargs
  refine ⟨tokens_eq_iff_singleDigit.mp htokens, fun reference hmem =>
    exists_index_withResults.mp (hnamed reference hmem), ?_⟩
  by_contra hlength
  rcases htwo : references arguments with - | ⟨first, - | ⟨second, more⟩⟩
  · rw [htwo] at hlength
    exact hlength (Nat.zero_le _)
  · rw [htwo] at hlength
    exact hlength (Nat.le_refl _)
  · rw [references, ← htokens] at htwo
    obtain ⟨args, hok, -, hargs⟩ := h (String.ofList ('x' :: second.1))
      (by simp [isNotBlankString, isBlankString, isSpace])
    rw [← htokens] at hargs
    exact not_substituted_of_two hne htwo hok hargs

/-! ### Requests -/

/-- The request is right where the arguments of every task are. -/
theorem requestsCalls_iff {ids : List Int} {request : Message}
    (h : ∀ id ∈ ids, ∃ task ∈ graph.tasks, task.index = id) :
    RequestsCalls graph ids request ↔ ∀ id ∈ ids, ∃ args,
      substituteResults graph (taskOf graph id).toolCall.functionOrDefault.arguments = .ok args ∧
        Substituted graph (taskOf graph id).toolCall.functionOrDefault.arguments args := by
  obtain ⟨request', calls, hrequest, hcalls, hall⟩ := @buildToolCallRequest_calls graph _ request h
  constructor
  · rintro ⟨_, other, hrequest', hother, hright⟩
    obtain rfl := Except.ok.inj (hrequest.symm.trans hrequest')
    obtain rfl : calls = other := List.append_cancel_left (hcalls.symm.trans hother)
    clear h hrequest hrequest' hcalls hother
    induction hall with
    | nil => simp
    | cons hcall _ ih =>
        cases hright with
        | cons hargs hright =>
            rw [List.forall_mem_cons]
            refine ⟨?_, ih hright⟩
            obtain ⟨args, hok, rfl⟩ := hcall
            obtain ⟨args', hsubstituted, hsame⟩ := hargs
            obtain rfl : args = args' := congrArg (·.functionOrDefault.arguments) hsame
            exact ⟨args, hok, hsubstituted⟩
  · intro hright
    refine ⟨request', calls, hrequest, hcalls, ?_⟩
    clear h hrequest hcalls
    induction hall with
    | nil => exact .nil
    | cons hcall _ ih =>
        obtain ⟨hfirst, hrest⟩ := List.forall_mem_cons.mp hright
        refine .cons ?_ (ih hrest)
        obtain ⟨args, hok, rfl⟩ := hcall
        obtain ⟨args', hok', hsubstituted⟩ := hfirst
        obtain rfl := Except.ok.inj (hok.symm.trans hok')
        exact ⟨args, hsubstituted, rfl⟩

/-- **The calls that are asked for.**  For ids of tasks whose dependencies are finished,
each call gets the arguments in which every reference is replaced by the content of its
task, if the condition holds of them.  With all results that the tasks can have it does
so exactly where each index is one digit with no digit and no brace behind it, each
reference names a task, and there is one reference at most. -/
theorem buildToolCallRequest_substitutes_iff {ids : List Int} (h : ReadyIds graph ids)
    (request : Message) :
    ((∀ id ∈ ids, Substitutable graph (taskOf graph id).toolCall.functionOrDefault.arguments) →
      RequestsCalls graph ids request) ∧
    ((∀ results, ReadyIds (graph.withResults results) ids →
        RequestsCalls (graph.withResults results) ids request) ↔
      ∀ id ∈ ids,
        AlwaysSubstitutable graph (taskOf graph id).toolCall.functionOrDefault.arguments) := by
  have hids : ∀ id ∈ ids, ∃ task ∈ graph.tasks, task.index = id := fun id hmem => (h id hmem).1
  have htask : ∀ {results} {id}, id ∈ ids → (taskOf (graph.withResults results) id).toolCall
      = (taskOf graph id).toolCall := fun hmem => by rw [taskOf_withResults (hids _ hmem)]
  constructor
  · intro hall
    refine (requestsCalls_iff hids).mpr fun id hmem => ?_
    exact substituteResults_of_substitutable (hall id hmem)
  constructor
  · intro hright id hmem
    obtain ⟨task, hin, -⟩ := hids id hmem
    refine alwaysSubstitutable_of_contents (List.ne_nil_of_mem hin) fun content hcontent => ?_
    have hready : ReadyIds (graph.withContent content) ids := by
      intro id hmem
      refine ⟨exists_index_withResults.mpr (hids id hmem), fun d hd => ?_⟩
      rw [LLMCompilerTaskGraph.withContent, taskOf_withResults (hids id hmem)] at hd
      obtain ⟨task, hin, hindex, -⟩ := (h id hmem).2 d hd
      exact ⟨_, List.mem_map_of_mem hin, hindex, _, rfl, hcontent⟩
    have hids' := fun id hmem => (hready id hmem).1
    have hargs := (requestsCalls_iff hids').mp (hright _ hready) id hmem
    rw [LLMCompilerTaskGraph.withContent, htask hmem] at hargs
    exact hargs
  · intro hall results hready
    refine (requestsCalls_iff fun id hmem => (hready id hmem).1).mpr fun id hmem => ?_
    rw [htask hmem]
    exact substituteResults_of_substitutable
      (alwaysSubstitutable_withResults.mpr (hall id hmem)).substitutable

/-- A search, and a task that takes its result. -/
def searchThenTranslate : LLMCompilerTaskGraph where
  tasks :=
    [{ index := 1, toolCall := { id := "1" }, result := some { content := "$5" } },
      { index := 2
        toolCall := { id := "2", function := some { name := "fr", arguments := "<${1}>" } }
        dependencies := [1] }]

theorem buildToolCallRequest_substitutes_search :
    RequestsCalls searchThenTranslate [2] {} ∧
    ∀ results, ReadyIds (searchThenTranslate.withResults results) [2] →
      RequestsCalls (searchThenTranslate.withResults results) [2] {} := by
  have hread : tokens dependencyAt? "<${1}>".toList = tokens referenceAt? "<${1}>".toList := rfl
  have hready : ReadyIds searchThenTranslate [2] := by
    intro id hmem
    obtain rfl := List.mem_singleton.mp hmem
    exact ⟨by decide, by decide⟩
  have hall : ∀ id ∈ [(2 : Int)], AlwaysSubstitutable searchThenTranslate
      (taskOf searchThenTranslate id).toolCall.functionOrDefault.arguments := by
    intro id hmem
    obtain rfl := List.mem_singleton.mp hmem
    exact ⟨tokens_eq_iff_singleDigit.mp hread, by decide, by decide⟩
  obtain ⟨hgiven, halways⟩ := buildToolCallRequest_substitutes_iff hready {}
  exact ⟨hgiven fun id hmem => (hall id hmem).substitutable, halways.mpr hall⟩

/-- Two prices, and a task that takes both; the first result has the text of a reference. -/
def twoPrices : LLMCompilerTaskGraph where
  tasks :=
    [{ index := 1, toolCall := { id := "1" }, result := some { content := "$2" } },
      { index := 2, toolCall := { id := "2" }, result := some { content := "9" } },
      { index := 3
        toolCall := { id := "3", function := some { name := "add", arguments := "$1+$2" } }
        dependencies := [1, 2] }]

/-- A reference to a task whose index has two digits; the planner's parser reads a
dependency on the first. -/
def twelfthTask : LLMCompilerTaskGraph where
  tasks :=
    [{ index := 1, toolCall := { id := "1" }, result := some { content := "7" } },
      { index := 12, toolCall := { id := "12" }, result := some { content := "9" } },
      { index := 13
        toolCall := { id := "13", function := some { name := "double", arguments := "$12" } }
        dependencies := [1] }]

/-- The reference in the first result is replaced, and the one in the arguments stays; of
two digits the first is taken. -/
theorem buildToolCallRequest_substitutes_wrongly :
    (ReadyIds twoPrices [3] ∧ ¬ RequestsCalls twoPrices [3] {}) ∧
    ReadyIds twelfthTask [13] ∧ ¬ RequestsCalls twelfthTask [13] {} := by
  refine ⟨⟨?_, ?_⟩, ?_, ?_⟩
  · intro id hmem
    obtain rfl := List.mem_singleton.mp hmem
    exact ⟨by decide, by decide⟩
  · rw [requestsCalls_iff (by decide)]
    intro h
    obtain ⟨args, hok, -, hargs⟩ := h 3 (by decide)
    obtain rfl := Except.ok.inj (hok.symm.trans (rfl : _ = Except.ok "9+$2"))
    exact absurd hargs (by decide)
  · intro id hmem
    obtain rfl := List.mem_singleton.mp hmem
    exact ⟨by decide, by decide⟩
  · rw [requestsCalls_iff (by decide)]
    intro h
    obtain ⟨args, hok, -, hargs⟩ := h 13 (by decide)
    obtain rfl := Except.ok.inj (hok.symm.trans (rfl : _ = Except.ok "72"))
    exact absurd hargs (by decide)

end Instinct
