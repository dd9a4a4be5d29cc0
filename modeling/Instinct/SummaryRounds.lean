/-
Instinct/SummaryRounds.lean

`CreateSummary`: texts are summarised one by one, the summaries put together into
batches, and the batches summarised, round after round, until one summary is left.

A round has as many summaries as batches.  These are all of one text if and only if
any two texts that follow each other reach the limit together
(`batches_of_apart`, `length_batches_lt`), and then the round has only replaced each text by the
summary of its summary.  So a list comes to one summary if and only if no round of it
has several texts that reach the limit with the next one after every odd number of
summaries (`createSummary_returns_iff`), and every list does if and only if any two texts
come below the limit together after some such number (`forall_returns_iff`).

In any round the batches are the summaries in their order, each batch as large as
the limit lets it be (`roundBatches_isBatching`).
-/
import Mathlib.Algebra.GroupWithZero.Nat
import Mathlib.Data.List.Chain
import Mathlib.Data.Nat.Find
import Mathlib.Logic.Function.Iterate

namespace Instinct.SummaryRounds

/-! ### The model -/

/-- A `std::string`, by its bytes. -/
abbrev Text := List UInt8

/-- `IsReducibleFn`. -/
abbrev IsReducibleFn := List Text → Text → Bool

/-- `CreateReducibleFnWithMaxStringSize`, and the function of `FileObjectTaskHandler`. -/
def createReducibleFnWithMaxStringSize (limit : Nat) : IsReducibleFn := fun data delta =>
  limit ≤ data.foldl (fun total item => total + item.length) 0 + delta.length

/-- The batches that are sent on, from the texts in the buffer on. -/
def batches (isReducible : IsReducibleFn) (buffer : List Text) : List Text → List (List Text)
  | [] => if buffer = [] then [] else [buffer]
  | text :: texts =>
      if buffer ≠ [] ∧ isReducible buffer text = true then
        buffer :: batches isReducible [text] texts
      else batches isReducible (buffer ++ [text]) texts

/-- The summaries of a round. -/
def round (isReducible : IsReducibleFn) (chain : List Text → Text) (texts : List Text) :
    List Text :=
  (batches isReducible [] (texts.map fun text => chain [text])).map chain

/-- `CreateSummary`, in at most so many rounds.  Without summaries it throws. -/
def createSummary (isReducible : IsReducibleFn) (chain : List Text → Text) :
    Nat → List Text → Option Text
  | 0, _ => none
  | rounds + 1, texts =>
      match round isReducible chain texts with
      | [summary] => some summary
      | [] => none
      | summaries => createSummary isReducible chain rounds summaries

/-- **A round with exactly one summary is reached**, and this is returned. -/
def Returns (isReducible : IsReducibleFn) (chain : List Text → Text) (texts : List Text) : Prop :=
  ∃ rounds summary, createSummary isReducible chain rounds texts = some summary

/-! ### Batches -/

section Batches

variable {isReducible : IsReducibleFn} {limit : Nat} {buffer texts : List Text} {text next : Text}

theorem length_batches_le (isReducible : IsReducibleFn) (buffer texts : List Text) :
    (batches isReducible buffer texts).length ≤ texts.length + 1 := by
  induction texts generalizing buffer with
  | nil =>
      unfold batches
      split <;> simp
  | cons text texts ih =>
      unfold batches
      split
      · exact Nat.succ_le_succ (ih [text])
      · exact (ih _).trans (Nat.le_succ _)

theorem batches_ne_nil (h : buffer ≠ [] ∨ texts ≠ []) : batches isReducible buffer texts ≠ [] := by
  induction texts generalizing buffer with
  | nil =>
      rw [batches, if_neg (h.resolve_right (fun hne => hne rfl))]
      exact List.cons_ne_nil _ _
  | cons text texts ih =>
      unfold batches
      split
      · exact List.cons_ne_nil _ _
      · exact ih (.inl (List.append_ne_nil_of_right_ne_nil _ (List.cons_ne_nil _ _)))

theorem batches_start (text : Text) (texts : List Text) :
    batches isReducible [] (text :: texts) = batches isReducible [text] texts := by
  rw [batches, if_neg (fun h => h.1 rfl), List.nil_append]

theorem reducible_singleton :
    createReducibleFnWithMaxStringSize limit [text] next = true
      ↔ limit ≤ text.length + next.length := by
  rw [createReducibleFnWithMaxStringSize, decide_eq_true_iff, List.foldl_cons, List.foldl_nil,
    Nat.zero_add]

/-- Texts that reach the limit with the next one. -/
def Apart (limit : Nat) (texts : List Text) : Prop :=
  texts.IsChain fun a b => limit ≤ a.length + b.length

theorem batches_of_apart (h : Apart limit (text :: texts)) :
    batches (createReducibleFnWithMaxStringSize limit) [text] texts
      = (text :: texts).map ([·]) := by
  induction texts generalizing text with
  | nil => rfl
  | cons next texts ih =>
      obtain ⟨hfirst, hrest⟩ := List.isChain_cons_cons.mp h
      rw [batches, if_pos ⟨List.cons_ne_nil _ _, reducible_singleton.mpr hfirst⟩, ih hrest]
      rfl

/-- **A batch of several texts** is missing as one of its own. -/
theorem length_batches_lt (h : ¬ Apart limit (text :: texts)) :
    (batches (createReducibleFnWithMaxStringSize limit) [text] texts).length
      < (text :: texts).length := by
  induction texts generalizing text with
  | nil => exact absurd (List.isChain_singleton text) h
  | cons next texts ih =>
      by_cases hfirst : limit ≤ text.length + next.length
      · rw [batches, if_pos ⟨List.cons_ne_nil _ _, reducible_singleton.mpr hfirst⟩]
        exact Nat.succ_lt_succ (ih fun hrest => h (List.isChain_cons_cons.mpr ⟨hfirst, hrest⟩))
      · rw [batches, if_neg fun hred => hfirst (reducible_singleton.mp hred.2)]
        exact Nat.lt_succ_of_le (length_batches_le _ _ texts)

end Batches

/-! ### What is in the batches -/

/-- The total size of the texts of a batch. -/
def size (batch : List Text) : Nat := (batch.map List.length).sum

/-- The batches of a round: they hold all texts in order, a batch of several texts is below the
limit, and no batch has room for the text behind it. -/
structure IsBatching (limit : Nat) (texts : List Text) (bs : List (List Text)) : Prop where
  ne_nil : ∀ batch ∈ bs, batch ≠ []
  flatten : bs.flatten = texts
  size_lt : ∀ batch ∈ bs, 1 < batch.length → size batch < limit
  maximal : bs.IsChain fun batch next => ∃ text ∈ next.head?, limit ≤ size batch + text.length

section Contents

variable {isReducible : IsReducibleFn} {limit : Nat} {buffer texts batch : List Text} {text : Text}

theorem foldl_length (texts : List Text) (total : Nat) :
    texts.foldl (fun total item => total + item.length) total = total + size texts := by
  induction texts generalizing total with
  | nil => rfl
  | cons text texts ih =>
      rw [List.foldl_cons, ih, size, size, List.map_cons, List.sum_cons, Nat.add_assoc]

theorem reducible_iff :
    createReducibleFnWithMaxStringSize limit buffer text = true
      ↔ limit ≤ size buffer + text.length := by
  rw [createReducibleFnWithMaxStringSize, decide_eq_true_iff, foldl_length, Nat.zero_add]

theorem size_concat (batch : List Text) (text : Text) :
    size (batch ++ [text]) = size batch + text.length := by
  simp [size]

/-- No text is lost, and none is sent twice. -/
theorem flatten_batches (buffer texts : List Text) :
    (batches isReducible buffer texts).flatten = buffer ++ texts := by
  induction texts generalizing buffer with
  | nil =>
      rw [batches, List.append_nil]
      split
      · rename_i hempty
        rw [hempty]
        rfl
      · exact List.flatten_singleton
  | cons text texts ih =>
      rw [batches]
      split
      · rw [List.flatten_cons, ih]
        rfl
      · rw [ih, List.append_assoc]
        rfl

/-- The buffer is the beginning of the first batch. -/
theorem batches_eq_cons (hbuffer : buffer ≠ []) (texts : List Text) :
    ∃ more rest, batches isReducible buffer texts = (buffer ++ more) :: rest := by
  induction texts generalizing buffer with
  | nil => exact ⟨[], [], by rw [batches, if_neg hbuffer, List.append_nil]⟩
  | cons text texts ih =>
      rw [batches]
      split
      · exact ⟨[], _, by rw [List.append_nil]⟩
      · have hmore : buffer ++ [text] ≠ [] :=
          List.append_ne_nil_of_right_ne_nil _ (List.cons_ne_nil _ _)
        obtain ⟨more, rest, hrest⟩ := ih hmore
        exact ⟨text :: more, rest, by rw [hrest, List.append_assoc]; rfl⟩

theorem ne_nil_of_mem_batches (h : batch ∈ batches isReducible buffer texts) : batch ≠ [] := by
  induction texts generalizing buffer with
  | nil =>
      rw [batches] at h
      split at h
      · cases h
      · rename_i hbuffer
        rwa [List.mem_singleton.mp h]
  | cons text texts ih =>
      rw [batches] at h
      split at h
      · rename_i hsent
        rcases List.mem_cons.mp h with rfl | hlater
        · exact hsent.1
        · exact ih hlater
      · exact ih h

/-- A batch of several texts stays below the limit, where the buffer does. -/
theorem size_lt_of_mem_batches (hbuffer : 1 < buffer.length → size buffer < limit)
    (h : batch ∈ batches (createReducibleFnWithMaxStringSize limit) buffer texts)
    (hseveral : 1 < batch.length) : size batch < limit := by
  induction texts generalizing buffer with
  | nil =>
      rw [batches] at h
      split at h
      · cases h
      · obtain rfl := List.mem_singleton.mp h
        exact hbuffer hseveral
  | cons text texts ih =>
      rw [batches] at h
      split at h
      · rcases List.mem_cons.mp h with rfl | hlater
        · exact hbuffer hseveral
        · have hone : 1 < [text].length → size [text] < limit := fun hone =>
            absurd hone (Nat.lt_irrefl 1)
          exact ih hone hlater
      · rename_i hkept
        refine ih (fun hmore => ?_) h
        -- a text is put to others only while they stay below the limit
        have hsome : buffer ≠ [] := by
          rintro rfl
          exact absurd hmore (Nat.lt_irrefl 1)
        rw [size_concat]
        exact not_le.mp fun hreached => hkept ⟨hsome, reducible_iff.mpr hreached⟩

/-- A batch is sent when the next text would reach the limit. -/
theorem isChain_batches (buffer texts : List Text) :
    (batches (createReducibleFnWithMaxStringSize limit) buffer texts).IsChain
      fun batch next => ∃ text ∈ next.head?, limit ≤ size batch + text.length := by
  induction texts generalizing buffer with
  | nil =>
      rw [batches]
      split
      · exact List.isChain_nil
      · exact List.isChain_singleton _
  | cons text texts ih =>
      rw [batches]
      split
      · rename_i hsent
        obtain ⟨more, rest, hnext⟩ :=
          @batches_eq_cons (createReducibleFnWithMaxStringSize limit) _
            (List.cons_ne_nil text []) texts
        have hlater := ih [text]
        rw [hnext] at hlater ⊢
        exact List.isChain_cons_cons.mpr ⟨⟨text, rfl, reducible_iff.mp hsent.2⟩, hlater⟩
      · exact ih _

end Contents

/-- The batches that a round hands to the second call of the chain. -/
def roundBatches (limit : Nat) (chain : List Text → Text) (texts : List Text) :
    List (List Text) :=
  batches (createReducibleFnWithMaxStringSize limit) [] (texts.map fun text => chain [text])

/-- **The batches of a round** hold the mapped texts, and each but the last is as large as the
limit lets it be. -/
theorem roundBatches_isBatching (limit : Nat) (chain : List Text → Text) (texts : List Text) :
    round (createReducibleFnWithMaxStringSize limit) chain texts
        = (roundBatches limit chain texts).map chain ∧
      IsBatching limit (texts.map fun text => chain [text]) (roundBatches limit chain texts) := by
  refine ⟨rfl, fun _ => ne_nil_of_mem_batches, flatten_batches [] _, fun _ => ?_,
    isChain_batches [] _⟩
  exact size_lt_of_mem_batches fun hnone => absurd hnone (Nat.not_lt_zero 1)

/-- Two texts of two bytes come below a limit of five together, three do not. -/
example : roundBatches 5 (fun texts => texts.flatten) [[1, 2], [3, 4], [5, 6]]
    = [[[1, 2], [3, 4]], [[5, 6]]] := by decide

/-! ### Rounds -/

section Rounds

variable {chain : List Text → Text} {limit : Nat} {texts : List Text} {text other : Text}

/-- The summary of a single text. -/
def single (chain : List Text → Text) (text : Text) : Text := chain [text]

/-- A round of `createSummary` with the reducible function of the limit. -/
abbrev roundWith (limit : Nat) (chain : List Text → Text) (texts : List Text) : List Text :=
  round (createReducibleFnWithMaxStringSize limit) chain texts

theorem round_cons (isReducible : IsReducibleFn) (chain : List Text → Text) (text : Text)
    (texts : List Text) :
    round isReducible chain (text :: texts)
      = (batches isReducible [single chain text] (texts.map (single chain))).map chain := by
  rw [round, List.map_cons, batches_start]
  rfl

theorem round_ne_nil (isReducible : IsReducibleFn) (h : texts ≠ []) :
    round isReducible chain texts ≠ [] := by
  obtain ⟨text, texts, rfl⟩ := List.exists_cons_of_ne_nil h
  rw [round_cons]
  exact List.map_eq_nil_iff.not.mpr (batches_ne_nil (.inl (List.cons_ne_nil _ _)))

/-- A round without a batch of several texts. -/
theorem round_of_apart (h : Apart limit ((text :: texts).map (single chain))) :
    roundWith limit chain (text :: texts) = (text :: texts).map (single chain)^[2] := by
  rw [roundWith, round_cons, batches_of_apart h, ← List.map_cons, List.map_map, List.map_map]
  rfl

theorem length_round_lt (h : ¬ Apart limit ((text :: texts).map (single chain))) :
    (roundWith limit chain (text :: texts)).length < (text :: texts).length := by
  rw [roundWith, round_cons, List.length_map]
  refine (length_batches_lt h).trans_eq ?_
  rw [List.length_cons, List.length_map, List.length_cons]

theorem returns_single (isReducible : IsReducibleFn) (chain : List Text → Text) (text : Text) :
    Returns isReducible chain [text] := ⟨1, chain [single chain text], rfl⟩

/-- A list of texts comes to one summary where the summaries of its round do. -/
theorem returns_round_iff (isReducible : IsReducibleFn) (h : texts ≠ []) :
    Returns isReducible chain (round isReducible chain texts)
      ↔ Returns isReducible chain texts := by
  cases hround : round isReducible chain texts with
  | nil => exact absurd hround (round_ne_nil isReducible h)
  | cons first rest =>
      cases rest with
      | nil =>
          -- the round had one summary, and this is what is returned
          have hreturns : Returns isReducible chain texts :=
            ⟨1, first, by rw [createSummary, hround]⟩
          exact ⟨fun _ => hreturns, fun _ => returns_single _ chain first⟩
      | cons second rest =>
          constructor
          · rintro ⟨rounds, summary, hsummary⟩
            refine ⟨rounds + 1, summary, ?_⟩
            rw [createSummary, hround]
            exact hsummary
          · rintro ⟨rounds, summary, hsummary⟩
            cases rounds with
            | zero => cases hsummary
            | succ rounds =>
                rw [createSummary, hround] at hsummary
                exact ⟨rounds, summary, hsummary⟩

theorem iterate_round_ne_nil (isReducible : IsReducibleFn) (h : texts ≠ []) (n : Nat) :
    (round isReducible chain)^[n] texts ≠ [] := by
  induction n with
  | zero => exact h
  | succ n ih =>
      rw [Function.iterate_succ_apply']
      exact round_ne_nil isReducible ih

theorem returns_iterate_iff (isReducible : IsReducibleFn) (h : texts ≠ []) (n : Nat) :
    Returns isReducible chain ((round isReducible chain)^[n] texts)
      ↔ Returns isReducible chain texts := by
  induction n with
  | zero => rfl
  | succ n ih =>
      rw [Function.iterate_succ_apply']
      exact (returns_round_iff isReducible (iterate_round_ne_nil isReducible h n)).trans ih

/-! #### Rounds that only replace the texts -/

theorem roundWith_of_apart (h : Apart limit (texts.map (single chain))) :
    roundWith limit chain texts = texts.map (single chain)^[2] := by
  cases texts with
  | nil => rfl
  | cons text texts => exact round_of_apart h

theorem map_single_iterate (n : Nat) (texts : List Text) :
    (texts.map (single chain)^[n]).map (single chain) = texts.map (single chain)^[n + 1] := by
  rw [List.map_map]
  apply List.map_congr_left
  intro text _
  exact (Function.iterate_succ_apply' _ n text).symm

/-- As long as no round finds room for two texts in a batch, each text is replaced by a summary of
its summaries. -/
theorem iterate_roundWith_of_apart (n : Nat)
    (h : ∀ k < n, Apart limit (texts.map (single chain)^[2 * k + 1])) :
    (roundWith limit chain)^[n] texts = texts.map (single chain)^[2 * n] := by
  induction n with
  | zero => simp
  | succ n ih =>
      rw [Function.iterate_succ_apply', ih fun k hk => h k (Nat.lt_succ_of_lt hk)]
      have hapart : Apart limit ((texts.map (single chain)^[2 * n]).map (single chain)) := by
        rw [map_single_iterate]
        exact h n (Nat.lt_succ_self n)
      rw [roundWith_of_apart hapart, List.map_map, ← Function.iterate_add, Nat.add_comm 2]
      rfl

/-- **Several texts that no later round puts together**: after any odd number of summaries each of
them reaches the limit with the one behind it. -/
def Stuck (limit : Nat) (chain : List Text → Text) (texts : List Text) : Prop :=
  2 ≤ texts.length ∧ ∀ k, Apart limit (texts.map (single chain)^[2 * k + 1])

theorem not_returns_of_stuck (h : Stuck limit chain texts) :
    ¬ Returns (createReducibleFnWithMaxStringSize limit) chain texts := by
  rintro ⟨rounds, summary, hsummary⟩
  induction rounds generalizing texts with
  | zero => cases hsummary
  | succ rounds ih =>
      obtain ⟨hseveral, hapart⟩ := h
      have hround : roundWith limit chain texts = texts.map (single chain)^[2] :=
        roundWith_of_apart (hapart 0)
      have hlength : 2 ≤ (texts.map (single chain)^[2]).length := by
        rw [List.length_map]
        exact hseveral
      -- the texts of the next round are as many, and two summaries further
      have hstuck : Stuck limit chain (texts.map (single chain)^[2]) := by
        refine ⟨hlength, fun k => ?_⟩
        rw [List.map_map, ← Function.iterate_add]
        exact hapart (k + 1)
      apply ih hstuck
      rw [createSummary, show round _ chain texts = _ from hround] at hsummary
      split at hsummary
      · rename_i hone
        rw [hone] at hlength
        exact absurd hlength (Nat.lt_irrefl 1)
      · cases hsummary
      · exact hsummary

theorem exists_shorter_of_not_stuck (hseveral : 2 ≤ texts.length)
    (h : ¬ Stuck limit chain texts) :
    ∃ n, ((roundWith limit chain)^[n] texts).length < texts.length := by
  have hroom : ∃ k, ¬ Apart limit (texts.map (single chain)^[2 * k + 1]) := by
    by_contra hcon
    push Not at hcon
    exact h ⟨hseveral, hcon⟩
  classical
  -- the first round in which two texts come into one batch
  have hbefore := @iterate_roundWith_of_apart chain _ texts (Nat.find hroom)
    fun k hk => not_not.mp (Nat.find_min hroom hk)
  refine ⟨Nat.find hroom + 1, ?_⟩
  rw [Function.iterate_succ_apply', hbefore]
  obtain ⟨text, texts, rfl⟩ := List.exists_cons_of_length_pos (Nat.lt_of_succ_lt hseveral)
  refine (length_round_lt ?_).trans_eq (by simp)
  intro hapart
  apply Nat.find_spec hroom
  rw [← map_single_iterate]
  exact hapart

theorem returns_of_never_stuck (hne : texts ≠ [])
    (h : ∀ n, ¬ Stuck limit chain ((roundWith limit chain)^[n] texts)) :
    Returns (createReducibleFnWithMaxStringSize limit) chain texts := by
  induction hlength : texts.length using Nat.strong_induction_on generalizing texts with
  | _ length ih =>
      subst hlength
      by_cases hseveral : 2 ≤ texts.length
      · obtain ⟨n, hn⟩ := exists_shorter_of_not_stuck hseveral (h 0)
        apply (returns_iterate_iff _ hne n).mp
        refine ih _ hn (iterate_round_ne_nil _ hne n) (fun later => ?_) rfl
        rw [← Function.iterate_add_apply]
        exact h (later + n)
      · obtain ⟨text, rfl⟩ : ∃ text, texts = [text] := by
          apply List.length_eq_one_iff.mp
          have hsome := List.length_pos_iff.mpr hne
          omega
        exact returns_single _ chain text

/-- **A list of texts comes to one summary** if and only if no round of it is stuck. -/
theorem createSummary_returns_iff (limit : Nat) (chain : List Text → Text) (text : Text)
    (texts : List Text) :
    Returns (createReducibleFnWithMaxStringSize limit) chain (text :: texts)
      ↔ ∀ n, ¬ Stuck limit chain ((roundWith limit chain)^[n] (text :: texts)) := by
  constructor
  · intro h n hstuck
    apply not_returns_of_stuck hstuck
    exact (returns_iterate_iff _ (List.cons_ne_nil _ _) n).mpr h
  · exact returns_of_never_stuck (List.cons_ne_nil _ _)

/-- Every list of texts comes to one summary if and only if any two texts come below the limit
together, after an odd number of summaries. -/
theorem forall_returns_iff (limit : Nat) (chain : List Text → Text) :
    (∀ texts, texts ≠ [] → Returns (createReducibleFnWithMaxStringSize limit) chain texts)
      ↔ ∀ text other, ∃ k, ((single chain)^[2 * k + 1] text).length
          + ((single chain)^[2 * k + 1] other).length < limit := by
  constructor
  · intro h text other
    by_contra hcon
    push Not at hcon
    have hstuck : Stuck limit chain [text, other] :=
      ⟨Nat.le_refl 2, fun k => List.isChain_pair.mpr (hcon k)⟩
    exact not_returns_of_stuck hstuck (h [text, other] (List.cons_ne_nil _ _))
  · intro h texts hne
    apply returns_of_never_stuck hne
    rintro n ⟨hseveral, hapart⟩
    revert hseveral hapart
    match (roundWith limit chain)^[n] texts with
    | [] => exact fun hnone => absurd hnone (by decide)
    | [text] => exact fun hone => absurd hone (by simp)
    | text :: other :: rest =>
        intro _ hapart
        obtain ⟨k, hk⟩ := h text other
        exact absurd (List.isChain_cons_cons.mp (hapart k)).1 (not_le.mpr hk)

end Rounds

/-- Summaries of two bytes and a limit of four. -/
theorem not_returns_four :
    ¬ Returns (createReducibleFnWithMaxStringSize 4) (fun _ => [65, 65]) [[66], [67]] := by
  apply not_returns_of_stuck
  refine ⟨Nat.le_refl 2, fun k => List.isChain_pair.mpr ?_⟩
  rw [Function.iterate_succ_apply', Function.iterate_succ_apply']
  exact Nat.le_refl 4

end Instinct.SummaryRounds
