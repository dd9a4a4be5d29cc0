/-
Instinct/EncodeOptions.lean

`RegexTokenizer::Encode` with its options.

The special tokens that are given are looked up in the map of the tokenizer, which registers
those that it does not have (`registered_encodeWith`).  Then the case runs into the next
one, which throws: no text is encoded with some of the special tokens
(`not_encodesSome`).
-/
import Instinct.Tokenizer

namespace Instinct.Tokenizers

open OrderedMaps

/-! ### Encoding with options -/

structure TokenizerEncodeOptions where
  allowSpecial : AllowSpecialType := .noneRaise
  specials : List UnicodeString := []

/-- `special_tokens_[token]`.  A token that is read and is not there is inserted with id 0. -/
def RegexTokenizer.lookUpSpecial (t : RegexTokenizer) (token : UnicodeString) : RegexTokenizer :=
  { t with specialTokens := t.specialTokens.insert token 0 }

/-- `Encode`, with the tokenizer that it leaves. -/
def RegexTokenizer.encodeWith (t : RegexTokenizer) (text : UnicodeString)
    (options : TokenizerEncodeOptions) : Except Exn (List Nat) × RegexTokenizer :=
  match options.allowSpecial with
  -- what is collected from the map is lost with the exception
  | .some => (t.encode text .some, options.specials.foldl RegexTokenizer.lookUpSpecial t)
  | allowSpecial => (t.encode text allowSpecial, t)

/-- The special tokens that are registered. -/
def RegexTokenizer.registered (t : RegexTokenizer) : List UnicodeString :=
  t.specialTokens.entries.map Prod.fst

section Registered

variable {t : RegexTokenizer} {text token : UnicodeString} {options : TokenizerEncodeOptions}

theorem registered_lookUpSpecials (tokens : List UnicodeString) :
    token ∈ (tokens.foldl RegexTokenizer.lookUpSpecial t).registered ↔
      token ∈ tokens ∨ token ∈ t.registered := by
  induction tokens generalizing t with
  | nil => exact (or_iff_right List.not_mem_nil).symm
  | cons token' tokens ih =>
      have hkeys : token ∈ (t.lookUpSpecial token').registered ↔
          token = token' ∨ token ∈ t.registered := OrderedMap.mem_keys_insert
      rw [List.foldl_cons, ih, hkeys, List.mem_cons, or_left_comm, or_assoc]

/-- Only the case of some tokens registers any: those that are given. -/
theorem registered_encodeWith :
    token ∈ (t.encodeWith text options).2.registered ↔
      (options.allowSpecial = .some ∧ token ∈ options.specials) ∨ token ∈ t.registered := by
  rw [RegexTokenizer.encodeWith]
  cases options.allowSpecial with
  | some =>
      refine (registered_lookUpSpecials options.specials).trans ?_
      exact or_congr_left (iff_and_self.mpr fun _ => rfl)
  | unspecified => exact (or_iff_right fun h => by cases h.1).symm
  | all => exact (or_iff_right fun h => by cases h.1).symm
  | none => exact (or_iff_right fun h => by cases h.1).symm
  | noneRaise => exact (or_iff_right fun h => by cases h.1).symm

end Registered

/-! ### Some of the special tokens -/

/-- A text is cut at the leftmost of the tokens that occurs in it, which becomes its id, and so is
what is behind.  The rest is ordinary text. -/
inductive EncodesAs (t : RegexTokenizer) (tokens : List UnicodeString) :
    UnicodeString → List Nat → Prop
  | ordinary {text : UnicodeString} {ids : List Nat} :
      Alternatives.search tokens text = none → t.encodeOrdinary text = .ok ids →
      EncodesAs t tokens text ids
  | special {text : UnicodeString} {m : Alternatives.Found Char} {id : Nat}
      {before after : List Nat} :
      Alternatives.search tokens text = some m → t.specialTokens.find? m.word = some id →
      t.encodeOrdinary m.before = .ok before → EncodesAs t tokens m.after after →
      EncodesAs t tokens text (before ++ id :: after)

/-- Encoding a text with some special tokens, as it is meant. -/
structure EncodesSome (t : RegexTokenizer) (text : UnicodeString) (tokens : List UnicodeString) :
    Prop where
  succeeds : ∃ ids, (t.encodeWith text { allowSpecial := .some, specials := tokens }).1 = .ok ids ∧
    EncodesAs t tokens text ids
  all : t.registered ⊆ tokens →
    (t.encodeWith text { allowSpecial := .some, specials := tokens }).1
      = (t.encodeWith text { allowSpecial := .all }).1
  none : tokens = [] →
    (t.encodeWith text { allowSpecial := .some, specials := tokens }).1
      = (t.encodeWith text { allowSpecial := .none }).1
  registered : ∀ text options token,
    token ∈ (t.encodeWith text options).2.registered ↔ token ∈ t.registered

/-- The case of some tokens runs into the one that throws. -/
theorem encodeWith_some (t : RegexTokenizer) (text : UnicodeString) (tokens : List UnicodeString) :
    (t.encodeWith text { allowSpecial := .some, specials := tokens }).1
      = .error (.instinct "allowd_special unspecified") := rfl

/-- **No text is encoded with some special tokens**, whatever is registered and given. -/
theorem not_encodesSome (t : RegexTokenizer) (text : UnicodeString) (tokens : List UnicodeString) :
    ¬ EncodesSome t text tokens := by
  intro h
  obtain ⟨ids, hids, -⟩ := h.succeeds
  rw [encodeWith_some] at hids
  cases hids

/-- Not even the text of the one token that is registered. -/
theorem end_token_not_encoded :
    ¬ EncodesSome (RegexTokenizer.new (fun text => [text]) (OrderedMap.empty.set ['^'] 256))
      ['^'] [['^']] := by
  rintro ⟨⟨ids, hids, -⟩, -⟩
  cases hids

end Instinct.Tokenizers
