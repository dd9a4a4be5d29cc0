/-
Instinct/SqlConditions.lean

Conditions of SQL, as they stand behind `WHERE`: their tokens, their grammar and
what they mean on a row, as a small library of its own.

The lexer is an automaton that sees one character after the other.  Texts can be
put together where the next one begins with a character that ends every token
(`lex_append`).

The parser knows the precedence of SQL: a comparison binds more than `NOT`, `NOT`
more than `AND`, and `AND` more than `OR`.  Operands joined by a connective are
parsed to the chain of them (`parsesBy_chain`), so that a condition is parsed by
what its parts are parsed to.

No column is `NULL`, so that a condition is true or false on a row.  The names without
quotes are those of ASCII letters, digits and underscores.  A database may take others
too, such as names with other letters or with a dollar sign, about which nothing is said.
-/
import Mathlib.Data.List.Basic
import Mathlib.Data.Rat.Defs
import Mathlib.Algebra.Order.Ring.Rat
import Mathlib.Data.List.Lex
import Mathlib.Data.Char

namespace SqlConditions

/-! ### Tokens -/

/-- The comparisons. -/
inductive Comparison
  | eq | lt | le | gt | ge
  deriving Repr, DecidableEq

/-- The connectives of two operands. -/
inductive Connective
  | and | or
  deriving Repr, DecidableEq

inductive Token
  | name (cs : List Char)
  | number (value : ℚ)
  | text (cs : List Char)
  | compare (comparison : Comparison)
  | connective (connective : Connective)
  | not
  | isIn
  | minus
  | comma
  | opening
  | closing
  deriving DecidableEq

/-- Words that cannot be the name of a column without quotes. -/
def reservedWords : List String :=
  ["ALL", "ANALYSE", "ANALYZE", "ANY", "ARRAY", "AS", "ASC", "ASYMMETRIC", "BOTH", "CASE", "CAST",
    "CHECK", "COLLATE", "COLUMN", "CONSTRAINT", "CREATE", "DEFAULT", "DEFERRABLE", "DESC",
    "DESCRIBE", "DISTINCT", "DO", "ELSE", "END", "EXCEPT", "FALSE", "FETCH", "FOR", "FOREIGN",
    "FROM", "GROUP", "HAVING", "INITIALLY", "INTERSECT", "INTO", "LAMBDA", "LATERAL", "LEADING",
    "LIMIT", "NULL", "OFFSET", "ON", "ONLY", "ORDER", "PIVOT", "PLACING", "PRIMARY", "QUALIFY",
    "REFERENCES", "RETURNING", "SELECT", "SHOW", "SOME", "SUMMARIZE", "SYMMETRIC", "TABLE", "THEN",
    "TO", "TRAILING", "TRUE", "UNION", "UNIQUE", "UNPIVOT", "USING", "VARIADIC", "WHEN", "WHERE",
    "WINDOW", "WITH"]

/-- The token of a word: a keyword, in capitals or not, or a name. -/
def wordToken (cs : List Char) : Option Token :=
  let word := String.ofList (cs.map Char.toUpper)
  if word = "AND" then some (.connective .and)
  else if word = "OR" then some (.connective .or)
  else if word = "NOT" then some .not
  else if word = "IN" then some .isIn
  else if reservedWords.contains word then none
  else some (.name cs)

/-- The number of a decimal notation. -/
def decimal (whole fraction : List Char) : ℚ :=
  (Nat.ofDigitChars 10 (whole ++ fraction) 0 : ℚ) / 10 ^ fraction.length

/-! ### The lexer -/

/-- What has been read of the token at hand. -/
inductive LexState
  | idle
  | word (cs : List Char)
  | digits (whole : List Char)
  | fraction (whole cs : List Char)
  | text (cs : List Char)
  | quoted (cs : List Char)
  | less
  | greater
  deriving DecidableEq

/-- The characters of a name, behind its first one. -/
def isWordChar (c : Char) : Bool := c.isAlphanum || c = '_'

/-- The first character of a token. -/
def startToken (c : Char) : Option (List Token × LexState) :=
  if c = ' ' then some ([], .idle)
  else if c = '(' then some ([.opening], .idle)
  else if c = ')' then some ([.closing], .idle)
  else if c = ',' then some ([.comma], .idle)
  else if c = '-' then some ([.minus], .idle)
  else if c = '=' then some ([.compare .eq], .idle)
  else if c = '<' then some ([], .less)
  else if c = '>' then some ([], .greater)
  else if c = '\'' then some ([], .text [])
  else if c.isDigit then some ([], .digits [c])
  else if isWordChar c then some ([], .word [c])
  else none

/-- The token at hand, when it ends.  A text must be closed. -/
def finish : LexState → Option (List Token)
  | .idle => some []
  | .word cs => (wordToken cs).map ([·])
  | .digits whole => some [.number (decimal whole [])]
  | .fraction whole cs => some [.number (decimal whole cs)]
  | .text _ => none
  | .quoted cs => some [.text cs]
  | .less => some [.compare .lt]
  | .greater => some [.compare .gt]

/-- The token at hand ends before the character, which begins the next one. -/
def endToken (s : LexState) (c : Char) : Option (List Token × LexState) :=
  (finish s).bind fun tokens => (startToken c).map fun next => (tokens ++ next.1, next.2)

/-- One character. -/
def lexStep (s : LexState) (c : Char) : Option (List Token × LexState) :=
  match s with
  | .idle => startToken c
  | .word cs => if isWordChar c then some ([], .word (cs ++ [c])) else endToken s c
  | .digits whole =>
      if c.isDigit then some ([], .digits (whole ++ [c]))
      else if c = '.' then some ([], .fraction whole [])
      else endToken s c
  | .fraction whole cs =>
      if c.isDigit then some ([], .fraction whole (cs ++ [c])) else endToken s c
  | .text cs => if c = '\'' then some ([], .quoted cs) else some ([], .text (cs ++ [c]))
  | .quoted cs => if c = '\'' then some ([], .text (cs ++ [c])) else endToken s c
  | .less => if c = '=' then some ([.compare .le], .idle) else endToken s c
  | .greater => if c = '=' then some ([.compare .ge], .idle) else endToken s c

/-- Characters from a state on: their tokens, and what has been read of the last one. -/
def lexFrom : LexState → List Char → Option (List Token × LexState)
  | s, [] => some ([], s)
  | s, c :: cs =>
      (lexStep s c).bind fun first =>
        (lexFrom first.2 cs).map fun rest => (first.1 ++ rest.1, rest.2)

/-- The tokens of a text. -/
def lex (cs : List Char) : Option (List Token) :=
  (lexFrom .idle cs).bind fun read => (finish read.2).map fun last => read.1 ++ last

section Lexing

variable {s : LexState} {c : Char} {cs cs' whole : List Char} {tokens tokens' : List Token}

theorem lexFrom_append (s : LexState) (cs cs' : List Char) :
    lexFrom s (cs ++ cs') = (lexFrom s cs).bind fun first =>
      (lexFrom first.2 cs').map fun rest => (first.1 ++ rest.1, rest.2) := by
  induction cs generalizing s with
  | nil =>
      show lexFrom s cs' = (lexFrom s cs').map fun rest => ([] ++ rest.1, rest.2)
      rw [show (fun rest : List Token × LexState => ([] ++ rest.1, rest.2)) = id from rfl,
        Option.map_id, id]
  | cons c cs ih =>
      rw [List.cons_append, lexFrom, lexFrom]
      cases lexStep s c with
      | none => rfl
      | some first =>
          simp only [Option.bind_some, ih]
          cases lexFrom first.2 cs with
          | none => rfl
          | some second =>
              simp only [Option.bind_some, Option.map_some]
              cases lexFrom second.2 cs' with
              | none => rfl
              | some rest => simp only [Option.map_some, List.append_assoc]

/-- A character that is a token, or a blank. -/
theorem lex_cons (h : startToken c = some (tokens, .idle)) (cs : List Char) :
    lex (c :: cs) = (lex cs).map (tokens ++ ·) := by
  have hstep : lexStep .idle c = some (tokens, .idle) := h
  rw [lex, lex, lexFrom, hstep, Option.bind_some]
  cases lexFrom .idle cs with
  | none => rfl
  | some rest =>
      simp only [Option.map_some, Option.bind_some]
      cases finish rest.2 with
      | none => rfl
      | some last => simp only [Option.map_some, List.append_assoc]

theorem lex_space (cs : List Char) : lex (' ' :: cs) = lex cs := by
  have hcons : lex (' ' :: cs) = (lex cs).map ([] ++ ·) := lex_cons rfl cs
  rw [hcons]
  exact Option.map_id'

/-- The characters that end every token. -/
def EndsTokens (c : Char) : Prop := c = ' ' ∨ c = '(' ∨ c = ')' ∨ c = ','

theorem lexStep_of_ends (hc : EndsTokens c) (h : finish s = some tokens) :
    lexStep s c = endToken s c := by
  have hword : isWordChar c = false := by
    rcases hc with rfl | rfl | rfl | rfl <;> rfl
  have hdigit : c.isDigit = false := by
    rcases hc with rfl | rfl | rfl | rfl <;> rfl
  have hother : c ≠ '.' ∧ c ≠ '\'' ∧ c ≠ '=' := by
    rcases hc with rfl | rfl | rfl | rfl <;> decide
  cases s with
  | idle =>
      show startToken c = (startToken c).map fun next => ([] ++ next.1, next.2)
      cases startToken c with
      | none => rfl
      | some next => rfl
  | word cs => rw [lexStep, hword, if_neg Bool.false_ne_true]
  | digits whole => rw [lexStep, hdigit, if_neg Bool.false_ne_true, if_neg hother.1]
  | fraction whole cs => rw [lexStep, hdigit, if_neg Bool.false_ne_true]
  | text cs => cases h
  | quoted cs => rw [lexStep, if_neg hother.2.1]
  | less => rw [lexStep, if_neg hother.2.2]
  | greater => rw [lexStep, if_neg hother.2.2]

/-- **Texts are put together** where a character ends every token. -/
theorem lex_append (h : lex cs = some tokens) (hc : EndsTokens c)
    (h' : lex (c :: cs') = some tokens') : lex (cs ++ c :: cs') = some (tokens ++ tokens') := by
  obtain ⟨⟨front, s⟩, hfront, hlast⟩ := Option.bind_eq_some_iff.mp h
  obtain ⟨last, hfinish, rfl⟩ := Option.map_eq_some_iff.mp hlast
  obtain ⟨⟨back, s'⟩, hback, hlast'⟩ := Option.bind_eq_some_iff.mp h'
  obtain ⟨last', hfinish', rfl⟩ := Option.map_eq_some_iff.mp hlast'
  obtain ⟨first, hstart, hmap⟩ := Option.bind_eq_some_iff.mp hback
  obtain ⟨rest, hrest, heq⟩ := Option.map_eq_some_iff.mp hmap
  obtain ⟨rfl, rfl⟩ := Prod.mk.inj heq
  have hstart' : startToken c = some first := hstart
  have hstep : lexStep s c = some (last ++ first.1, first.2) := by
    rw [lexStep_of_ends hc hfinish, endToken, hfinish, hstart']
    rfl
  rw [lex, lexFrom_append, hfront, Option.bind_some, lexFrom, hstep, Option.bind_some]
  simp only [hrest, Option.map_some, Option.bind_some, hfinish', List.append_assoc]

/-- With a word, a space before and one behind it, between them. -/
theorem lex_between {word : List Char} {token : Token} (h : lex cs = some tokens)
    (hword : lex word = some [token]) (h' : lex cs' = some tokens') :
    lex (cs ++ (' ' :: (word ++ ' ' :: cs'))) = some (tokens ++ token :: tokens') := by
  have hspace : EndsTokens ' ' := .inl rfl
  have hmiddle := lex_append hword hspace ((lex_space cs').trans h')
  exact lex_append h hspace ((lex_space _).trans hmiddle)

/-! ### Tokens of several characters -/

/-- Characters that only go on with a token are added to it. -/
theorem lexFrom_run {state : List Char → LexState} {goesOn : Char → Prop}
    (hstep : ∀ read c, goesOn c → lexStep (state read) c = some ([], state (read ++ [c])))
    (hcs : ∀ c ∈ cs, goesOn c) (read : List Char) :
    lexFrom (state read) cs = some ([], state (read ++ cs)) := by
  induction cs generalizing read with
  | nil => rw [lexFrom, List.append_nil]
  | cons c cs ih =>
      obtain ⟨hc, hcs⟩ := List.forall_mem_cons.mp hcs
      rw [lexFrom, hstep read c hc, Option.bind_some, ih hcs]
      simp only [Option.map_some, List.append_assoc, List.cons_append, List.nil_append]

theorem lexFrom_word (hcs : ∀ c ∈ cs, isWordChar c = true) (read : List Char) :
    lexFrom (.word read) cs = some ([], .word (read ++ cs)) :=
  lexFrom_run (fun _ _ hc => by rw [lexStep, if_pos hc]) hcs read

theorem lexFrom_digits (hcs : ∀ c ∈ cs, c.isDigit = true) (read : List Char) :
    lexFrom (.digits read) cs = some ([], .digits (read ++ cs)) :=
  lexFrom_run (fun _ _ hc => by rw [lexStep, if_pos hc]) hcs read

/-- A name of a column that needs no quotes, in ASCII. -/
def IsColumnName : List Char → Prop
  | [] => False
  | c :: rest => isWordChar c = true ∧ c.isDigit = false ∧ (∀ d ∈ rest, isWordChar d = true)
      ∧ wordToken (c :: rest) = some (.name (c :: rest))

instance : DecidablePred IsColumnName
  | [] => inferInstanceAs (Decidable False)
  | _ :: rest =>
      -- decided along the name, not over all characters there are
      haveI : Decidable (∀ d ∈ rest, isWordChar d = true) := List.decidableBAll _ rest
      inferInstanceAs (Decidable (_ ∧ _ ∧ _ ∧ _))

theorem lex_name (h : IsColumnName cs) : lex cs = some [.name cs] := by
  obtain ⟨c, rest, rfl⟩ : ∃ c rest, cs = c :: rest :=
    List.exists_cons_of_ne_nil fun hnil => by rw [hnil] at h; exact h
  obtain ⟨hword, hdigit, hrest, htoken⟩ := h
  have hstart : startToken c = some ([], .word [c]) := by
    have hne : ∀ d, isWordChar d = false → c ≠ d := by
      rintro d hd rfl
      rw [hd] at hword
      cases hword
    rw [startToken, if_neg (hne ' ' rfl), if_neg (hne '(' rfl), if_neg (hne ')' rfl),
      if_neg (hne ',' rfl), if_neg (hne '-' rfl), if_neg (hne '=' rfl), if_neg (hne '<' rfl),
      if_neg (hne '>' rfl), if_neg (hne '\'' rfl), hdigit, if_neg Bool.false_ne_true, if_pos hword]
  have hstep : lexStep .idle c = some ([], .word [c]) := hstart
  rw [lex, lexFrom, hstep, Option.bind_some, lexFrom_word hrest]
  simp only [Option.map_some, Option.bind_some, finish, List.cons_append, List.nil_append, htoken]

theorem lex_digits (hne : cs ≠ []) (hcs : ∀ c ∈ cs, c.isDigit = true) :
    lex cs = some [.number (decimal cs [])] := by
  obtain ⟨c, rest, rfl⟩ := List.exists_cons_of_ne_nil hne
  obtain ⟨hc, hrest⟩ := List.forall_mem_cons.mp hcs
  have hstart : startToken c = some ([], .digits [c]) := by
    have hdigit : ∀ d, d.isDigit = false → c ≠ d := by
      rintro d hd rfl
      rw [hd] at hc
      cases hc
    rw [startToken, if_neg (hdigit ' ' rfl), if_neg (hdigit '(' rfl), if_neg (hdigit ')' rfl),
      if_neg (hdigit ',' rfl), if_neg (hdigit '-' rfl), if_neg (hdigit '=' rfl),
      if_neg (hdigit '<' rfl), if_neg (hdigit '>' rfl), if_neg (hdigit '\'' rfl), if_pos hc]
  have hstep : lexStep .idle c = some ([], .digits [c]) := hstart
  rw [lex, lexFrom, hstep, Option.bind_some, lexFrom_digits hrest]
  rfl

/-- A quote within a text is written twice. -/
def doubleQuotes (cs : List Char) : List Char :=
  cs.flatMap fun c => if c = '\'' then ['\'', '\''] else [c]

theorem lexFrom_text (cs read : List Char) :
    lexFrom (.text read) (doubleQuotes cs) = some ([], .text (read ++ cs)) := by
  induction cs generalizing read with
  | nil =>
      rw [List.append_nil]
      rfl
  | cons c cs ih =>
      have hnext := ih (read ++ [c])
      rw [List.append_assoc, List.singleton_append] at hnext
      rw [doubleQuotes, List.flatMap_cons, ← doubleQuotes]
      by_cases hc : c = '\''
      · subst hc
        rw [if_pos rfl, List.cons_append, List.cons_append, List.nil_append, lexFrom, lexStep,
          if_pos rfl, Option.bind_some, lexFrom, lexStep, if_pos rfl, Option.bind_some, hnext]
        rfl
      · rw [if_neg hc, List.cons_append, List.nil_append, lexFrom, lexStep, if_neg hc,
          Option.bind_some, hnext]
        rfl

/-- **A text comes back** from between its quotes. -/
theorem lex_text (cs : List Char) :
    lex ('\'' :: (doubleQuotes cs ++ ['\''])) = some [.text cs] := by
  have hstep : lexStep .idle '\'' = some ([], .text []) := rfl
  rw [lex, lexFrom, hstep, Option.bind_some, lexFrom_append, lexFrom_text]
  rfl

end Lexing

/-! ### Conditions -/

/-- The value of a column or a literal. -/
inductive SqlValue
  | number (value : ℚ)
  | text (cs : List Char)
  deriving DecidableEq

/-- A comparison of two values.  Numbers and texts do not compare. -/
def Comparison.holds : Comparison → SqlValue → SqlValue → Bool
  | eq, a, b => a = b
  | lt, .number a, .number b => a < b
  | le, .number a, .number b => a ≤ b
  | gt, .number a, .number b => b < a
  | ge, .number a, .number b => b ≤ a
  | lt, .text a, .text b => a < b
  | le, .text a, .text b => a ≤ b
  | gt, .text a, .text b => b < a
  | ge, .text a, .text b => b ≤ a
  | _, _, _ => false

/-- A row: the value of each column. -/
abbrev Row := List Char → SqlValue

inductive Condition
  | compare (name : List Char) (comparison : Comparison) (value : SqlValue)
  | isIn (name : List Char) (values : List SqlValue)
  | not (condition : Condition)
  | connect (connective : Connective) (left right : Condition)

/-- What a connective makes of two truth values. -/
def Connective.eval : Connective → Bool → Bool → Bool
  | and => Bool.and
  | or => Bool.or

namespace Condition

def eval (row : Row) : Condition → Bool
  | compare name comparison value => comparison.holds (row name) value
  | isIn name values => values.any fun value => Comparison.eq.holds (row name) value
  | not condition => !condition.eval row
  | connect connective left right => connective.eval (left.eval row) (right.eval row)

/-- Conditions joined by a connective. -/
def chain (connective : Connective) (first : Condition) : List Condition → Condition
  | [] => first
  | second :: rest => connect connective first (chain connective second rest)

theorem eval_chain_and (row : Row) (first : Condition) (rest : List Condition) :
    (chain .and first rest).eval row = (first :: rest).all (·.eval row) := by
  induction rest generalizing first with
  | nil => simp [chain]
  | cons second rest ih =>
      rw [chain, eval, ih, List.all_cons]
      rfl

theorem eval_chain_or (row : Row) (first : Condition) (rest : List Condition) :
    (chain .or first rest).eval row = (first :: rest).any (·.eval row) := by
  induction rest generalizing first with
  | nil => simp [chain]
  | cons second rest ih =>
      rw [chain, eval, ih, List.any_cons]
      rfl

end Condition

/-! ### The parser -/

/-- A literal. -/
def parseValue : List Token → Option (SqlValue × List Token)
  | .number value :: tokens => some (.number value, tokens)
  | .minus :: .number value :: tokens => some (.number (-value), tokens)
  | .text cs :: tokens => some (.text cs, tokens)
  | _ => none

/-- Literals up to the closing parenthesis. -/
def parseValues : Nat → List Token → Option (List SqlValue × List Token)
  | 0, _ => none
  | n + 1, tokens =>
      match parseValue tokens with
      | some (value, .comma :: rest) =>
          (parseValues n rest).map fun read => (value :: read.1, read.2)
      | some (value, .closing :: rest) => some ([value], rest)
      | _ => none

/-- A comparison, or a test against a list. -/
def parseComparison : List Token → Option (Condition × List Token)
  | .name cs :: .compare comparison :: tokens =>
      (parseValue tokens).map fun read => (.compare cs comparison read.1, read.2)
  | .name cs :: .isIn :: .opening :: tokens =>
      (parseValues tokens.length tokens).map fun read => (.isIn cs read.1, read.2)
  | _ => none

/-- Parsers of some kind of condition. -/
abbrev Parser := List Token → Option (Condition × List Token)

/-- Operands with a connective between them. -/
def parseChainUpTo (connective : Connective) (operand : Parser) : Nat → Parser
  | 0, _ => none
  | n + 1, tokens =>
      match operand tokens with
      | some (left, .connective c :: rest) =>
          if c = connective then
            (parseChainUpTo connective operand n rest).map fun read =>
              (.connect connective left read.1, read.2)
          else some (left, .connective c :: rest)
      | other => other

def parseChain (connective : Connective) (operand : Parser) : Parser := fun tokens =>
  parseChainUpTo connective operand (tokens.length + 1) tokens

/-- `AND` binds more than `OR`. -/
def parseJunction (operand : Parser) : Parser := parseChain .or (parseChain .and operand)

/-- `NOT` binds more than both, and less than a comparison. -/
def parseOperand : Nat → Parser
  | 0, _ => none
  | n + 1, .not :: tokens => (parseOperand n tokens).map fun read => (.not read.1, read.2)
  | n + 1, .opening :: tokens =>
      match parseJunction (parseOperand n) tokens with
      | some (condition, .closing :: rest) => some (condition, rest)
      | _ => none
  | _ + 1, tokens => parseComparison tokens

/-- All tokens are one condition. -/
def parseTokens (tokens : List Token) : Option Condition :=
  match parseJunction (parseOperand tokens.length) tokens with
  | some (condition, []) => some condition
  | _ => none

/-- **A text as a condition.** -/
def parse (cs : List Char) : Option Condition := (lex cs).bind parseTokens

section Parsing

variable {operand : Parser} {stop : List Connective} {connective : Connective}
  {tokens : List Token} {condition : Condition}

/-- The tokens are parsed to the condition, where none of the connectives follows. -/
def ParsesBy (operand : Parser) (stop : List Connective) (tokens : List Token)
    (condition : Condition) : Prop :=
  ∀ rest, (∀ c ∈ stop, rest.head? ≠ some (.connective c)) →
    operand (tokens ++ rest) = some (condition, rest)

/-- Tokens with a connective between them. -/
def joinTokens (connective : Connective) (first : List Token) : List (List Token) → List Token
  | [] => first
  | second :: rest => first ++ .connective connective :: joinTokens connective second rest

/-- Operands with their tokens. -/
abbrev Operand := List Token × Condition

theorem parsesBy_chainUpTo (hstop : connective ∉ stop) (first : Operand) (rest : List Operand)
    (hall : ∀ o ∈ first :: rest, ParsesBy operand stop o.1 o.2) {n : Nat} (hn : rest.length < n) :
    ParsesBy (parseChainUpTo connective operand n) (connective :: stop)
      (joinTokens connective first.1 (rest.map Prod.fst))
      (Condition.chain connective first.2 (rest.map Prod.snd)) := by
  induction rest generalizing first n with
  | nil =>
      obtain ⟨n, rfl⟩ := Nat.exists_eq_succ_of_ne_zero hn.ne'
      intro after hafter
      obtain ⟨hfirst, hstop'⟩ := List.forall_mem_cons.mp hafter
      have hread := hall first List.mem_cons_self after hstop'
      show parseChainUpTo connective operand (n + 1) (first.1 ++ after) = some (first.2, after)
      rw [parseChainUpTo, hread]
      split
      · rename_i left c rest heq
        obtain ⟨rfl, rfl⟩ := Prod.mk.inj (Option.some.inj heq)
        rw [if_neg]
        rintro rfl
        exact hfirst rfl
      · rfl
  | cons second rest ih =>
      obtain ⟨n, rfl⟩ := Nat.exists_eq_succ_of_ne_zero (Nat.zero_lt_of_lt hn).ne'
      intro after hafter
      obtain ⟨hfirst, hothers⟩ := List.forall_mem_cons.mp hall
      have hsecond := ih second hothers (Nat.lt_of_succ_lt_succ hn) after hafter
      have hread := hfirst (.connective connective
        :: (joinTokens connective second.1 (rest.map Prod.fst) ++ after)) (by
          intro c hc heq
          have hsame : connective = c := by simpa using heq
          exact hstop (hsame ▸ hc))
      show parseChainUpTo connective operand (n + 1)
        (first.1 ++ .connective connective :: joinTokens connective second.1 (rest.map Prod.fst)
          ++ after) = _
      rw [List.append_assoc, List.cons_append, parseChainUpTo, hread]
      simp only [if_true, hsecond, Option.map_some]
      rfl

theorem length_le_joinTokens (connective : Connective) (first : List Token)
    (rest : List (List Token)) : rest.length ≤ (joinTokens connective first rest).length := by
  induction rest generalizing first with
  | nil => exact Nat.zero_le _
  | cons second rest ih =>
      have hrest := ih second
      rw [joinTokens, List.length_append, List.length_cons, List.length_cons]
      omega

/-- **Operands with a connective between them** are parsed to the chain of them. -/
theorem parsesBy_chain (hstop : connective ∉ stop) (first : Operand) (rest : List Operand)
    (hall : ∀ o ∈ first :: rest, ParsesBy operand stop o.1 o.2) :
    ParsesBy (parseChain connective operand) (connective :: stop)
      (joinTokens connective first.1 (rest.map Prod.fst))
      (Condition.chain connective first.2 (rest.map Prod.snd)) := by
  intro after hafter
  have hlength := length_le_joinTokens connective first.1 (rest.map Prod.fst)
  rw [List.length_map] at hlength
  exact parsesBy_chainUpTo hstop first rest hall (by rw [List.length_append]; omega) after hafter

/-- The tokens are an operand of `NOT`, `AND` or `OR`. -/
def IsOperand (tokens : List Token) (condition : Condition) : Prop :=
  ∀ n, tokens.length ≤ n → ParsesBy (parseOperand n) [] tokens condition

/-- The tokens are operands with `AND` between them. -/
def IsConjunction (tokens : List Token) (condition : Condition) : Prop :=
  ∀ n, tokens.length ≤ n → ParsesBy (parseChain .and (parseOperand n)) [.and] tokens condition

/-- The tokens are a whole condition. -/
def IsCondition (tokens : List Token) (condition : Condition) : Prop :=
  ∀ n, tokens.length ≤ n → ParsesBy (parseJunction (parseOperand n)) [.or, .and] tokens condition

theorem length_mem_joinTokens {connective : Connective} {first : List Token}
    {rest : List (List Token)} :
    ∀ tokens ∈ first :: rest, tokens.length ≤ (joinTokens connective first rest).length := by
  induction rest generalizing first with
  | nil => exact fun tokens htokens => (List.mem_singleton.mp htokens) ▸ Nat.le_refl _
  | cons second rest ih =>
      intro tokens htokens
      rw [joinTokens, List.length_append, List.length_cons]
      rcases List.mem_cons.mp htokens with rfl | hlater
      · omega
      · have hle := ih tokens hlater
        omega

theorem isConjunction_join {first : Operand} {rest : List Operand}
    (hall : ∀ o ∈ first :: rest, IsOperand o.1 o.2) :
    IsConjunction (joinTokens .and first.1 (rest.map Prod.fst))
      (Condition.chain .and first.2 (rest.map Prod.snd)) := by
  intro n hn
  refine parsesBy_chain (List.not_mem_nil) first rest fun o ho => hall o ho n ?_
  have hmem : o.1 ∈ first.1 :: rest.map Prod.fst := List.mem_map_of_mem (f := Prod.fst) ho
  exact (length_mem_joinTokens o.1 hmem).trans hn

theorem isCondition_join {first : Operand} {rest : List Operand}
    (hall : ∀ o ∈ first :: rest, IsConjunction o.1 o.2) :
    IsCondition (joinTokens .or first.1 (rest.map Prod.fst))
      (Condition.chain .or first.2 (rest.map Prod.snd)) := by
  intro n hn
  refine parsesBy_chain (by decide) first rest fun o ho => hall o ho n ?_
  have hmem : o.1 ∈ first.1 :: rest.map Prod.fst := List.mem_map_of_mem (f := Prod.fst) ho
  exact (length_mem_joinTokens o.1 hmem).trans hn

theorem IsConjunction.isCondition (h : IsConjunction tokens condition) :
    IsCondition tokens condition :=
  @isCondition_join (tokens, condition) [] (List.forall_mem_singleton.mpr h)

theorem IsOperand.not (h : IsOperand tokens condition) :
    IsOperand (.not :: tokens) (.not condition) := by
  intro n hn after hafter
  obtain ⟨n, rfl⟩ := Nat.exists_eq_succ_of_ne_zero (Nat.zero_lt_of_lt hn).ne'
  rw [List.cons_append, parseOperand, h n (Nat.le_of_succ_le_succ hn) after hafter]
  rfl

/-- A condition in parentheses is an operand. -/
theorem IsCondition.parenthesized (h : IsCondition tokens condition) :
    IsOperand (.opening :: (tokens ++ [.closing])) condition := by
  intro n hn after _
  obtain ⟨n, rfl⟩ := Nat.exists_eq_succ_of_ne_zero (Nat.zero_lt_of_lt hn).ne'
  rw [List.length_cons, List.length_append] at hn
  have hread := h n (by omega) (.closing :: after) (by
    intro c _ heq
    cases heq)
  rw [List.cons_append, List.append_assoc, List.singleton_append, parseOperand, hread]

/-- The tokens are a literal. -/
def IsValue (tokens : List Token) (value : SqlValue) : Prop :=
  ∀ rest, parseValue (tokens ++ rest) = some (value, rest)

theorem isOperand_compare {name : List Char} {comparison : Comparison} {value : SqlValue}
    (h : IsValue tokens value) :
    IsOperand (.name name :: .compare comparison :: tokens) (.compare name comparison value) := by
  intro n hn after _
  obtain ⟨n, rfl⟩ := Nat.exists_eq_succ_of_ne_zero (Nat.zero_lt_of_lt hn).ne'
  rw [List.cons_append, List.cons_append, parseOperand, parseComparison, h after]
  · rfl
  · nofun
  · nofun

/-- Literals with a comma between them. -/
def joinCommas (first : List Token) : List (List Token) → List Token
  | [] => first
  | second :: rest => first ++ .comma :: joinCommas second rest

theorem parseValues_join (first : List Token × SqlValue) (rest : List (List Token × SqlValue))
    (hall : ∀ v ∈ first :: rest, IsValue v.1 v.2) (after : List Token) {n : Nat}
    (hn : rest.length < n) :
    parseValues n (joinCommas first.1 (rest.map Prod.fst) ++ .closing :: after)
      = some (first.2 :: rest.map Prod.snd, after) := by
  induction rest generalizing first n with
  | nil =>
      obtain ⟨n, rfl⟩ := Nat.exists_eq_succ_of_ne_zero hn.ne'
      have hread := hall first List.mem_cons_self (.closing :: after)
      show parseValues (n + 1) (first.1 ++ .closing :: after) = some ([first.2], after)
      rw [parseValues, hread]
  | cons second rest ih =>
      obtain ⟨n, rfl⟩ := Nat.exists_eq_succ_of_ne_zero (Nat.zero_lt_of_lt hn).ne'
      obtain ⟨hfirst, hothers⟩ := List.forall_mem_cons.mp hall
      have hsecond := ih second hothers (Nat.lt_of_succ_lt_succ hn)
      rw [List.map_cons, joinCommas, List.append_assoc, List.cons_append, parseValues, hfirst]
      simp only [hsecond, Option.map_some]
      rfl

theorem length_le_joinCommas (first : List Token) (rest : List (List Token)) :
    rest.length ≤ (joinCommas first rest).length := by
  induction rest generalizing first with
  | nil => exact Nat.zero_le _
  | cons second rest ih =>
      have hrest := ih second
      rw [joinCommas, List.length_append, List.length_cons, List.length_cons]
      omega

theorem isOperand_isIn {name : List Char} {first : List Token × SqlValue}
    {rest : List (List Token × SqlValue)} (hall : ∀ v ∈ first :: rest, IsValue v.1 v.2) :
    IsOperand
      (.name name :: .isIn :: .opening :: (joinCommas first.1 (rest.map Prod.fst) ++ [.closing]))
      (.isIn name (first.2 :: rest.map Prod.snd)) := by
  intro n hn after _
  obtain ⟨n, rfl⟩ := Nat.exists_eq_succ_of_ne_zero (Nat.zero_lt_of_lt hn).ne'
  have hlength := length_le_joinCommas first.1 (rest.map Prod.fst)
  rw [List.length_map] at hlength
  have hread := parseValues_join first rest hall after
    (n := (joinCommas first.1 (rest.map Prod.fst) ++ .closing :: after).length)
    (by rw [List.length_append, List.length_cons]; omega)
  rw [List.cons_append, List.cons_append, List.cons_append, List.append_assoc,
    List.singleton_append, parseOperand, parseComparison, hread]
  · rfl
  · nofun
  · nofun

/-- **A text that lexes to a condition** is parsed to it. -/
theorem parse_of_isCondition {cs : List Char} (hlex : lex cs = some tokens)
    (h : IsCondition tokens condition) : parse cs = some condition := by
  have hread := h tokens.length (Nat.le_refl _) [] (by
    intro c _ heq
    cases heq)
  rw [List.append_nil] at hread
  rw [parse, hlex, Option.bind_some, parseTokens, hread]

end Parsing

/-! ### Texts of conditions -/

/-- The text is operands with `AND` between them, which are these conditions of a row. -/
def ReadsAs (cs : List Char) (values : List (Row → Bool)) : Prop :=
  ∃ (first : Operand) (rest : List Operand),
    lex cs = some (joinTokens .and first.1 (rest.map Prod.fst))
      ∧ (∀ o ∈ first :: rest, IsOperand o.1 o.2)
      ∧ (first :: rest).map (fun o row => o.2.eval row) = values

/-- `NOT` before operands negates the first one. -/
def negateFirst : List (Row → Bool) → List (Row → Bool)
  | [] => []
  | value :: values => (fun row => !value row) :: values

/-- A connective as a text between its operands. -/
def Connective.word : Connective → List Char
  | and => " AND ".toList
  | or => " OR ".toList

/-- What a connective makes of any number of truth values. -/
def Connective.evalAll : Connective → List Bool → Bool
  | and, bs => bs.all id
  | or, bs => bs.any id

/-- The text of a literal. -/
def Denotes (cs : List Char) (value : SqlValue) : Prop :=
  ∃ tokens, lex cs = some tokens ∧ IsValue tokens value

/-- An integer in decimal notation. -/
def decimalText : Int → List Char
  | .ofNat n => Nat.toDigits 10 n
  | .negSucc n => '-' :: Nat.toDigits 10 (n + 1)

section Texts

variable {cs cs' name word : List Char} {tokens : List Token} {condition : Condition}
  {values values' : List (Row → Bool)} {texts : List (List Char)}

theorem joinTokens_append (connective : Connective) (first second : List Token)
    (rest rest' : List (List Token)) :
    joinTokens connective first (rest ++ second :: rest')
      = joinTokens connective first rest
        ++ .connective connective :: joinTokens connective second rest' := by
  induction rest generalizing first with
  | nil => rfl
  | cons third rest ih =>
      rw [List.cons_append, joinTokens, joinTokens, ih, List.append_assoc, List.cons_append]

theorem joinTokens_cons (connective : Connective) (token : Token) (first : List Token)
    (rest : List (List Token)) :
    joinTokens connective (token :: first) rest = token :: joinTokens connective first rest := by
  cases rest with
  | nil => rfl
  | cons second rest => rfl

theorem ReadsAs.of_operand (hlex : lex cs = some tokens) (h : IsOperand tokens condition) :
    ReadsAs cs [fun row => condition.eval row] :=
  ⟨(tokens, condition), [], hlex, List.forall_mem_singleton.mpr h, rfl⟩

theorem ReadsAs.congr {value value' : Row → Bool} (h : ReadsAs cs [value])
    (hsame : ∀ row, value row = value' row) : ReadsAs cs [value'] := by
  obtain rfl : value = value' := funext hsame
  exact h

theorem ReadsAs.and (h : ReadsAs cs values) (h' : ReadsAs cs' values') :
    ReadsAs (cs ++ " AND ".toList ++ cs') (values ++ values') := by
  obtain ⟨first, rest, hlex, hall, rfl⟩ := h
  obtain ⟨second, rest', hlex', hall', rfl⟩ := h'
  refine ⟨first, rest ++ second :: rest', ?_, ?_, ?_⟩
  · have hword : lex ['A', 'N', 'D'] = some [.connective .and] := rfl
    have hboth := lex_between hlex hword hlex'
    rw [List.append_assoc, List.map_append, List.map_cons, joinTokens_append]
    exact hboth
  · intro o ho
    rw [← List.cons_append] at ho
    exact (List.mem_append.mp ho).elim (hall o) (hall' o)
  · rw [← List.cons_append, List.map_append]

theorem ReadsAs.not (h : ReadsAs cs values) :
    ReadsAs ("NOT ".toList ++ cs) (negateFirst values) := by
  obtain ⟨first, rest, hlex, hall, rfl⟩ := h
  obtain ⟨hfirst, hrest⟩ := List.forall_mem_cons.mp hall
  refine ⟨(.not :: first.1, .not first.2), rest, ?_,
    List.forall_mem_cons.mpr ⟨hfirst.not, hrest⟩, rfl⟩
  have hword : lex ['N', 'O', 'T'] = some [.not] := rfl
  rw [joinTokens_cons]
  exact lex_append hword (.inl rfl) ((lex_space cs).trans hlex)

/-- The text is a conjunction, and so a whole condition. -/
theorem ReadsAs.isConjunction (h : ReadsAs cs values) :
    ∃ tokens condition, lex cs = some tokens ∧ IsConjunction tokens condition
      ∧ ∀ row, condition.eval row = values.all (· row) := by
  obtain ⟨first, rest, hlex, hall, rfl⟩ := h
  refine ⟨_, _, hlex, isConjunction_join hall, fun row => ?_⟩
  rw [Condition.eval_chain_and, ← List.map_cons, List.all_map, List.all_map]
  rfl

/-- **A text that reads as operands** is parsed to a condition that is all of them. -/
theorem ReadsAs.parse (h : ReadsAs cs values) (row : Row) :
    (parse cs).map (·.eval row) = some (values.all (· row)) := by
  obtain ⟨tokens, condition, hlex, hconjunction, heval⟩ := h.isConjunction
  rw [parse_of_isCondition hlex hconjunction.isCondition, Option.map_some, heval]

theorem lex_parentheses (h : lex cs = some tokens) :
    lex ('(' :: (cs ++ [')'])) = some (.opening :: (tokens ++ [.closing])) := by
  have hclosing : lex [')'] = some [.closing] := rfl
  have hinner := lex_append h (.inr (.inr (.inl rfl))) hclosing
  rw [show lex ('(' :: (cs ++ [')'])) = (lex (cs ++ [')'])).map ([.opening] ++ ·) from
    lex_cons rfl _, hinner]
  rfl

/-- In parentheses, a condition is one operand. -/
theorem readsAs_parenthesized {value : Row → Bool} (hlex : lex cs = some tokens)
    (h : IsCondition tokens condition) (heval : ∀ row, condition.eval row = value row) :
    ReadsAs ('(' :: (cs ++ [')'])) [value] := by
  exact (ReadsAs.of_operand (lex_parentheses hlex) h.parenthesized).congr heval

/-- Texts with `AND` between them are all their operands. -/
theorem readsAs_and {values : List (List (Row → Bool))} (hne : texts ≠ [])
    (h : List.Forall₂ ReadsAs texts values) :
    ReadsAs (" AND ".toList.intercalate texts) values.flatten := by
  induction h with
  | nil => exact absurd rfl hne
  | cons hfirst hrest ih =>
      cases hrest with
      | nil =>
          rw [List.intercalate_singleton, List.flatten_singleton]
          exact hfirst
      | cons hsecond hrest =>
          rw [List.intercalate_cons_cons, List.flatten_cons]
          exact hfirst.and (ih (List.cons_ne_nil _ _))

/-- Texts with `OR` between them, as the conjunctions that they are. -/
theorem exists_lex_or {values : List (List (Row → Bool))} (hne : texts ≠ [])
    (h : List.Forall₂ ReadsAs texts values) :
    ∃ (first : Operand) (rest : List Operand),
      lex (" OR ".toList.intercalate texts) = some (joinTokens .or first.1 (rest.map Prod.fst))
        ∧ (∀ o ∈ first :: rest, IsConjunction o.1 o.2)
        ∧ ∀ row, (first :: rest).map (·.2.eval row) = values.map fun vs => vs.all (· row) := by
  induction h with
  | nil => exact absurd rfl hne
  | cons hfirst hrest ih =>
      obtain ⟨tokens, condition, hlex, hconjunction, heval⟩ := hfirst.isConjunction
      cases hrest with
      | nil =>
          refine ⟨(tokens, condition), [], ?_, List.forall_mem_singleton.mpr hconjunction,
            fun row => ?_⟩
          · rw [List.intercalate_singleton, hlex]
            rfl
          · rw [List.map_singleton, List.map_singleton, heval]
      | cons hsecond hrest =>
          obtain ⟨second, rest, hlex', hall, heval'⟩ := ih (List.cons_ne_nil _ _)
          refine ⟨(tokens, condition), second :: rest, ?_,
            List.forall_mem_cons.mpr ⟨hconjunction, hall⟩, fun row => ?_⟩
          · have hword : lex ['O', 'R'] = some [.connective .or] := rfl
            rw [List.intercalate_cons_cons, List.append_assoc]
            exact lex_between hlex hword hlex'
          · rw [List.map_cons, heval', heval]
            rfl

/-- **Several texts in parentheses** with a connective between them are one operand. -/
theorem readsAs_group {values : List (List (Row → Bool))} (connective : Connective)
    (hne : texts ≠ []) (h : List.Forall₂ ReadsAs texts values) :
    ReadsAs ('(' :: (connective.word.intercalate texts ++ [')']))
      [fun row => connective.evalAll (values.map fun vs => vs.all (· row))] := by
  cases connective with
  | and =>
      obtain ⟨tokens, condition, hlex, hconjunction, heval⟩ := (readsAs_and hne h).isConjunction
      refine readsAs_parenthesized hlex hconjunction.isCondition fun row => ?_
      rw [heval, Connective.evalAll, List.all_map, List.all_flatten]
      rfl
  | or =>
      obtain ⟨first, rest, hlex, hconjunctions, heval⟩ := exists_lex_or hne h
      refine readsAs_parenthesized hlex (isCondition_join hconjunctions) fun row => ?_
      rw [Condition.eval_chain_or, ← List.map_cons, Connective.evalAll, ← heval row, List.any_map,
        List.any_map]
      rfl

/-! ### Literals and comparisons -/

theorem denotes_decimalText (n : Int) : Denotes (decimalText n) (.number n) := by
  have hdigits : ∀ n : Nat, lex (Nat.toDigits 10 n) = some [.number n] := by
    intro n
    rw [lex_digits Nat.toDigits_ne_nil fun c hc =>
      Nat.isDigit_of_mem_toDigits (by decide) (by decide) hc]
    rw [decimal, List.append_nil, Nat.ofDigitChars_ten_toDigits, List.length_nil, pow_zero, div_one]
  cases n with
  | ofNat n => exact ⟨_, hdigits n, fun rest => rfl⟩
  | negSucc n =>
      refine ⟨[.minus, .number ((n + 1 : Nat) : ℚ)], ?_, fun rest => ?_⟩
      · rw [decimalText, show ∀ cs, lex ('-' :: cs) = (lex cs).map ([.minus] ++ ·) from
          lex_cons rfl, hdigits]
        rfl
      · rw [Int.cast_negSucc]
        rfl

theorem denotes_text (cs : List Char) : Denotes ('\'' :: (doubleQuotes cs ++ ['\''])) (.text cs) :=
  ⟨_, lex_text cs, fun _ => rfl⟩

theorem readsAs_compare {comparison : Comparison} {value : SqlValue} (hname : IsColumnName name)
    (hword : lex word = some [.compare comparison]) (h : Denotes cs value) :
    ReadsAs (name ++ ' ' :: (word ++ ' ' :: cs))
      [fun row => comparison.holds (row name) value] := by
  obtain ⟨tokens, hlex, hvalue⟩ := h
  exact ReadsAs.of_operand (lex_between (lex_name hname) hword hlex) (isOperand_compare hvalue)

theorem lex_comma (h : lex cs = some tokens) : lex (", ".toList ++ cs) = some (.comma :: tokens) := by
  show lex (',' :: ' ' :: cs) = some (.comma :: tokens)
  have hcomma : lex (',' :: ' ' :: cs) = (lex (' ' :: cs)).map ([.comma] ++ ·) := lex_cons rfl _
  rw [hcomma, lex_space, h]
  rfl

/-- Literals with commas between them. -/
theorem exists_lex_commas {values : List SqlValue} (hne : texts ≠ [])
    (h : List.Forall₂ Denotes texts values) :
    ∃ (first : List Token × SqlValue) (rest : List (List Token × SqlValue)),
      lex (", ".toList.intercalate texts) = some (joinCommas first.1 (rest.map Prod.fst))
        ∧ (∀ v ∈ first :: rest, IsValue v.1 v.2) ∧ (first :: rest).map Prod.snd = values := by
  induction h with
  | nil => exact absurd rfl hne
  | cons hfirst hrest ih =>
      obtain ⟨tokens, hlex, hvalue⟩ := hfirst
      cases hrest with
      | nil =>
          refine ⟨(tokens, _), [], ?_, List.forall_mem_singleton.mpr hvalue, rfl⟩
          rw [List.intercalate_singleton, hlex]
          rfl
      | cons hsecond hrest =>
          obtain ⟨second, rest, hlex', hall, hvalues⟩ := ih (List.cons_ne_nil _ _)
          refine ⟨(tokens, _), second :: rest, ?_, List.forall_mem_cons.mpr ⟨hvalue, hall⟩, ?_⟩
          · rw [List.intercalate_cons_cons, List.append_assoc]
            exact lex_append hlex (.inr (.inr (.inr rfl))) (lex_comma hlex')
          · rw [List.map_cons, hvalues]

theorem readsAs_isIn {values : List SqlValue} (hname : IsColumnName name) (hne : texts ≠ [])
    (h : List.Forall₂ Denotes texts values) :
    ReadsAs (name ++ " IN (".toList ++ ", ".toList.intercalate texts ++ [')'])
      [fun row => values.any fun value => Comparison.eq.holds (row name) value] := by
  obtain ⟨first, rest, hlex, hall, rfl⟩ := exists_lex_commas hne h
  have hword : lex ['I', 'N'] = some [.isIn] := rfl
  have htokens := lex_between (lex_name hname) hword (lex_parentheses hlex)
  rw [List.append_assoc, List.append_assoc]
  exact ReadsAs.of_operand htokens (isOperand_isIn hall)

end Texts

end SqlConditions
