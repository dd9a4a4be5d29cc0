/-
Instinct/SqlBuilder.lean

`SQLBuilder`: the condition behind `WHERE` that a search query becomes.

`build_bool_query` puts parentheses around several members of one list, and none
around a single one or around the whole query.  So a text is operands with `AND`
between them (`readsAs_buildSearchQuery`), and a `NOT` before it negates the first
operand only.  `build_term_value` asks a `long` for its `double_value()`.

Where every member of a `mustNot` list is one operand and every `long` is zero, the
text means what the query does (`eval_buildSearchQuery`).
-/
import Instinct.SqlConditions
import Mathlib.Data.List.Forall2

namespace Instinct.SqlBuilder

open SqlConditions

/-! ### The model -/

/-- The values within the claims: no `double`, `float` or bytes, and no `is_null`. -/
inductive PrimitiveValue
  | intValue (value : Int32)
  | longValue (value : Int64)
  | boolValue (value : Bool)
  | stringValue (value : List Char)
  deriving DecidableEq

structure IntRangeQuery where
  name : List Char
  from_ : Option Int64
  to_ : Option Int64
  inclusiveStart : Bool
  inclusiveEnd : Bool
  deriving DecidableEq

/-- The queries within the claims: no `double_range`. -/
inductive SearchQuery
  | bool (must should mustNot : List SearchQuery)
  | term (name : List Char) (term : PrimitiveValue)
  | terms (name : List Char) (terms : List PrimitiveValue)
  | intRange (range : IntRangeQuery)

/-- `StringUtils::JoinWith`. -/
def joinWith (parts : List (List Char)) (sep : List Char) : List Char := sep.intercalate parts

/-- `StringUtils::EscapeSQLText`: the map holds the double quote too, as itself. -/
def escapeSQLText (s : List Char) : List Char :=
  s.flatMap fun c => if c = '\'' then ['\'', '\''] else if c = '"' then ['"'] else [c]

/-- `build_term_value`. -/
def buildTermValue : PrimitiveValue → List Char
  | .intValue value => decimalText value.toInt
  -- `std::to_string(value.double_value())`, which is zero while the value is a `long`
  | .longValue _ => "0.000000".toList
  | .boolValue value => [if value then '1' else '0']
  | .stringValue value => '\'' :: (escapeSQLText value ++ ['\''])

/-- `build_term_query`. -/
def buildTermQuery (name : List Char) (term : PrimitiveValue) : List Char :=
  name ++ " = ".toList ++ buildTermValue term

/-- `build_terms_query`. -/
def buildTermsQuery (name : List Char) (terms : List PrimitiveValue) : List Char :=
  name ++ " IN (".toList ++ joinWith (terms.map buildTermValue) ", ".toList ++ [')']

/-- `build_int_range_query`. -/
def buildIntRangeQuery (range : IntRangeQuery) : List Char :=
  let ranges :=
    (range.from_.map fun n => range.name
        ++ (if range.inclusiveStart then " >= " else " > ").toList ++ decimalText n.toInt).toList
      ++ (range.to_.map fun n => range.name
        ++ (if range.inclusiveEnd then " <= " else " < ").toList ++ decimalText n.toInt).toList
  match ranges with
  | [] => []
  | [single] => single
  | ranges => '(' :: (joinWith ranges " AND ".toList ++ [')'])

/-- The predicate of a list of members, when there are any: several stand in parentheses. -/
def buildPredicate (connective : Connective) : List (List Char) → List (List Char)
  | [] => []
  | [member] => [member]
  | members => ['(' :: (joinWith members connective.word ++ [')'])]

/-- `build_bool_query`, with the texts of the members. -/
def buildBoolQuery (must should mustNot : List (List Char)) : List Char :=
  joinWith
    (buildPredicate .and must ++ buildPredicate .or should
      ++ buildPredicate .and (mustNot.map ("NOT ".toList ++ ·)))
    " AND ".toList

mutual

/-- `build_search_query`. -/
def buildSearchQuery : SearchQuery → List Char
  | .bool must should mustNot =>
      buildBoolQuery (buildSearchQueries must) (buildSearchQueries should)
        (buildSearchQueries mustNot)
  | .term name value => buildTermQuery name value
  | .terms name values => buildTermsQuery name values
  | .intRange range => buildIntRangeQuery range

def buildSearchQueries : List SearchQuery → List (List Char)
  | [] => []
  | query :: queries => buildSearchQuery query :: buildSearchQueries queries

end

/-! ### The meaning of a query -/

/-- The value itself.  SQL compares a boolean with 1 and 0. -/
def PrimitiveValue.sqlValue : PrimitiveValue → SqlValue
  | intValue value => .number value.toInt
  | longValue value => .number value.toInt
  | boolValue value => if value then .number 1 else .number 0
  | stringValue value => .text value

/-- The column lies within the bounds. -/
def IntRangeQuery.meaning (range : IntRangeQuery) (row : Row) : Bool :=
  (range.from_.all fun n => (if range.inclusiveStart then Comparison.ge else .gt).holds
      (row range.name) (.number n.toInt))
    && range.to_.all fun n => (if range.inclusiveEnd then Comparison.le else .lt).holds
      (row range.name) (.number n.toInt)

mutual

/-- **What a query asks of a row**: all of `must`, one of `should` when there is any, none of
`mustNot`. -/
def SearchQuery.meaning (row : Row) : SearchQuery → Bool
  | .bool must should mustNot =>
      (meanings row must).all id && (should.isEmpty || (meanings row should).any id)
        && (meanings row mustNot).all (!·)
  | .term name value => Comparison.eq.holds (row name) value.sqlValue
  | .terms name values => values.any fun value => Comparison.eq.holds (row name) value.sqlValue
  | .intRange range => range.meaning row

def meanings (row : Row) : List SearchQuery → List Bool
  | [] => []
  | query :: queries => query.meaning row :: meanings row queries

end

/-! ### What the text says -/

/-- The value that the text of a value denotes. -/
def PrimitiveValue.textValue : PrimitiveValue → SqlValue
  | longValue _ => .number 0
  | value => value.sqlValue

/-- The operands of a list of members. -/
def predicateConjuncts (connective : Connective) :
    List (List (Row → Bool)) → List (List (Row → Bool))
  | [] => []
  | [member] => [member]
  | members => [[fun row => connective.evalAll (members.map fun member => member.all (· row))]]

mutual

/-- The operands that the text of a query has `AND` between. -/
def conjuncts : SearchQuery → List (Row → Bool)
  | .bool must should mustNot =>
      (predicateConjuncts .and (conjunctsOf must) ++ predicateConjuncts .or (conjunctsOf should)
        ++ predicateConjuncts .and ((conjunctsOf mustNot).map negateFirst)).flatten
  | .term name value => [fun row => Comparison.eq.holds (row name) value.textValue]
  | .terms name values =>
      [fun row => values.any fun value => Comparison.eq.holds (row name) value.textValue]
  | .intRange range => [range.meaning]

def conjunctsOf : List SearchQuery → List (List (Row → Bool))
  | [] => []
  | query :: queries => conjuncts query :: conjunctsOf queries

end

/-- How many operands a list of members adds: those of a single member, or the parentheses. -/
def predicateCount : List Nat → Nat
  | [] => 0
  | [member] => member
  | _ => 1

mutual

/-- How many operands the text of a query has `AND` between. -/
def conjunctCount : SearchQuery → Nat
  | .bool must should mustNot =>
      predicateCount (conjunctCounts must) + predicateCount (conjunctCounts should)
        + predicateCount (conjunctCounts mustNot)
  | _ => 1

def conjunctCounts : List SearchQuery → List Nat
  | [] => []
  | query :: queries => conjunctCount query :: conjunctCounts queries

end

/-! ### Conditions on a query and all queries within it -/

inductive SearchQuery.Everywhere (P : SearchQuery → Prop) : SearchQuery → Prop
  | bool {must should mustNot : List SearchQuery} (h : P (.bool must should mustNot))
      (hmust : ∀ query ∈ must, Everywhere P query)
      (hshould : ∀ query ∈ should, Everywhere P query)
      (hmustNot : ∀ query ∈ mustNot, Everywhere P query) : Everywhere P (.bool must should mustNot)
  | term {name : List Char} {value : PrimitiveValue} (h : P (.term name value)) :
      Everywhere P (.term name value)
  | terms {name : List Char} {values : List PrimitiveValue} (h : P (.terms name values)) :
      Everywhere P (.terms name values)
  | intRange {range : IntRangeQuery} (h : P (.intRange range)) : Everywhere P (.intRange range)

section Everywhere

variable {P : SearchQuery → Prop}

@[simp] theorem everywhere_bool_iff {must should mustNot : List SearchQuery} :
    (SearchQuery.bool must should mustNot).Everywhere P
      ↔ P (.bool must should mustNot) ∧ (∀ query ∈ must, query.Everywhere P)
        ∧ (∀ query ∈ should, query.Everywhere P) ∧ ∀ query ∈ mustNot, query.Everywhere P :=
  ⟨fun | .bool h hmust hshould hmustNot => ⟨h, hmust, hshould, hmustNot⟩,
    fun ⟨h, hmust, hshould, hmustNot⟩ => .bool h hmust hshould hmustNot⟩

@[simp] theorem everywhere_term_iff {name : List Char} {value : PrimitiveValue} :
    (SearchQuery.term name value).Everywhere P ↔ P (.term name value) :=
  ⟨fun | .term h => h, .term⟩

@[simp] theorem everywhere_terms_iff {name : List Char} {values : List PrimitiveValue} :
    (SearchQuery.terms name values).Everywhere P ↔ P (.terms name values) :=
  ⟨fun | .terms h => h, .terms⟩

@[simp] theorem everywhere_intRange_iff {range : IntRangeQuery} :
    (SearchQuery.intRange range).Everywhere P ↔ P (.intRange range) :=
  ⟨fun | .intRange h => h, .intRange⟩

end Everywhere

/-- A bool query has a member, and a terms query a value. -/
def SearchQuery.IsFilled : SearchQuery → Prop
  | .bool must should mustNot => must ≠ [] ∨ should ≠ [] ∨ mustNot ≠ []
  | .terms _ values => values ≠ []
  | _ => True

/-- The name of a column needs no quotes, and a range has a bound. -/
def SearchQuery.IsReadable : SearchQuery → Prop
  | .bool _ _ _ => True
  | .term name _ => IsColumnName name
  | .terms name _ => IsColumnName name
  | .intRange range => IsColumnName range.name ∧ (range.from_.isSome ∨ range.to_.isSome)

/-- The value is not a `long`, unless it is zero. -/
def PrimitiveValue.IsExact : PrimitiveValue → Prop
  | longValue value => value = 0
  | _ => True

/-- Values come out as they are, and `NOT` stands before single operands only. -/
def SearchQuery.IsExact : SearchQuery → Prop
  | .bool _ _ mustNot => ∀ query ∈ mustNot, conjunctCount query = 1
  | .term _ value => value.IsExact
  | .terms _ values => ∀ value ∈ values, value.IsExact
  | .intRange _ => True

/-! ### Values and leaves -/

section Leaves

variable {name : List Char} {terms : List PrimitiveValue} {range : IntRangeQuery}

theorem escapeSQLText_eq (s : List Char) : escapeSQLText s = doubleQuotes s := by
  refine List.flatMap_congr fun c _ => ?_
  by_cases hquote : c = '\''
  · rw [if_pos hquote, if_pos hquote]
  · rw [if_neg hquote, if_neg hquote]
    split
    · rename_i hdouble
      rw [hdouble]
    · rfl

theorem denotes_buildTermValue (value : PrimitiveValue) :
    Denotes (buildTermValue value) value.textValue := by
  cases value with
  | intValue value => exact denotes_decimalText value.toInt
  | longValue value =>
      have hzero : lex "0.000000".toList = some [.number 0] := by decide +kernel
      exact ⟨[.number 0], hzero, fun rest => rfl⟩
  | boolValue value =>
      cases value with
      | false =>
          have hzero : lex ['0'] = some [.number 0] := by decide +kernel
          exact ⟨[.number 0], hzero, fun rest => rfl⟩
      | true =>
          have hone : lex ['1'] = some [.number 1] := by decide +kernel
          exact ⟨[.number 1], hone, fun rest => rfl⟩
  | stringValue value =>
      show Denotes ('\'' :: (escapeSQLText value ++ ['\''])) (.text value)
      rw [escapeSQLText_eq]
      exact denotes_text value

theorem readsAs_buildTermQuery (hname : IsColumnName name) (term : PrimitiveValue) :
    ReadsAs (buildTermQuery name term) (conjuncts (.term name term)) := by
  have hword : lex ['='] = some [.compare .eq] := rfl
  rw [buildTermQuery, List.append_assoc]
  exact readsAs_compare hname hword (denotes_buildTermValue term)

theorem readsAs_buildTermsQuery (hname : IsColumnName name) (hne : terms ≠ []) :
    ReadsAs (buildTermsQuery name terms) (conjuncts (.terms name terms)) := by
  have hvalues : List.Forall₂ Denotes (terms.map buildTermValue) (terms.map (·.textValue)) := by
    rw [List.forall₂_map_left_iff, List.forall₂_map_right_iff, List.forall₂_same]
    exact fun term _ => denotes_buildTermValue term
  have hreads := readsAs_isIn hname (mt List.map_eq_nil_iff.mp hne) hvalues
  simp only [List.any_map] at hreads
  exact hreads

/-- A bound of a range. -/
theorem readsAs_bound {word : List Char} {comparison : Comparison} (hname : IsColumnName name)
    (hword : lex word = some [.compare comparison]) (n : Int64) :
    ReadsAs (name ++ ' ' :: (word ++ [' ']) ++ decimalText n.toInt)
      [fun row => comparison.holds (row name) (.number n.toInt)] := by
  have hreads := readsAs_compare hname hword (denotes_decimalText n.toInt)
  rw [List.append_assoc, List.cons_append, List.append_assoc]
  exact hreads

theorem readsAs_from (hname : IsColumnName range.name) (n : Int64) :
    ReadsAs (range.name ++ (if range.inclusiveStart then " >= " else " > ").toList
        ++ decimalText n.toInt)
      [fun row => (if range.inclusiveStart then Comparison.ge else .gt).holds (row range.name)
        (.number n.toInt)] := by
  cases range.inclusiveStart with
  | true => exact @readsAs_bound _ ['>', '='] _ hname rfl n
  | false => exact @readsAs_bound _ ['>'] _ hname rfl n

theorem readsAs_to (hname : IsColumnName range.name) (n : Int64) :
    ReadsAs (range.name ++ (if range.inclusiveEnd then " <= " else " < ").toList
        ++ decimalText n.toInt)
      [fun row => (if range.inclusiveEnd then Comparison.le else .lt).holds (row range.name)
        (.number n.toInt)] := by
  cases range.inclusiveEnd with
  | true => exact @readsAs_bound _ ['<', '='] _ hname rfl n
  | false => exact @readsAs_bound _ ['<'] _ hname rfl n

/-- A range with a bound is one operand. -/
theorem readsAs_buildIntRangeQuery (hname : IsColumnName range.name)
    (hbound : range.from_.isSome ∨ range.to_.isSome) :
    ReadsAs (buildIntRangeQuery range) (conjuncts (.intRange range)) := by
  have hfrom := readsAs_from hname
  have hto := readsAs_to hname
  obtain ⟨name, from_, to_, inclusiveStart, inclusiveEnd⟩ := range
  cases from_ with
  | none =>
      cases to_ with
      | none => exact hbound.elim nofun nofun
      | some n => exact hto n
  | some m =>
      cases to_ with
      | none => exact (hfrom m).congr fun row => (Bool.and_true _).symm
      | some n =>
          have hboth := List.Forall₂.cons (hfrom m) (.cons (hto n) .nil)
          refine (readsAs_group .and (List.cons_ne_nil _ _) hboth).congr fun row => ?_
          simp [IntRangeQuery.meaning, Connective.evalAll]

end Leaves

/-! ### The text as operands -/

section Texts

variable {connective : Connective} {query : SearchQuery} {queries : List SearchQuery}
  {texts must should mustNot : List (List Char)}
  {values mustValues shouldValues mustNotValues : List (List (Row → Bool))}

theorem readsAs_buildPredicate (connective : Connective) (h : List.Forall₂ ReadsAs texts values) :
    List.Forall₂ ReadsAs (buildPredicate connective texts) (predicateConjuncts connective values) :=
  match h with
  | .nil => .nil
  | .cons hmember .nil => .cons hmember .nil
  | .cons hmember (.cons hnext hrest) =>
      .cons (readsAs_group connective (List.cons_ne_nil _ _) (.cons hmember (.cons hnext hrest))) .nil

theorem buildPredicate_ne_nil (hne : texts ≠ []) : buildPredicate connective texts ≠ [] := by
  match texts, hne with
  | [_], _ => exact List.cons_ne_nil _ _
  | _ :: _ :: _, _ => exact List.cons_ne_nil _ _

theorem readsAs_buildBoolQuery (hmust : List.Forall₂ ReadsAs must mustValues)
    (hshould : List.Forall₂ ReadsAs should shouldValues)
    (hmustNot : List.Forall₂ ReadsAs mustNot mustNotValues)
    (hne : must ≠ [] ∨ should ≠ [] ∨ mustNot ≠ []) :
    ReadsAs (buildBoolQuery must should mustNot)
      (predicateConjuncts .and mustValues ++ predicateConjuncts .or shouldValues
        ++ predicateConjuncts .and (mustNotValues.map negateFirst)).flatten := by
  have hnot : List.Forall₂ ReadsAs (mustNot.map ("NOT ".toList ++ ·))
      (mustNotValues.map negateFirst) := by
    rw [List.forall₂_map_left_iff, List.forall₂_map_right_iff]
    exact hmustNot.imp fun _ _ h => h.not
  refine readsAs_and ?_ (List.rel_append (List.rel_append (readsAs_buildPredicate .and hmust)
    (readsAs_buildPredicate .or hshould)) (readsAs_buildPredicate .and hnot))
  intro hnil
  obtain ⟨hboth, hnone⟩ := List.append_eq_nil_iff.mp hnil
  obtain ⟨hfirst, hsecond⟩ := List.append_eq_nil_iff.mp hboth
  rcases hne with h | h | h
  · exact buildPredicate_ne_nil h hfirst
  · exact buildPredicate_ne_nil h hsecond
  · exact buildPredicate_ne_nil (mt List.map_eq_nil_iff.mp h) hnone

theorem readsAs_buildSearchQueries
    (h : ∀ query ∈ queries, ReadsAs (buildSearchQuery query) (conjuncts query)) :
    List.Forall₂ ReadsAs (buildSearchQueries queries) (conjunctsOf queries) := by
  induction queries with
  | nil => exact .nil
  | cons query queries ih =>
      obtain ⟨hquery, hqueries⟩ := List.forall_mem_cons.mp h
      exact .cons hquery (ih hqueries)

theorem buildSearchQueries_ne_nil (hne : queries ≠ []) : buildSearchQueries queries ≠ [] := by
  obtain ⟨query, queries, rfl⟩ := List.exists_cons_of_ne_nil hne
  exact List.cons_ne_nil _ _

/-- **The text of a query** is the operands of the query with `AND` between them. -/
theorem readsAs_buildSearchQuery (hfilled : query.Everywhere SearchQuery.IsFilled)
    (hreadable : query.Everywhere SearchQuery.IsReadable) :
    ReadsAs (buildSearchQuery query) (conjuncts query) := by
  induction hfilled with
  | bool hne _ _ _ ihMust ihShould ihMustNot =>
      obtain ⟨_, hmust, hshould, hmustNot⟩ := everywhere_bool_iff.mp hreadable
      refine readsAs_buildBoolQuery
        (readsAs_buildSearchQueries fun query hmem => ihMust query hmem (hmust query hmem))
        (readsAs_buildSearchQueries fun query hmem => ihShould query hmem (hshould query hmem))
        (readsAs_buildSearchQueries fun query hmem => ihMustNot query hmem (hmustNot query hmem)) ?_
      exact hne.imp buildSearchQueries_ne_nil
        (Or.imp buildSearchQueries_ne_nil buildSearchQueries_ne_nil)
  | term _ => exact readsAs_buildTermQuery (everywhere_term_iff.mp hreadable) _
  | terms hne => exact readsAs_buildTermsQuery (everywhere_terms_iff.mp hreadable) hne
  | intRange _ =>
      obtain ⟨hname, hbound⟩ := everywhere_intRange_iff.mp hreadable
      exact readsAs_buildIntRangeQuery hname hbound

end Texts

/-! ### The operands and the meaning -/

section Meaning

variable {query : SearchQuery} {queries : List SearchQuery} {values : List (Row → Bool)}

theorem length_predicateConjuncts (connective : Connective) (values : List (List (Row → Bool))) :
    (predicateConjuncts connective values).flatten.length
      = predicateCount (values.map List.length) := by
  match values with
  | [] => rfl
  | [member] => rw [predicateConjuncts, List.flatten_singleton]; rfl
  | _ :: _ :: _ => rfl

@[simp] theorem length_negateFirst (values : List (Row → Bool)) :
    (negateFirst values).length = values.length := by
  cases values with
  | nil => rfl
  | cons value values => rfl

mutual

theorem length_conjuncts : ∀ query, (conjuncts query).length = conjunctCount query
  | .bool must should mustNot => by
      have hnegated : (List.length ∘ negateFirst) = List.length := funext length_negateFirst
      rw [conjuncts, List.flatten_append, List.flatten_append, List.length_append,
        List.length_append, length_predicateConjuncts, length_predicateConjuncts,
        length_predicateConjuncts, List.map_map, hnegated, length_conjunctsOf must,
        length_conjunctsOf should, length_conjunctsOf mustNot, conjunctCount]
  | .term _ _ => rfl
  | .terms _ _ => rfl
  | .intRange _ => rfl

theorem length_conjunctsOf :
    ∀ queries, (conjunctsOf queries).map List.length = conjunctCounts queries
  | [] => rfl
  | query :: queries => by
      rw [conjunctsOf, conjunctCounts, List.map_cons, length_conjuncts query,
        length_conjunctsOf queries]

end

/-- A single operand is negated as a whole. -/
theorem all_negateFirst (h : values.length = 1) (row : Row) :
    (negateFirst values).all (· row) = !values.all (· row) := by
  obtain ⟨value, rfl⟩ := List.length_eq_one_iff.mp h
  simp [negateFirst]

theorem all_predicateConjuncts_and (values : List (List (Row → Bool))) (row : Row) :
    (predicateConjuncts .and values).flatten.all (· row)
      = (values.map fun member => member.all (· row)).all id := by
  match values with
  | [] => rfl
  | [member] => simp [predicateConjuncts]
  | _ :: _ :: _ => simp [predicateConjuncts, Connective.evalAll]

theorem all_predicateConjuncts_or (values : List (List (Row → Bool))) (row : Row) :
    (predicateConjuncts .or values).flatten.all (· row)
      = (values.isEmpty || (values.map fun member => member.all (· row)).any id) := by
  match values with
  | [] => rfl
  | [member] => simp [predicateConjuncts]
  | _ :: _ :: _ => simp [predicateConjuncts, Connective.evalAll]

theorem textValue_eq_sqlValue {value : PrimitiveValue} (h : value.IsExact) :
    value.textValue = value.sqlValue := by
  cases value with
  | longValue value =>
      obtain rfl : value = 0 := h
      rfl
  | intValue value => rfl
  | boolValue value => rfl
  | stringValue value => rfl

theorem isEmpty_conjunctsOf (queries : List SearchQuery) :
    (conjunctsOf queries).isEmpty = queries.isEmpty := by
  cases queries with
  | nil => rfl
  | cons query queries => rfl

theorem map_all_conjunctsOf {row : Row}
    (h : ∀ query ∈ queries, (conjuncts query).all (· row) = query.meaning row) :
    ((conjunctsOf queries).map fun member => member.all (· row)) = meanings row queries := by
  induction queries with
  | nil => rfl
  | cons query queries ih =>
      obtain ⟨hquery, hqueries⟩ := List.forall_mem_cons.mp h
      rw [conjunctsOf, List.map_cons, hquery, ih hqueries, meanings]

theorem map_all_negated {row : Row} (hone : ∀ query ∈ queries, conjunctCount query = 1)
    (h : ∀ query ∈ queries, (conjuncts query).all (· row) = query.meaning row) :
    (((conjunctsOf queries).map negateFirst).map fun member => member.all (· row))
      = (meanings row queries).map (!·) := by
  induction queries with
  | nil => rfl
  | cons query queries ih =>
      obtain ⟨hquery, hqueries⟩ := List.forall_mem_cons.mp h
      obtain ⟨hfirst, hothers⟩ := List.forall_mem_cons.mp hone
      have hlength : (conjuncts query).length = 1 := (length_conjuncts query).trans hfirst
      rw [conjunctsOf, List.map_cons, List.map_cons, all_negateFirst hlength, hquery,
        ih hothers hqueries, meanings, List.map_cons]

/-- Where every value and every `NOT` is exact, the operands are what the query asks. -/
theorem all_conjuncts (hexact : query.Everywhere SearchQuery.IsExact) (row : Row) :
    (conjuncts query).all (· row) = query.meaning row := by
  induction hexact with
  | bool hone _ _ _ ihMust ihShould ihMustNot =>
      rw [conjuncts, List.flatten_append, List.flatten_append, List.all_append, List.all_append,
        all_predicateConjuncts_and, all_predicateConjuncts_or, all_predicateConjuncts_and,
        map_all_conjunctsOf ihMust, map_all_conjunctsOf ihShould, map_all_negated hone ihMustNot,
        isEmpty_conjunctsOf, List.all_map, SearchQuery.meaning]
      rfl
  | term hvalue =>
      rw [conjuncts, textValue_eq_sqlValue hvalue, SearchQuery.meaning]
      exact Bool.and_true _
  | terms hvalues =>
      rw [conjuncts, SearchQuery.meaning, List.all_cons, List.all_nil, Bool.and_true]
      rw [Bool.eq_iff_iff, List.any_eq_true, List.any_eq_true]
      refine exists_congr fun value => and_congr_right fun hvalue => ?_
      rw [textValue_eq_sqlValue (hvalues value hvalue)]
  | intRange _ =>
      rw [conjuncts, SearchQuery.meaning]
      exact Bool.and_true _

/-- **The text of a query means what the query does**, on every row: where names need no quotes,
every range has a bound, every `long` is zero, and every member of `mustNot` is one operand. -/
theorem eval_buildSearchQuery (hfilled : query.Everywhere SearchQuery.IsFilled)
    (hreadable : query.Everywhere SearchQuery.IsReadable)
    (hexact : query.Everywhere SearchQuery.IsExact) (row : Row) :
    (parse (buildSearchQuery query)).map (·.eval row) = some (query.meaning row) := by
  rw [(readsAs_buildSearchQuery hfilled hreadable).parse, all_conjuncts hexact]

end Meaning

/-- Queries of all kinds within one another. -/
def mixedQuery : SearchQuery :=
  .bool
    [.term "title".toList (.stringValue "it's".toList),
      .intRange ⟨"page".toList, some (-3), some 40, true, false⟩]
    [.terms "kind".toList [.intValue 7, .boolValue true],
      .bool [] [] [.term "size".toList (.longValue 0)]]
    [.bool [.term "a".toList (.intValue 1), .term "b".toList (.intValue 2)] [] []]

/-- A row of zeros. -/
def zeros : Row := fun _ => .number 0

theorem eval_mixedQuery :
    (parse (buildSearchQuery mixedQuery)).map (·.eval zeros) = some (mixedQuery.meaning zeros) :=
  eval_buildSearchQuery
    (by simp [mixedQuery, SearchQuery.IsFilled])
    (by simp [mixedQuery, SearchQuery.IsReadable]; decide +kernel)
    (by simp [mixedQuery, SearchQuery.IsExact, PrimitiveValue.IsExact, conjunctCount,
      conjunctCounts, predicateCount])
    zeros

/-- Two conditions on two columns, that stand side by side. -/
def sideBySide : SearchQuery :=
  .bool [.term "a".toList (.intValue 1)] [.term "b".toList (.intValue 2)] []

/-- `NOT` negates one of two operands, a `long` is compared as zero, and a range without bounds
is no condition. -/
theorem not_sideBySide_misread :
    buildSearchQuery (.bool [] [] [sideBySide]) = "NOT a = 1 AND b = 2".toList
      ∧ (parse "NOT a = 1 AND b = 2".toList).map (·.eval zeros) = some false
      ∧ (SearchQuery.bool [] [] [sideBySide]).meaning zeros = true
      ∧ buildSearchQuery (.term "a".toList (.longValue 5)) = "a = 0.000000".toList
      ∧ (parse "a = 0.000000".toList).map (·.eval zeros) = some true
      ∧ (SearchQuery.term "a".toList (.longValue 5)).meaning zeros = false
      ∧ parse (buildSearchQuery (.intRange ⟨"a".toList, none, none, true, true⟩)) = none := by
  decide +kernel

-- two misread negations of the same operand make up for each other
example (row : Row) : (parse (buildSearchQuery (.bool [] [] [.bool [] [] [sideBySide]]))).map
    (·.eval row) = some ((SearchQuery.bool [] [] [.bool [] [] [sideBySide]]).meaning row) := by
  have hfilled : (SearchQuery.bool [] [] [.bool [] [] [sideBySide]]).Everywhere
      SearchQuery.IsFilled := by simp [sideBySide, SearchQuery.IsFilled]
  have hreadable : (SearchQuery.bool [] [] [.bool [] [] [sideBySide]]).Everywhere
      SearchQuery.IsReadable := by
    simp [sideBySide, SearchQuery.IsReadable]
    decide +kernel
  rw [(readsAs_buildSearchQuery hfilled hreadable).parse]
  simp [sideBySide, conjuncts, conjunctsOf, predicateConjuncts, negateFirst, meanings,
    SearchQuery.meaning, PrimitiveValue.textValue]

end Instinct.SqlBuilder
