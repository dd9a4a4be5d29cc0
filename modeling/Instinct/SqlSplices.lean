/-
Instinct/SqlSplices.lean

Where the program puts a string between quotes into SQL: the template functions
`text` and `stringify`, `build_term_value`, and the ids of `make_mget_sql` and
`make_delete_sql`.

The first three double the quotes of the string by `EscapeSQLText`, so that it is one
literal whatever stands around it.  The ids go in as they are, so that a quote in one
of them ends its literal (`readRight_iff`).
-/
import Instinct.SqlLiterals
import Instinct.SqlBuilder

namespace Instinct.SqlSplices

open SqlLiterals SqlBuilder

/-! ### The model -/

/-- What the template functions ask of a JSON value. -/
structure JsonApi (Json : Type) where
  getString : Json → Option (List Char)
  /-- `is_array() || is_object()`. -/
  isComposite : Json → Bool
  dump : Json → List Char

section Functions

variable {Json : Type} (api : JsonApi Json)

/-- `"'" + StringUtils::EscapeSQLText(v) + "'"`. -/
def quoteEscaped (v : List Char) : List Char := '\'' :: (escapeSQLText v ++ ['\''])

/-- The template function `text`. -/
def text (arg : Json) : List Char :=
  match api.getString arg with
  | some [] => "NULL".toList
  | some v => quoteEscaped v
  | none => "NULL".toList

/-- The template function `stringify`. -/
def stringify (arg : Json) : List Char :=
  if api.isComposite arg then quoteEscaped (api.dump arg) else "NULL".toList

end Functions

/-- The name of a table or a column, which holds no quote. -/
structure SqlName where
  text : List Char
  no_quote : '\'' ∉ text

/-- What stands before the ids in `make_mget_sql`. -/
def mgetHead (tableName : SqlName) (fields : List SqlName) : List Char :=
  "SELECT id, text".toList
    ++ (if fields = [] then [] else ", ".toList ++ joinWith (fields.map (·.text)) ", ".toList)
    ++ " FROM ".toList ++ tableName.text ++ " WHERE id in (".toList

/-- `make_mget_sql`, which throws if there are no ids.  The comma stands after the last id too. -/
def makeMgetSql (tableName : SqlName) (fields : List SqlName) (ids : List (List Char)) :
    Option (List Char) :=
  if ids = [] then none
  else some (mgetHead tableName fields
    ++ ids.flatMap (fun id => '\'' :: (id ++ ['\'', ','])) ++ ");".toList)

/-- The ids of `make_delete_sql`, with commas between them. -/
def quotedIds : List (List Char) → List Char
  | [] => []
  | [id] => '\'' :: (id ++ ['\''])
  | id :: ids => '\'' :: (id ++ ['\'']) ++ ',' :: quotedIds ids

/-- `make_delete_sql`, which throws if there are no ids. -/
def makeDeleteSql (tableName : SqlName) (ids : List (List Char)) : Option (List Char) :=
  if ids = [] then none
  else some ("DELETE FROM ".toList ++ tableName.text ++ " WHERE id IN (".toList
    ++ quotedIds ids ++ ");".toList)

/-! ### What is asked of it -/

/-- A string on its way into SQL. -/
inductive Splicing (Json : Type)
  | text (arg : Json)
  | stringify (arg : Json)
  | termValue (value : List Char)
  | multiGet (tableName : SqlName) (fields : List SqlName) (ids : List (List Char))
  | delete (tableName : SqlName) (ids : List (List Char))

/-- The ids as literals, each with a comma after it. -/
def mgetItems (ids : List (List Char)) : List Item := ids.flatMap fun id => [.literal id, .char ',']

/-- The ids as literals, with commas between them. -/
def deleteItems : List (List Char) → List Item
  | [] => []
  | [id] => [.literal id]
  | id :: ids => .literal id :: .char ',' :: deleteItems ids

/-- **Every string is read as one literal**, which is the string, and the statement around it as it
is. -/
def Splicing.ReadRight {Json : Type} (api : JsonApi Json) : Splicing Json → Prop
  | .text arg => ∀ v, api.getString arg = some v → v ≠ [] →
      ReadsAsLiteral (SqlSplices.text api arg) v
  | .stringify arg => api.isComposite arg = true →
      ReadsAsLiteral (SqlSplices.stringify api arg) (api.dump arg)
  | .termValue value => ReadsAsLiteral (buildTermValue (.stringValue value)) value
  | .multiGet tableName fields ids => ∀ sql, makeMgetSql tableName fields ids = some sql →
      scan sql = some ((mgetHead tableName fields).map .char ++ mgetItems ids
        ++ ");".toList.map .char)
  | .delete tableName ids => ∀ sql, makeDeleteSql tableName ids = some sql →
      scan sql = some (("DELETE FROM ".toList ++ tableName.text ++ " WHERE id IN (".toList).map .char
        ++ deleteItems ids ++ ");".toList.map .char)

/-- The strings that go in as they are. -/
def Splicing.unescaped {Json : Type} : Splicing Json → List (List Char)
  | .multiGet _ _ ids => ids
  | .delete _ ids => ids
  | _ => []

/-! ### The escaped strings -/

theorem readsAsLiteral_quoteEscaped (v : List Char) : ReadsAsLiteral (quoteEscaped v) v := by
  rw [quoteEscaped, escapeSQLText_eq]
  exact readsAsLiteral_text v

section Strings

variable {Json : Type} {api : JsonApi Json} {arg : Json}

theorem text_of_string {v : List Char} (h : api.getString arg = some v) (hne : v ≠ []) :
    text api arg = quoteEscaped v := by
  rw [text, h]
  cases v with
  | nil => exact absurd rfl hne
  | cons c cs => rfl

theorem stringify_of_composite (h : api.isComposite arg = true) :
    stringify api arg = quoteEscaped (api.dump arg) := if_pos h

end Strings

/-! ### The ids -/

section Ids

variable {ids : List (List Char)} {cs cs' : List Char} {items : List Item}

theorem renderRaw_mgetItems (ids : List (List Char)) :
    renderRaw (mgetItems ids) = ids.flatMap fun id => '\'' :: (id ++ ['\'', ',']) := by
  rw [renderRaw, mgetItems, List.flatMap_assoc]
  refine List.flatMap_congr fun id _ => ?_
  simp [Item.rawText]

theorem renderRaw_deleteItems (ids : List (List Char)) :
    renderRaw (deleteItems ids) = quotedIds ids := by
  induction ids using deleteItems.induct with
  | case1 => rfl
  | case2 id => exact List.append_nil _
  | case3 id ids hne ih =>
      rw [deleteItems, quotedIds, ← ih]
      · rfl
      · exact hne
      · exact hne

theorem separated_mgetItems (h : Separated items) : Separated (mgetItems ids ++ items) := by
  induction ids with
  | nil => exact h
  | cons id ids ih => exact ⟨fun value hvalue => ⟨',', (Option.some.inj hvalue).symm⟩, by decide, ih⟩

/-- The closing parenthesis is behind the last id. -/
theorem separated_deleteItems (hsep : Separated (.char ')' :: items)) :
    Separated (deleteItems ids ++ .char ')' :: items) := by
  induction ids using deleteItems.induct with
  | case1 => exact hsep
  | case2 id => exact ⟨fun value hvalue => ⟨')', (Option.some.inj hvalue).symm⟩, hsep⟩
  | case3 id ids hne ih =>
      rw [deleteItems]
      · exact ⟨fun value hvalue => ⟨',', (Option.some.inj hvalue).symm⟩, by decide, ih⟩
      · exact hne

theorem mem_mgetItems {value : List Char} : .literal value ∈ mgetItems ids ↔ value ∈ ids := by
  simp [mgetItems]

theorem mem_deleteItems {value : List Char} : .literal value ∈ deleteItems ids ↔ value ∈ ids := by
  induction ids using deleteItems.induct with
  | case1 => exact iff_of_false List.not_mem_nil List.not_mem_nil
  | case2 id => simp [deleteItems]
  | case3 id ids hne ih =>
      rw [deleteItems, List.mem_cons, List.mem_cons, ih, List.mem_cons, Item.literal.injEq]
      · simp
      · exact hne

/-- A statement with literals in the midst of code. -/
theorem scan_statement_iff (hcs : '\'' ∉ cs) (hsep : Separated (items ++ cs'.map .char)) :
    scan (cs ++ renderRaw items ++ cs') = some (cs.map .char ++ items ++ cs'.map .char)
      ↔ ∀ value, .literal value ∈ items → '\'' ∉ value := by
  have hraw : cs ++ renderRaw items ++ cs' = renderRaw (cs.map .char ++ items ++ cs'.map .char) := by
    rw [renderRaw_append, renderRaw_append, renderRaw_chars, renderRaw_chars]
  have hall : Separated (cs.map .char ++ items ++ cs'.map .char) := by
    rw [List.append_assoc]
    exact separated_chars_append hcs hsep
  rw [hraw, scan_renderRaw_iff hall]
  refine forall_congr' fun value => ?_
  simp

theorem no_quote_join (names : List SqlName) :
    '\'' ∉ joinWith (names.map (·.text)) ", ".toList := by
  unfold joinWith
  induction names with
  | nil => exact List.not_mem_nil
  | cons name names ih =>
      cases names with
      | nil => simpa using name.no_quote
      | cons next names =>
          rw [List.map_cons, List.map_cons, List.intercalate_cons_cons, ← List.map_cons]
          simpa using ⟨name.no_quote, ih⟩

theorem no_quote_mgetHead (tableName : SqlName) (fields : List SqlName) :
    '\'' ∉ mgetHead tableName fields := by
  unfold mgetHead
  split
  · simpa using tableName.no_quote
  · simpa using ⟨no_quote_join fields, tableName.no_quote⟩

/-- The statement of ids, if there are any, is read right if and only if no id holds a quote. -/
theorem scan_ids_iff (hcs : '\'' ∉ cs) (hsep : Separated (items ++ cs'.map .char))
    (hitems : ∀ value, .literal value ∈ items ↔ value ∈ ids) :
    (∀ sql, (if ids = [] then none else some (cs ++ renderRaw items ++ cs')) = some sql →
        scan sql = some (cs.map .char ++ items ++ cs'.map .char))
      ↔ ∀ id ∈ ids, '\'' ∉ id := by
  have hscan : scan (cs ++ renderRaw items ++ cs')
      = some (cs.map .char ++ items ++ cs'.map .char) ↔ ∀ id ∈ ids, '\'' ∉ id :=
    (scan_statement_iff hcs hsep).trans (forall_congr' fun value => imp_congr_left (hitems value))
  rcases eq_or_ne ids [] with rfl | hne
  · exact iff_of_true nofun nofun
  · rw [← hscan, if_neg hne]
    exact ⟨fun h => h _ rfl, fun h sql hsql => Option.some.inj hsql ▸ h⟩

end Ids

/-- **A string is read as one literal** where it goes in escaped, and otherwise if and only if it
holds no quote. -/
theorem readRight_iff {Json : Type} (api : JsonApi Json) (splicing : Splicing Json) :
    splicing.ReadRight api ↔ ∀ s ∈ splicing.unescaped, '\'' ∉ s := by
  cases splicing with
  | text arg =>
      refine iff_of_true (fun v hv hne => ?_) (fun s hs => absurd hs List.not_mem_nil)
      rw [text_of_string hv hne]
      exact readsAsLiteral_quoteEscaped v
  | stringify arg =>
      refine iff_of_true (fun h => ?_) (fun s hs => absurd hs List.not_mem_nil)
      rw [stringify_of_composite h]
      exact readsAsLiteral_quoteEscaped _
  | termValue value =>
      exact iff_of_true (readsAsLiteral_quoteEscaped value) (fun s hs => absurd hs List.not_mem_nil)
  | multiGet tableName fields ids =>
      have hsep : Separated (mgetItems ids ++ ");".toList.map .char) :=
        separated_mgetItems ⟨by decide, by decide, trivial⟩
      have hscan := scan_ids_iff (no_quote_mgetHead tableName fields) hsep fun _ => mem_mgetItems
      rw [renderRaw_mgetItems] at hscan
      exact hscan
  | delete tableName ids =>
      have hsep : Separated (deleteItems ids ++ ");".toList.map .char) :=
        separated_deleteItems ⟨by decide, by decide, trivial⟩
      have hhead : '\'' ∉ "DELETE FROM ".toList ++ tableName.text ++ " WHERE id IN (".toList := by
        simpa using tableName.no_quote
      have hscan := scan_ids_iff hhead hsep fun _ => mem_deleteItems
      rw [renderRaw_deleteItems] at hscan
      exact hscan

/-- The name of a table. -/
def documents : SqlName where
  text := "documents".toList
  no_quote := by decide

/-- An id ends its literal, and the statement deletes every row. -/
theorem not_readRight_delete :
    makeDeleteSql documents ["a') OR ('1'='1".toList]
        = some "DELETE FROM documents WHERE id IN ('a') OR ('1'='1');".toList
      ∧ ¬ (.delete documents ["a') OR ('1'='1".toList] : Splicing Unit).ReadRight
        { getString := fun _ => none, isComposite := fun _ => false, dump := fun _ => [] } := by
  refine ⟨by decide, fun h => ?_⟩
  have hscan := h _ rfl
  exact absurd hscan (by decide)

end Instinct.SqlSplices
