/-
Instinct/ParquetMapping.lean

`CreateParquetIngestor`: the string that says which columns of a file are read.

The flag for a column of text is not initialised, a kind of column that is not known
passes, an index is whatever `std::stoi` makes of it, parts behind those that are read are
passed over, and the kind may be written in capitals.  So a string is read as it should be if
and only if it describes columns whose indices are `int`s, or it describes none and one of its
columns fails a check (`readsMapping_iff`).
-/
import Instinct.DocumentValidation
import Instinct.StringUtils

namespace Instinct.ParquetMapping

open StringUtils
open DocumentValidation (PrimitiveType)

/-! ### The parser -/

structure MetadataFieldSchema where
  name : List Char := []
  type : PrimitiveType := .unknown
  deriving DecidableEq

inductive ParquetColumnType
  | unknown | text | vector | metadata
  deriving DecidableEq

structure ParquetColumnMapping where
  columnType : ParquetColumnType := .unknown
  metadataFieldSchema : MetadataFieldSchema := {}
  columnIndex : Int := 0
  deriving DecidableEq

/-- The type of a metadata field, by the name that is written. -/
def typeNamed (name : List Char) : PrimitiveType :=
  if name = "int32".toList then .int32
  else if name = "int64".toList then .int64
  else if name = "float".toList then .float
  else if name = "double".toList then .double
  else if name = "bool".toList then .bool
  else if name = "varchar".toList then .varchar
  else .unknown

def textKinds : List (List Char) := [['t'], "text".toList, "txt".toList]

def metadataKinds : List (List Char) := [['m'], "metadata".toList]

/-- What a round of the loop makes of a column, once it is trimmed. -/
def columnMapping (column : List Char) : Except Exn ParquetColumnMapping :=
  match reSplit ':' column with
  | index :: kind :: rest => do
      let typeString := toLower kind
      let columnIndex ← stoi index
      if textKinds.contains typeString then pure { columnType := .text, columnIndex }
      else if metadataKinds.contains typeString then
        match rest with
        | name :: type :: _ => do
            assertTrue (typeNamed type ≠ .unknown) "should have specified correct field type"
            pure { columnType := .metadata, metadataFieldSchema := { name, type := typeNamed type }
                   columnIndex }
        | _ => .error (.client "definition for metadata field should contain exactly four parts.")
      else pure { columnIndex }
  | _ => .error (.client "column definition string should contain at least two parts")

/-- The loop over the columns, with the flag and the mappings so far. -/
def readColumn (s : Bool × List ParquetColumnMapping) (column : List Char) :
    Except Exn (Bool × List ParquetColumnMapping) :=
  if isBlank column then pure s
  else do
    let mapping ← columnMapping (trim column)
    pure (s.1 || mapping.columnType = .text, s.2 ++ [mapping])

/-- `CreateParquetIngestor`, with what the flag happens to be at first, as far as the mappings. -/
def createParquetIngestor (foundText : Bool) (mappingString : List Char) :
    Except Exn (List ParquetColumnMapping) := do
  let (foundText, mappings) ← (reSplit ',' (trim mappingString)).foldlM readColumn (foundText, [])
  assertTrue (foundText = true) "should have text column specified"
  pure mappings

/-! ### What a mapping string describes -/

/-- A column that is described as it should be. -/
inductive IsColumn : List Char → ParquetColumnMapping → Prop
  | text {index kind : List Char} :
      index ≠ [] → (∀ c ∈ index, c.isDigit = true) → kind ∈ textKinds →
      IsColumn (index ++ ':' :: kind)
        { columnType := .text, columnIndex := Nat.ofDigitChars 10 index 0 }
  | metadata {index kind name type : List Char} :
      index ≠ [] → (∀ c ∈ index, c.isDigit = true) → kind ∈ metadataKinds → ':' ∉ name →
      typeNamed type ≠ .unknown →
      IsColumn (index ++ ':' :: (kind ++ ':' :: (name ++ ':' :: type)))
        { columnType := .metadata, metadataFieldSchema := { name, type := typeNamed type }
          columnIndex := Nat.ofDigitChars 10 index 0 }

/-- The columns between the commas, without the blanks around them.  Blank ones do not count. -/
def columnsOf (mappingString : List Char) : List (List Char) :=
  ((mappingString.splitOn ',').map trim).filter (· ≠ [])

/-- The string describes these columns, and there is one of text. -/
structure Describes (mappingString : List Char) (mappings : List ParquetColumnMapping) : Prop where
  columns : List.Forall₂ IsColumn (columnsOf mappingString) mappings
  text : ∃ mapping ∈ mappings, mapping.columnType = .text

/-- The string is accepted if and only if it describes columns, which are those of the mapping. -/
def ReadsMapping (mappingString : List Char) : Prop :=
  ∀ foundText mappings, createParquetIngestor foundText mappingString = .ok mappings ↔
    Describes mappingString mappings

/-- The checks that are made of a column. -/
structure Passes (column : List Char) : Prop where
  parts : 2 ≤ (reSplit ':' column).length
  index : ∃ i, stoi ((reSplit ':' column).getD 0 []) = .ok i
  metadata : toLower ((reSplit ':' column).getD 1 []) ∈ metadataKinds →
    4 ≤ (reSplit ':' column).length ∧ typeNamed ((reSplit ':' column).getD 3 []) ≠ .unknown

/-! ### The loop -/

section Loop

variable {s : List Char} {c : Char}

/-- Blanks in front of the string make no difference. -/
theorem columnsOf_cons_space (hc : isSpace c = true) : columnsOf (c :: s) = columnsOf s := by
  have hcomma : ¬ (c == ',') = true := by
    rintro h
    rw [beq_iff_eq.mp h] at hc
    exact absurd hc (by decide)
  obtain ⟨first, rest, hsplit⟩ := List.exists_cons_of_ne_nil (List.splitOn_ne_nil ',' s)
  rw [columnsOf, columnsOf, List.splitOn_cons_eq_if_modifyHead, if_neg hcomma, hsplit,
    List.modifyHead_cons, List.map_cons, trim_cons_space hc, List.map_cons]

theorem splitOn_concat (hc : c ≠ ',') (s : List Char) :
    ∃ front last, s.splitOn ',' = front ++ [last] ∧
      (s ++ [c]).splitOn ',' = front ++ [last ++ [c]] := by
  induction s with
  | nil =>
      refine ⟨[], [], List.splitOn_nil ',', ?_⟩
      exact List.splitOn_eq_singleton fun h => hc (List.mem_singleton.mp h).symm
  | cons a s ih =>
      obtain ⟨front, last, hsplit, hmore⟩ := ih
      rw [List.cons_append, List.splitOn_cons_eq_if_modifyHead, List.splitOn_cons_eq_if_modifyHead,
        hsplit, hmore]
      split
      · exact ⟨[] :: front, last, rfl, rfl⟩
      · rcases front with - | ⟨first, front⟩
        · exact ⟨[], a :: last, rfl, rfl⟩
        · exact ⟨(a :: first) :: front, last, rfl, rfl⟩

/-- Nor do blanks behind it. -/
theorem columnsOf_concat_space (hc : isSpace c = true) : columnsOf (s ++ [c]) = columnsOf s := by
  have hcomma : c ≠ ',' := by
    rintro rfl
    exact absurd hc (by decide)
  obtain ⟨front, last, hsplit, hmore⟩ := splitOn_concat hcomma s
  rw [columnsOf, columnsOf, hsplit, hmore, List.map_append, List.map_append, List.map_singleton,
    List.map_singleton, trim_concat_space hc]

theorem columnsOf_trim (s : List Char) : columnsOf (trim s) = columnsOf s := by
  have hfront : columnsOf (s.dropWhile isSpace) = columnsOf s := by
    induction s with
    | nil => rfl
    | cons c s ih =>
        by_cases hc : isSpace c = true
        · rw [List.dropWhile_cons_of_pos hc, ih, columnsOf_cons_space hc]
        · rw [List.dropWhile_cons_of_neg hc]
  rw [← hfront, trim]
  generalize s.dropWhile isSpace = s
  induction s using List.reverseRecOn with
  | nil => rfl
  | append_singleton s c ih =>
      by_cases hc : isSpace c = true
      · rw [List.rdropWhile_concat_pos _ _ _ hc, ih, columnsOf_concat_space hc]
      · rw [List.rdropWhile_concat_neg _ _ _ hc]

/-- The columns that the loop does not pass over. -/
theorem columnsOf_eq (s : List Char) :
    columnsOf s = ((reSplit ',' (trim s)).map trim).filter (· ≠ []) := by
  rw [← columnsOf_trim, columnsOf]
  rcases splitOn_eq_reSplit ',' (trim s) with h | h
  · rw [h]
  · rw [h, List.map_append, List.filter_append]
    exact List.append_nil _

/-- The loop reads the columns one by one. -/
theorem foldlM_readColumn (columns : List (List Char)) (foundText : Bool)
    (mappings : List ParquetColumnMapping) :
    columns.foldlM readColumn (foundText, mappings) = (do
      let more ← ((columns.map trim).filter (· ≠ [])).mapM columnMapping
      pure (foundText || more.any (·.columnType = .text), mappings ++ more)) := by
  induction columns generalizing foundText mappings with
  | nil =>
      show Except.ok (foundText, mappings) = Except.ok (foundText || false, mappings ++ [])
      rw [Bool.or_false, List.append_nil]
  | cons column columns ih =>
      rw [List.foldlM_cons, List.map_cons, readColumn, isBlank]
      by_cases hblank : trim column = []
      · rw [if_pos (decide_eq_true hblank), hblank, List.filter_cons_of_neg (by simp)]
        exact ih foundText mappings
      · rw [if_neg (by simpa using hblank), List.filter_cons_of_pos (by simpa using hblank),
          List.mapM_cons, bind_assoc, bind_assoc]
        refine bind_congr fun mapping => ?_
        rw [pure_bind, ih, bind_assoc]
        refine bind_congr fun more => ?_
        rw [pure_bind, List.any_cons, Bool.or_assoc, List.append_assoc, List.singleton_append]

end Loop

/-- **The string is read** if each of its columns is, and there is one of text where the flag does
not say so at first. -/
theorem createParquetIngestor_eq_ok_iff {foundText : Bool} {s : List Char}
    {mappings : List ParquetColumnMapping} :
    createParquetIngestor foundText s = .ok mappings ↔
      List.Forall₂ (fun column mapping => columnMapping column = .ok mapping) (columnsOf s)
          mappings ∧
        (foundText = true ∨ ∃ mapping ∈ mappings, mapping.columnType = .text) := by
  rw [createParquetIngestor, foldlM_readColumn, ← columnsOf_eq, bind_assoc, checks_eq_ok,
    ← mapM_eq_ok_iff]
  have htext : ∀ more : List ParquetColumnMapping,
      (foundText || more.any (·.columnType = .text)) = true ↔
        foundText = true ∨ ∃ mapping ∈ more, mapping.columnType = .text := by
    intro more
    simp only [Bool.or_eq_true, List.any_eq_true, decide_eq_true_eq]
  constructor
  · rintro ⟨more, hmore, h⟩
    obtain ⟨_, hpure, h⟩ := checks_eq_ok.mp h
    obtain rfl := Except.ok.inj hpure
    obtain ⟨⟨⟩, hassert, h⟩ := checks_eq_ok.mp h
    obtain rfl : more = mappings := Except.ok.inj h
    exact ⟨hmore, (htext more).mp (assertTrue_eq_ok.mp hassert)⟩
  · rintro ⟨hmore, hfound⟩
    refine ⟨mappings, hmore, checks_eq_ok.mpr ⟨_, rfl, checks_eq_ok.mpr ⟨(), ?_, rfl⟩⟩⟩
    exact assertTrue_of ((htext mappings).mpr hfound)

/-! ### One column -/

section Column

variable {column : List Char} {mapping : ParquetColumnMapping}

theorem toLower_textKinds {kind : List Char} (h : kind ∈ textKinds) :
    toLower kind = kind ∧ kind ≠ [] ∧ ':' ∉ kind := by
  simp only [textKinds, List.mem_cons, List.not_mem_nil, or_false] at h
  rcases h with rfl | rfl | rfl <;> decide

theorem toLower_metadataKinds {kind : List Char} (h : kind ∈ metadataKinds) :
    toLower kind = kind ∧ kind ∉ textKinds ∧ ':' ∉ kind := by
  simp only [metadataKinds, List.mem_cons, List.not_mem_nil, or_false] at h
  rcases h with rfl | rfl <;> decide

theorem typeNamed_ne_unknown {type : List Char} (h : typeNamed type ≠ .unknown) :
    type ≠ [] ∧ ':' ∉ type := by
  have hname : type ∈ ["int32".toList, "int64".toList, "float".toList, "double".toList,
      "bool".toList, "varchar".toList] := by
    by_contra hnot
    simp only [List.mem_cons, List.not_mem_nil, or_false, not_or] at hnot
    obtain ⟨h₁, h₂, h₃, h₄, h₅, h₆⟩ := hnot
    refine h ?_
    rw [typeNamed, if_neg h₁, if_neg h₂, if_neg h₃, if_neg h₄, if_neg h₅, if_neg h₆]
  simp only [List.mem_cons, List.not_mem_nil, or_false] at hname
  rcases hname with rfl | rfl | rfl | rfl | rfl | rfl <;> decide

theorem colon_notMem_digits {index : List Char} (h : ∀ c ∈ index, c.isDigit = true) :
    ':' ∉ index := fun hmem => absurd (h ':' hmem) (by decide)

/-- A column that is described as it should be is read, if its index is an `int`. -/
theorem columnMapping_of_isColumn (h : IsColumn column mapping) :
    columnMapping column = if mapping.columnIndex < 2 ^ 31 then .ok mapping
      else .error (.other "stoi: out of range") := by
  have hint : ∀ n : Nat, (n : Int) < 2 ^ 31 ↔ n < 2 ^ 31 := fun n => by omega
  cases h with
  | @text index kind hne hindex hkind =>
      obtain ⟨hlower, hkindne, hcolon⟩ := toLower_textKinds hkind
      have hsplit : reSplit ':' (index ++ ':' :: kind) = [index, kind] := by
        have hparts := @reSplit_intercalate Char _ ':' [index, kind]
          (by simp [colon_notMem_digits hindex, hcolon]) ⟨kind, rfl, hkindne⟩
        simpa using hparts
      rw [columnMapping, hsplit]
      simp only [hlower, stoi_digits hne hindex, if_pos (List.contains_iff_mem.mpr hkind), hint]
      split <;> rfl
  | @metadata index kind name type hne hindex hkind hname htype =>
      obtain ⟨hlower, hnot, hcolon⟩ := toLower_metadataKinds hkind
      obtain ⟨htypene, htypecolon⟩ := typeNamed_ne_unknown htype
      have hsplit : reSplit ':' (index ++ ':' :: (kind ++ ':' :: (name ++ ':' :: type)))
          = [index, kind, name, type] := by
        have hparts := @reSplit_intercalate Char _ ':' [index, kind, name, type]
          (by simp [colon_notMem_digits hindex, hcolon, hname, htypecolon]) ⟨type, rfl, htypene⟩
        simpa using hparts
      rw [columnMapping, hsplit]
      simp only [hlower, stoi_digits hne hindex, if_neg (mt List.contains_iff_mem.mp hnot),
        if_pos (List.contains_iff_mem.mpr hkind), hint, assertTrue_of htype]
      split <;> rfl

/-- A column that passes the checks is read, and no other. -/
theorem exists_columnMapping_iff :
    (∃ mapping, columnMapping column = .ok mapping) ↔ Passes column := by
  constructor
  · rintro ⟨mapping, h⟩
    rw [columnMapping] at h
    split at h
    · next index kind rest hsplit =>
        obtain ⟨i, hi, h⟩ := checks_eq_ok.mp h
        refine ⟨by rw [hsplit]; exact Nat.le_add_left 2 _, ⟨i, by rw [hsplit]; exact hi⟩, ?_⟩
        rw [hsplit]
        rintro (hmetadata : toLower kind ∈ metadataKinds)
        have hkind : toLower kind ∉ textKinds := fun htext =>
          (toLower_metadataKinds hmetadata).2.1 htext
        rw [if_neg (mt List.contains_iff_mem.mp hkind),
          if_pos (List.contains_iff_mem.mpr hmetadata)] at h
        split at h
        · next name type rest' =>
            obtain ⟨⟨⟩, hassert, -⟩ := checks_eq_ok.mp h
            exact ⟨Nat.le_add_left 4 _, assertTrue_eq_ok.mp hassert⟩
        · cases h
    · cases h
  · rintro ⟨hparts, ⟨i, hi⟩, hmetadata⟩
    rw [columnMapping]
    rcases hsplit : reSplit ':' column with - | ⟨index, - | ⟨kind, rest⟩⟩
    · rw [hsplit] at hparts
      exact absurd hparts (by decide)
    · rw [hsplit] at hparts
      exact absurd hparts (Nat.lt_irrefl 1)
    · rw [hsplit] at hi hmetadata
      have hindex : stoi index = .ok i := hi
      simp only [hindex]
      by_cases htext : toLower kind ∈ textKinds
      · exact ⟨_, checks_eq_ok.mpr ⟨i, rfl, if_pos (List.contains_iff_mem.mpr htext)⟩⟩
      · by_cases hmeta : toLower kind ∈ metadataKinds
        · obtain ⟨hlength, htype⟩ := hmetadata hmeta
          rcases rest with - | ⟨name, - | ⟨type, rest⟩⟩
          · exact absurd hlength (by simp)
          · exact absurd hlength (Nat.lt_irrefl 3)
          · refine ⟨{ columnType := .metadata
                      metadataFieldSchema := { name, type := typeNamed type }
                      columnIndex := i }, checks_eq_ok.mpr ⟨i, rfl, ?_⟩⟩
            rw [if_neg (mt List.contains_iff_mem.mp htext),
              if_pos (List.contains_iff_mem.mpr hmeta)]
            exact checks_eq_ok.mpr ⟨(), assertTrue_of htype, rfl⟩
        · refine ⟨{ columnIndex := i }, checks_eq_ok.mpr ⟨i, rfl, ?_⟩⟩
          rw [if_neg (mt List.contains_iff_mem.mp htext),
            if_neg (mt List.contains_iff_mem.mp hmeta)]
          rfl

end Column

/-! ### All columns -/

/-- A described column that is read is read as what it describes. -/
theorem eq_of_isColumn {column : List Char} {mapping mapping' : ParquetColumnMapping}
    (h : IsColumn column mapping) (hread : columnMapping column = .ok mapping') :
    mapping.columnIndex < 2 ^ 31 ∧ mapping' = mapping := by
  rw [columnMapping_of_isColumn h] at hread
  split at hread
  · next hint => exact ⟨hint, (Except.ok.inj hread).symm⟩
  · cases hread

theorem forall₂_of_isColumn {columns : List (List Char)} {mappings : List ParquetColumnMapping}
    (h : List.Forall₂ IsColumn columns mappings)
    (hint : ∀ mapping ∈ mappings, mapping.columnIndex < 2 ^ 31) :
    List.Forall₂ (fun column mapping => columnMapping column = .ok mapping) columns mappings := by
  induction h with
  | nil => exact .nil
  | cons hcolumn _ ih =>
      obtain ⟨hfirst, hrest⟩ := List.forall_mem_cons.mp hint
      refine .cons ?_ (ih hrest)
      rw [columnMapping_of_isColumn hcolumn, if_pos hfirst]

theorem eq_of_forall₂_isColumn {columns : List (List Char)}
    {mappings mappings' : List ParquetColumnMapping} (h : List.Forall₂ IsColumn columns mappings)
    (hread : List.Forall₂ (fun column mapping => columnMapping column = .ok mapping) columns
      mappings') :
    (∀ mapping ∈ mappings, mapping.columnIndex < 2 ^ 31) ∧ mappings' = mappings := by
  induction h generalizing mappings' with
  | nil =>
      cases hread
      exact ⟨fun mapping h => absurd h List.not_mem_nil, rfl⟩
  | cons hcolumn _ ih =>
      cases hread with
      | cons hfirst hrest =>
          obtain ⟨hint, rfl⟩ := eq_of_isColumn hcolumn hfirst
          obtain ⟨hints, rfl⟩ := ih hrest
          exact ⟨List.forall_mem_cons.mpr ⟨hint, hints⟩, rfl⟩

theorem exists_forall₂_of_passes {columns : List (List Char)}
    (h : ∀ column ∈ columns, Passes column) :
    ∃ mappings,
      List.Forall₂ (fun column mapping => columnMapping column = .ok mapping) columns mappings := by
  induction columns with
  | nil => exact ⟨[], .nil⟩
  | cons column columns ih =>
      obtain ⟨hcolumn, hcolumns⟩ := List.forall_mem_cons.mp h
      obtain ⟨mapping, hmapping⟩ := exists_columnMapping_iff.mpr hcolumn
      obtain ⟨mappings, hmappings⟩ := ih hcolumns
      exact ⟨mapping :: mappings, .cons hmapping hmappings⟩

/-- **A mapping string is read as it should be** if and only if it describes columns whose indices
are `int`s, or it describes none and one of its columns fails a check. -/
theorem readsMapping_iff (s : List Char) :
    ReadsMapping s ↔
      (∃ mappings, Describes s mappings ∧ ∀ mapping ∈ mappings, mapping.columnIndex < 2 ^ 31) ∨
        ((¬ ∃ mappings, Describes s mappings) ∧ ∃ column ∈ columnsOf s, ¬ Passes column) := by
  constructor
  · intro h
    by_cases hdescribes : ∃ mappings, Describes s mappings
    · obtain ⟨mappings, hmappings⟩ := hdescribes
      have hread := createParquetIngestor_eq_ok_iff.mp ((h false mappings).mpr hmappings)
      exact .inl ⟨mappings, hmappings, (eq_of_forall₂_isColumn hmappings.columns hread.1).1⟩
    · refine .inr ⟨hdescribes, ?_⟩
      by_contra hpass
      have hall : ∀ column ∈ columnsOf s, Passes column := fun column hcolumn =>
        not_not.mp fun hfail => hpass ⟨column, hcolumn, hfail⟩
      -- the flag may say that there is a column of text
      obtain ⟨mappings, hmappings⟩ := exists_forall₂_of_passes hall
      exact hdescribes ⟨mappings, (h true mappings).mp
        (createParquetIngestor_eq_ok_iff.mpr ⟨hmappings, .inl rfl⟩)⟩
  · rintro (⟨mappings, hmappings, hint⟩ | ⟨hnone, column, hcolumn, hfail⟩) foundText mappings'
    · rw [createParquetIngestor_eq_ok_iff]
      have hread := forall₂_of_isColumn hmappings.columns hint
      constructor
      · rintro ⟨hread', -⟩
        rw [(eq_of_forall₂_isColumn hmappings.columns hread').2]
        exact hmappings
      · intro hmappings'
        obtain rfl := (eq_of_forall₂_isColumn hmappings'.columns hread).2
        exact ⟨hread, .inr hmappings'.text⟩
    · refine iff_of_false (fun h => hfail ?_) fun h => hnone ⟨mappings', h⟩
      obtain ⟨hread, -⟩ := createParquetIngestor_eq_ok_iff.mp h
      obtain ⟨mapping, -, hmapping⟩ := exists_of_forall₂ hread.flip column hcolumn
      exact exists_columnMapping_iff.mp ⟨mapping, hmapping⟩

/-- A column of another kind passes, and the flag decides whether the string is accepted. -/
theorem unknown_kind_accepted : ¬ ReadsMapping "0:vector".toList := by
  intro h
  have haccepted : createParquetIngestor true "0:vector".toList = .ok [{ columnIndex := 0 }] := by
    decide
  obtain ⟨-, mapping, hmapping, htext⟩ := (h true _).mp haccepted
  rw [List.mem_singleton.mp hmapping] at htext
  cases htext

end Instinct.ParquetMapping
