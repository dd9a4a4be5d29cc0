/-
Instinct/ChunkIndices.lean

The start and end indices of a chunk, which citations are made of.

`SplitDocuments` and `SplitChildDoc_` do not know where the splitter cut a chunk.
They look for its text in the text of the parent, and append what they find to a
copy of the parent's metadata.  Who reads a field gets the first one of that name.

So the indices are those of the place where the chunk was cut if and only if the
parent has no such fields itself (or they happen to be right) and the chunk does
not stand in the text before that place (`indices_delimit_iff`).
-/
import Instinct.Retrieval
import Instinct.Seams
import Mathlib.Algebra.GroupWithZero.Nat

namespace Instinct

/-! ### The model -/

/-- `value.int_value()`: zero where the field holds something else. -/
def PrimitiveValue.intValue : PrimitiveValue → Int32
  | .int value => value
  | .string _ => 0

/-- `DocumentUtils::GetIntValueMetadataField`. -/
def Document.intValueMetadataField (doc : Document) (name : String) : Option Int32 :=
  (doc.metadataFieldValue name).map (·.intValue)

/-- A chunk, and the byte of the text at which the splitter cut it. -/
structure TextCut where
  place : Nat
  chunk : String
  deriving Repr, DecidableEq

/-- The byte behind the chunk. -/
def TextCut.stop (cut : TextCut) : Nat := cut.place + cut.chunk.utf8ByteSize

/-- The two functions that make documents of chunks. -/
inductive ChunkCall
  | splitDocuments
  | splitChildDoc
  deriving Repr, DecidableEq

/-- The documents that a call makes with a splitter, whose `SplitText` gives the chunks only. -/
def ChunkCall.run (call : ChunkCall) (cutText : String → List TextCut) (parent : Document) :
    Except Exn (List Document) :=
  let splitText := fun text => (cutText text).map (·.chunk)
  match call with
  | splitDocuments => .ok (splitDocument splitText parent)
  | splitChildDoc => Instinct.splitChildDoc splitText parent

/-! ### Bytes -/

/-- The bytes of a text in UTF-8. -/
def utf8Bytes (cs : List Char) : Nat := (cs.map Char.utf8Size).sum

/-- The chunk stands in the text where it was cut. -/
def TextCut.StandsIn (cut : TextCut) (text : String) : Prop :=
  ∃ front back, text.toList = front ++ (cut.chunk.toList ++ back) ∧ utf8Bytes front = cut.place

theorem findText_le {part text : List Char} {front back : List Char}
    (h : text = front ++ (part ++ back)) :
    ∃ n, findText part text = some n ∧ n ≤ utf8Bytes front := by
  induction front generalizing text with
  | nil =>
      rw [List.nil_append] at h
      cases text with
      | nil =>
          have hpart : part = [] := (List.append_eq_nil_iff.mp h.symm).1
          exact ⟨0, if_pos hpart, Nat.zero_le _⟩
      | cons c text =>
          have hstart : part.isPrefixOf (c :: text) = true := by
            rw [h]
            exact List.isPrefixOf_iff_prefix.mpr (List.prefix_append part back)
          exact ⟨0, if_pos hstart, Nat.zero_le _⟩
  | cons c front ih =>
      rw [h, List.cons_append, findText]
      split
      · exact ⟨0, rfl, Nat.zero_le _⟩
      · obtain ⟨n, hn, hle⟩ := ih rfl
        refine ⟨n + c.utf8Size, by rw [hn]; rfl, ?_⟩
        rw [utf8Bytes, List.map_cons, List.sum_cons, ← utf8Bytes]
        omega

/-! ### The fields of a chunk -/

/-- The first field of a name: that of the parent, or else the one that is appended. -/
def firstField (parent : Document) (name : String) (appended : Int32) : Option Int32 :=
  some ((parent.intValueMetadataField name).getD appended)

/-- What both functions make of a chunk. -/
structure IsStamped (parent : Document) (cut : TextCut) (doc : Document) : Prop where
  text : doc.text = cut.chunk
  start : doc.intValueMetadataField metadataSchemaChunkStartIndexKey
    = firstField parent metadataSchemaChunkStartIndexKey (startIndexOf parent.text cut.chunk)
  stop : doc.intValueMetadataField metadataSchemaChunkEndIndexKey
    = firstField parent metadataSchemaChunkEndIndexKey
        (startIndexOf parent.text cut.chunk + Int32.ofNat cut.chunk.utf8ByteSize)

theorem intValue_append {parent doc : Document} {fields : List MetadataField}
    (hdoc : doc.metadata = parent.metadata ++ fields) (name : String) {value : Int32}
    (hfields : fields.find? (fun field => field.name = name) = some ⟨name, .int value⟩) :
    doc.intValueMetadataField name = firstField parent name value := by
  rw [Document.intValueMetadataField, Document.metadataFieldValue, hdoc, List.find?_append,
    hfields, firstField, Document.intValueMetadataField, Document.metadataFieldValue]
  cases parent.metadata.find? fun field => field.name = name with
  | none => rfl
  | some field => rfl

theorem isStamped_splitDocument (cuts : List TextCut) (parent : Document) :
    List.Forall₂ (fun doc cut => IsStamped parent cut doc)
      (splitDocument (fun _ => cuts.map (·.chunk)) parent) cuts := by
  induction cuts with
  | nil => exact .nil
  | cons cut cuts ih =>
      refine .cons ⟨rfl, ?_, ?_⟩ ih
      · exact intValue_append rfl _ rfl
      · exact intValue_append rfl _ rfl

theorem isStamped_childDoc {parent doc : Document} {cut : TextCut} {pageNo : Int32}
    (h : childDoc parent cut.chunk pageNo = .ok doc) : IsStamped parent cut doc := by
  obtain ⟨⟨⟩, -, hdoc⟩ := checks_eq_ok.mp h
  obtain rfl := Except.ok.inj hdoc
  refine ⟨rfl, ?_, ?_⟩
  · exact intValue_append rfl _ rfl
  · exact intValue_append rfl _ rfl

theorem isStamped_splitChildDoc {cuts : List TextCut} {parent : Document} {docs : List Document}
    (h : splitChildDoc (fun _ => cuts.map (·.chunk)) parent = .ok docs) :
    List.Forall₂ (fun doc cut => IsStamped parent cut doc) docs cuts := by
  rw [splitChildDoc] at h
  generalize 1 = pageNo at h
  induction cuts generalizing pageNo docs with
  | nil =>
      obtain rfl := Except.ok.inj h
      exact .nil
  | cons cut cuts ih =>
      rw [List.map_cons, List.zipIdx_cons, List.mapM_cons] at h
      obtain ⟨child, hchild, h⟩ := checks_eq_ok.mp h
      obtain ⟨children, hchildren, h⟩ := checks_eq_ok.mp h
      obtain rfl := Except.ok.inj h
      exact .cons (isStamped_childDoc hchild) (ih _ hchildren)

/-- Each chunk becomes a document with its fields. -/
theorem isStamped_run {call : ChunkCall} {cutText : String → List TextCut} {parent : Document}
    {docs : List Document} (h : call.run cutText parent = .ok docs) :
    List.Forall₂ (fun doc cut => IsStamped parent cut doc) docs (cutText parent.text) := by
  cases call with
  | splitDocuments =>
      obtain rfl := Except.ok.inj h
      exact isStamped_splitDocument (cutText parent.text) parent
  | splitChildDoc => exact isStamped_splitChildDoc h

/-! ### When the indices are right -/

/-- The indices that are read delimit the document's text in the parent's, where it was cut. -/
structure Delimits (parent : Document) (cut : TextCut) (doc : Document) : Prop where
  text : doc.text = cut.chunk
  stands : cut.StandsIn parent.text
  start : (doc.intValueMetadataField metadataSchemaChunkStartIndexKey).map Int32.toInt
    = some (cut.place : Int)
  stop : (doc.intValueMetadataField metadataSchemaChunkEndIndexKey).map Int32.toInt
    = some (cut.stop : Int)

/-- The start index that is read from a document. -/
def Document.startIndex (doc : Document) : Int :=
  ((doc.intValueMetadataField metadataSchemaChunkStartIndexKey).map Int32.toInt).getD 0

/-- An index that comes out right: the one that the parent hands down, if there is any, or else
the one that is found. -/
def IndexRight (parent : Document) (cut : TextCut) (name : String) (index : Nat) : Prop :=
  match parent.intValueMetadataField name with
  | some inherited => inherited.toInt = index
  | none => findText cut.chunk.toList parent.text.toList = some cut.place ∧ index < 2 ^ 31

/-- The chunk stands where it was cut, and both indices come out right. -/
structure IsCitable (parent : Document) (cut : TextCut) : Prop where
  stands : cut.StandsIn parent.text
  start : IndexRight parent cut metadataSchemaChunkStartIndexKey cut.place
  stop : IndexRight parent cut metadataSchemaChunkEndIndexKey cut.stop

section Indices

variable {parent doc : Document} {cut : TextCut}

/-- The first occurrence of a chunk is not behind the place where it was cut. -/
theorem exists_startIndexOf (hstands : cut.StandsIn parent.text) :
    ∃ n, findText cut.chunk.toList parent.text.toList = some n ∧ n ≤ cut.place
      ∧ startIndexOf parent.text cut.chunk = Int32.ofNat n := by
  obtain ⟨front, back, htext, hplace⟩ := hstands
  obtain ⟨n, hn, hle⟩ := findText_le htext
  refine ⟨n, hn, hplace ▸ hle, ?_⟩
  rw [startIndexOf, hn]
  rfl

theorem start_iff (hstands : cut.StandsIn parent.text) :
    (startIndexOf parent.text cut.chunk).toInt = (cut.place : Int)
      ↔ findText cut.chunk.toList parent.text.toList = some cut.place ∧ cut.place < 2 ^ 31 := by
  obtain ⟨n, hn, hle, hstart⟩ := exists_startIndexOf hstands
  rw [hstart, hn, Option.some.injEq]
  exact toInt_ofNat_eq_iff hle

theorem stop_iff (hstands : cut.StandsIn parent.text) :
    (startIndexOf parent.text cut.chunk + Int32.ofNat cut.chunk.utf8ByteSize).toInt
        = (cut.stop : Int)
      ↔ findText cut.chunk.toList parent.text.toList = some cut.place ∧ cut.stop < 2 ^ 31 := by
  obtain ⟨n, hn, hle, hstart⟩ := exists_startIndexOf hstands
  have hstop : n + cut.chunk.utf8ByteSize ≤ cut.stop := by
    rw [TextCut.stop]
    omega
  rw [hstart, hn, Option.some.injEq, ← Int32.ofNat_add, toInt_ofNat_eq_iff hstop, TextCut.stop,
    Nat.add_right_cancel_iff]

/-- What is read is the inherited index, or the one that is found. -/
theorem read_iff {name : String} {appended : Int32} {index : Nat}
    (happended : appended.toInt = (index : Int)
      ↔ findText cut.chunk.toList parent.text.toList = some cut.place ∧ index < 2 ^ 31) :
    (firstField parent name appended).map Int32.toInt = some (index : Int)
      ↔ IndexRight parent cut name index := by
  rw [firstField, Option.map_some, Option.some.injEq, IndexRight]
  cases parent.intValueMetadataField name with
  | none => exact happended
  | some inherited => exact Iff.rfl

theorem delimits_iff (h : IsStamped parent cut doc) :
    Delimits parent cut doc ↔ IsCitable parent cut := by
  constructor
  · rintro ⟨-, hstands, hstart, hstop⟩
    rw [h.start] at hstart
    rw [h.stop] at hstop
    exact ⟨hstands, (read_iff (start_iff hstands)).mp hstart,
      (read_iff (stop_iff hstands)).mp hstop⟩
  · rintro ⟨hstands, hstart, hstop⟩
    refine ⟨h.text, hstands, ?_, ?_⟩
    · rw [h.start]
      exact (read_iff (start_iff hstands)).mpr hstart
    · rw [h.stop]
      exact (read_iff (stop_iff hstands)).mpr hstop

end Indices

theorem forall₂_delimits_iff {parent : Document} {docs : List Document} {cuts : List TextCut}
    (h : List.Forall₂ (fun doc cut => IsStamped parent cut doc) docs cuts) :
    List.Forall₂ (fun doc cut => Delimits parent cut doc) docs cuts
      ↔ ∀ cut ∈ cuts, IsCitable parent cut := by
  induction h with
  | nil => simp
  | cons hstamped _ ih => rw [List.forall₂_cons, List.forall_mem_cons, delimits_iff hstamped, ih]

theorem map_startIndex {parent : Document} {docs : List Document} {cuts : List TextCut}
    (h : List.Forall₂ (fun doc cut => Delimits parent cut doc) docs cuts) :
    docs.map Document.startIndex = cuts.map fun cut => (cut.place : Int) := by
  induction h with
  | nil => rfl
  | cons hdelimits _ ih =>
      rw [List.map_cons, List.map_cons, ih, Document.startIndex, hdelimits.start]
      rfl

/-- The documents of a call have indices that delimit them where they were cut, and that never
decrease. -/
def ChunkCall.Cites (call : ChunkCall) (cutText : String → List TextCut) (parent : Document) :
    Prop :=
  ∀ docs, call.run cutText parent = .ok docs →
    List.Forall₂ (fun doc cut => Delimits parent cut doc) docs (cutText parent.text)
      ∧ docs.Pairwise fun doc doc' => doc.startIndex ≤ doc'.startIndex

/-- `SplitChildDoc_` throws for a chunk whose parent does not name its file. -/
def ChunkCall.Refuses (call : ChunkCall) (cutText : String → List TextCut) (parent : Document) :
    Prop :=
  call = splitChildDoc ∧ cutText parent.text ≠ []
    ∧ (parent.stringValueMetadataField metadataSchemaFileSourceKey).all isBlankString = true

theorem childDoc_isOk_iff (parent : Document) (chunk : String) (pageNo : Int32) :
    (∃ doc, childDoc parent chunk pageNo = .ok doc)
      ↔ (parent.stringValueMetadataField metadataSchemaFileSourceKey).all isBlankString = false := by
  constructor
  · rintro ⟨doc, hdoc⟩
    obtain ⟨⟨⟩, hcheck, -⟩ := checks_eq_ok.mp hdoc
    exact assertTrue_eq_ok.mp hcheck
  · intro hsource
    exact ⟨_, checks_eq_ok.mpr ⟨(), assertTrue_of hsource, rfl⟩⟩

theorem mapM_childDoc {parent : Document}
    (h : (parent.stringValueMetadataField metadataSchemaFileSourceKey).all isBlankString = false)
    (chunks : List (String × Nat)) :
    ∃ docs, (chunks.mapM fun (chunk, i) => childDoc parent chunk (Int32.ofNat i)) = .ok docs := by
  induction chunks with
  | nil => exact ⟨[], rfl⟩
  | cons chunk chunks ih =>
      obtain ⟨doc, hdoc⟩ := (childDoc_isOk_iff parent chunk.1 (Int32.ofNat chunk.2)).mpr h
      obtain ⟨docs, hdocs⟩ := ih
      refine ⟨doc :: docs, ?_⟩
      rw [List.mapM_cons]
      exact checks_eq_ok.mpr ⟨doc, hdoc, checks_eq_ok.mpr ⟨docs, hdocs, rfl⟩⟩

theorem run_eq_ok_iff {call : ChunkCall} {cutText : String → List TextCut} {parent : Document} :
    (∃ docs, call.run cutText parent = .ok docs) ↔ ¬ call.Refuses cutText parent := by
  cases call with
  | splitDocuments => exact iff_of_true ⟨_, rfl⟩ fun hrefuses => nomatch hrefuses.1
  | splitChildDoc =>
      rw [ChunkCall.Refuses, not_and, not_and, ChunkCall.run, Instinct.splitChildDoc]
      simp only [forall_const, Bool.not_eq_true]
      constructor
      · rintro ⟨docs, hdocs⟩ hcuts
        obtain ⟨cut, cuts, hcons⟩ := List.exists_cons_of_ne_nil hcuts
        rw [hcons, List.map_cons, List.zipIdx_cons, List.mapM_cons] at hdocs
        obtain ⟨doc, hdoc, -⟩ := checks_eq_ok.mp hdocs
        exact (childDoc_isOk_iff _ _ _).mp ⟨doc, hdoc⟩
      · intro hsource
        by_cases hcuts : cutText parent.text = []
        · exact ⟨[], by rw [hcuts]; rfl⟩
        · exact mapM_childDoc (hsource hcuts) _

/-- **The indices are right** if and only if each chunk stands first where it was cut, and no
wrong index is inherited. -/
theorem indices_delimit_iff (call : ChunkCall) (cutText : String → List TextCut)
    (parent : Document) :
    call.Cites cutText parent ↔ call.Refuses cutText parent
      ∨ (∀ cut ∈ cutText parent.text, IsCitable parent cut)
        ∧ (cutText parent.text).Pairwise fun cut cut' => cut.place ≤ cut'.place := by
  by_cases hrefuses : call.Refuses cutText parent
  · refine iff_of_true (fun docs hdocs => ?_) (.inl hrefuses)
    exact absurd hrefuses (run_eq_ok_iff.mp ⟨docs, hdocs⟩)
  · obtain ⟨docs, hdocs⟩ := run_eq_ok_iff.mpr hrefuses
    have hstamped := isStamped_run hdocs
    have horder : List.Forall₂ (fun doc cut => Delimits parent cut doc) docs (cutText parent.text) →
        ((docs.Pairwise fun doc doc' => doc.startIndex ≤ doc'.startIndex)
          ↔ (cutText parent.text).Pairwise fun cut cut' => cut.place ≤ cut'.place) := by
      intro hdelimits
      have hmap := map_startIndex hdelimits
      rw [← List.pairwise_map (R := fun a b : Int => a ≤ b), hmap, List.pairwise_map]
      simp only [Int.ofNat_le]
    rw [or_iff_right hrefuses, ← forall₂_delimits_iff hstamped]
    constructor
    · intro hcites
      obtain ⟨hdelimits, hstarts⟩ := hcites docs hdocs
      exact ⟨hdelimits, (horder hdelimits).mp hstarts⟩
    · rintro ⟨hdelimits, hplaces⟩ docs' hdocs'
      obtain rfl := Except.ok.inj (hdocs.symm.trans hdocs')
      exact ⟨hdelimits, (horder hdelimits).mpr hplaces⟩

/-- The two words of a text, where they were cut. -/
def twoWords (first second : String) : String → List TextCut := fun _ =>
  [⟨0, first⟩, ⟨first.utf8ByteSize + 1, second⟩]

/-- The second of two equal words is found where the first one stands, and what an ingestor
loads hands its zeros down. -/
theorem twoWords_not_cited :
    (TextSplitter.recursive (TextSplitter.letters true) [[' '], []]).splitText 1 "ab ab".toList
        = some (.ok ["ab".toList, "ab".toList])
      ∧ ¬ ChunkCall.splitDocuments.Cites (twoWords "ab" "ab") { text := "ab ab" }
      ∧ ¬ ChunkCall.splitDocuments.Cites (twoWords "ab" "cd")
        (createNewDocument "ab cd" rootDocId 1 "file" "vs") := by
  refine ⟨rfl, fun h => ?_, fun h => ?_⟩
  · have hplaces := map_startIndex (h _ rfl).1
    exact absurd hplaces (by decide)
  · have hplaces := map_startIndex (h _ rfl).1
    exact absurd hplaces (by decide)

end Instinct
