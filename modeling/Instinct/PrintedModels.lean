/-
Instinct/PrintedModels.lean

Model files, as they are printed.

A file is loaded if and only if the vocabulary has room, the model can be made and the first
tensor of each name that it asks for has its shape and its type; then the data of the tensors
stand where the model looks for them (`load_printModel`).
-/
import Instinct.ModelFiles

namespace Instinct.Transformers

open Effects Layouts OrderedMaps

/-! ### Tensors in a file -/

/-- A tensor with its name and its data. -/
structure TensorEntry (ggml : Ggml) where
  name : Bytes
  short : name.length < 2 ^ 31
  dims : List Int32
  few : dims.length ≤ 4
  dtype : Int32
  bytes : Bytes
  filled : bytes.length = ggml.nbytes ⟨dtype, padded dims⟩

section Tensors

variable {ggml : Ggml}

/-- The name, in front. -/
def TensorEntry.label (e : TensorEntry ggml) : Bytes :=
  intBytes (Int32.ofNat e.name.length) ++ e.name

/-- The dimensions from the last to the first, and the type. -/
def TensorEntry.shape (e : TensorEntry ggml) : Bytes :=
  intBytes (Int32.ofNat e.dims.length) ++ (e.dims.reverse.flatMap intBytes ++ intBytes e.dtype)

/-- What is left out in front of the data. -/
def padding (offset : Nat) : Bytes := List.replicate (aligned offset - offset) 0

def TensorEntry.print (offset : Nat) (e : TensorEntry ggml) : Bytes :=
  e.label ++ (e.shape ++ (padding (offset + e.label.length + e.shape.length) ++ e.bytes))

def printTensors : Nat → List (TensorEntry ggml) → Bytes
  | _, [] => []
  | offset, e :: entries =>
      e.print offset ++ printTensors (offset + (e.print offset).length) entries

/-- The names, with the places of the shapes. -/
def places : Nat → List (TensorEntry ggml) → List (Bytes × Nat)
  | _, [] => []
  | offset, e :: entries =>
      (e.name, offset + e.label.length) :: places (offset + (e.print offset).length) entries

theorem le_aligned (offset : Nat) : offset ≤ aligned offset := by
  rw [aligned]
  omega

theorem length_print (offset : Nat) (e : TensorEntry ggml) :
    offset + (e.print offset).length
      = aligned (offset + e.label.length + e.shape.length) + e.bytes.length := by
  have hle := le_aligned (offset + e.label.length + e.shape.length)
  rw [TensorEntry.print, List.length_append, List.length_append, List.length_append, padding,
    List.length_replicate]
  omega

theorem print_pos (offset : Nat) (e : TensorEntry ggml) : 0 < (e.print offset).length := by
  rw [TensorEntry.print, TensorEntry.label, List.length_append, List.length_append,
    length_intBytes]
  omega

theorem length_le_printTensors (entries : List (TensorEntry ggml)) (offset : Nat) :
    entries.length ≤ (printTensors offset entries).length := by
  induction entries generalizing offset with
  | nil => exact Nat.zero_le _
  | cons e entries ih =>
      have hpos := print_pos offset e
      have hrest := ih (offset + (e.print offset).length)
      rw [printTensors, List.length_append, List.length_cons]
      omega

/-- The parts of a tensor in the data. -/
theorem stands_print {data : Bytes} {offset : Nat} {e : TensorEntry ggml}
    (h : Stands data offset (e.print offset)) :
    Stands data offset e.label ∧ Stands data (offset + e.label.length) e.shape ∧
      Stands data (aligned (offset + e.label.length + e.shape.length)) e.bytes := by
  obtain ⟨hlabel, h⟩ := stands_append.mp h
  obtain ⟨hshape, h⟩ := stands_append.mp h
  obtain ⟨-, hbytes⟩ := stands_append.mp h
  have hle := le_aligned (offset + e.label.length + e.shape.length)
  rw [padding, List.length_replicate, Nat.add_sub_cancel' hle] at hbytes
  exact ⟨hlabel, hshape, hbytes⟩

/-- The first tensor of a name is where the first place of the name says, by induction over the
tensors. -/
theorem find?_places {data : Bytes} {entries : List (TensorEntry ggml)} {offset : Nat}
    (hstands : Stands data offset (printTensors offset entries)) (name : Bytes) :
    match entries.find? fun e => e.name = name with
    | none => (places offset entries).find? (fun p => p.1 = name) = none
    | some e => ∃ place, (places offset entries).find? (fun p => p.1 = name) = some (name, place) ∧
        Stands data place e.shape ∧ Stands data (aligned (place + e.shape.length)) e.bytes := by
  induction entries generalizing offset with
  | nil => rfl
  | cons e entries ih =>
      obtain ⟨hprint, hrest⟩ := stands_append.mp hstands
      obtain ⟨-, hshape, hbytes⟩ := stands_print hprint
      rw [places, List.find?_cons, List.find?_cons]
      by_cases hname : e.name = name
      · subst hname
        simp only [decide_true]
        exact ⟨_, rfl, hshape, hbytes⟩
      · simp only [decide_eq_false hname]
        exact ih hrest

end Tensors

/-! ### The tensors are looked for -/

section Index

variable {ggml : Ggml} {offset : Nat}

theorem toInt_ofNat_of_le {n : Nat} (h : n ≤ 4) : (Int32.ofNat n).toInt = n :=
  Int32.toInt_ofNat_of_lt (by omega)

theorem reads_readString (e : TensorEntry ggml) :
    Reads (readString (Int32.ofNat e.name.length)) offset e.name e.name := by
  have hsize : (Int32.ofNat e.name.length).toInt = e.name.length := Int32.toInt_ofNat_of_lt e.short
  rw [readString, hsize, if_neg (Int.not_lt.mpr (Int.natCast_nonneg _)), Int.toNat_natCast]
  exact reads_readRaw rfl

theorem reads_readDims (e : TensorEntry ggml) :
    Reads (readDims (Int32.ofNat e.dims.length)) offset (e.dims.reverse.flatMap intBytes)
      e.dims := by
  have hfew := e.few
  have hdims := (Reads.replicate (fun a _ => reads_readI32 a) e.dims.reverse offset).map
    List.reverse
  rw [List.length_reverse, List.reverse_reverse] at hdims
  rw [readDims, toInt_ofNat_of_le e.few, if_neg (by omega), Int.toNat_natCast]
  exact hdims

theorem read_of_reads {α : Type} {x : Decoder Fault α} {loader : ModelLoader} {piece : Bytes}
    {a : α} (h : Reads x loader.ptr piece a) (hstands : Stands loader.data loader.ptr piece) :
    read x loader = (.ok a, { loader with ptr := loader.ptr + piece.length }) :=
  read_of_eq (h _ hstands)

/-- A round of `load_all_tensors`. -/
theorem loadAllTensors_round {fuel : Nat} {loader : ModelLoader} (e : TensorEntry ggml)
    (hstands : Stands loader.data loader.ptr (e.print loader.ptr)) :
    loadAllTensors ggml (fuel + 1) loader = loadAllTensors ggml fuel { loader with
      ptr := loader.ptr + (e.print loader.ptr).length
      tensorDict := loader.tensorDict.insert e.name (loader.ptr + e.label.length) } := by
  have hlength := hstands.length_le
  have hpos := print_pos loader.ptr e
  have hleft : decide (loader.ptr < loader.data.length) = true := decide_eq_true (by omega)
  obtain ⟨hlabel, hshape, -⟩ := stands_print hstands
  obtain ⟨hsize, hname⟩ := stands_append.mp hlabel
  rw [TensorEntry.label, List.length_append, ← Nat.add_assoc] at hshape
  obtain ⟨hndim, hshape⟩ := stands_append.mp hshape
  obtain ⟨hdims, hdtype⟩ := stands_append.mp hshape
  rw [loadAllTensors]
  refine (Action.bind_of_ok (Action.gets_apply _ loader)).trans ?_
  simp only [hleft, if_true]
  refine (Action.bind_of_ok (read_of_reads (reads_readI32 _) hsize)).trans ?_
  refine (Action.bind_of_ok (read_of_reads (reads_readString e) hname)).trans ?_
  refine (Action.bind_of_ok (Action.modify_apply _ _)).trans ?_
  refine (Action.bind_of_ok (read_of_reads (reads_readI32 _) hndim)).trans ?_
  refine (Action.bind_of_ok (read_of_reads (reads_readDims e) hdims)).trans ?_
  refine (Action.bind_of_ok (read_of_reads (reads_readI32 _) hdtype)).trans ?_
  refine (Action.bind_of_ok (Action.gets_apply _ _)).trans ?_
  refine (Action.bind_of_ok (Action.modify_apply _ _)).trans ?_
  rw [length_print, e.filled, TensorEntry.label, TensorEntry.shape]
  simp only [List.length_append, Nat.add_assoc]

/-- All tensors are found, by induction over them. -/
theorem loadAllTensors_printTensors {fuel : Nat} {entries : List (TensorEntry ggml)}
    {loader : ModelLoader} (hfuel : entries.length < fuel)
    (hstands : Stands loader.data loader.ptr (printTensors loader.ptr entries))
    (hend : loader.ptr + (printTensors loader.ptr entries).length = loader.data.length) :
    loadAllTensors ggml fuel loader = (.ok (), { loader with
      ptr := loader.data.length
      tensorDict := (places loader.ptr entries).foldl (fun m p => m.insert p.1 p.2)
        loader.tensorDict }) := by
  induction entries generalizing loader fuel with
  | nil =>
      obtain ⟨fuel, rfl⟩ := Nat.exists_eq_add_one_of_ne_zero (Nat.ne_zero_of_lt hfuel)
      have hptr : loader.ptr = loader.data.length := hend
      have hleft : decide (loader.ptr < loader.data.length) = false :=
        decide_eq_false (by omega)
      rw [loadAllTensors]
      refine (Action.bind_of_ok (Action.gets_apply _ loader)).trans ?_
      rw [hleft, if_neg Bool.false_ne_true, ← hptr]
      rfl
  | cons e entries ih =>
      obtain ⟨fuel, rfl⟩ := Nat.exists_eq_add_one_of_ne_zero (Nat.ne_zero_of_lt hfuel)
      obtain ⟨hprint, hrest⟩ := stands_append.mp hstands
      rw [printTensors, List.length_append, ← Nat.add_assoc] at hend
      rw [loadAllTensors_round e hprint, ih (Nat.lt_of_succ_lt_succ hfuel) hrest hend]
      rfl

end Index

/-! ### The tensors are checked -/

section Check

variable {ggml : Ggml} {offset : Nat}

/-- A tensor of a file has the shape and the type of a tensor of the model. -/
structure Fits (ggml : Ggml) (tensor : Tensor) (e : TensorEntry ggml) : Prop where
  count : e.dims.length = nDimsFor ggml tensor (Int32.ofNat e.dims.length)
  dims : e.dims = tensor.ne.take e.dims.length
  type : e.dtype = tensor.type

theorem verifies_ggmlAssert (v : Prop) [Decidable v] (assertion : String) :
    Verifies (ggmlAssert v assertion) offset [] v := by
  intro data _
  rw [ggmlAssert]
  refine ⟨fun h => ?_, fun h => ?_⟩
  · rw [if_pos h]
    rfl
  · rw [if_neg h]
    exact ⟨_, _, rfl⟩

/-- An integer is compared. -/
theorem verifies_int (z want : Int32) (assertion : String) :
    Verifies (do let read ← readI32; ggmlAssert (read = want) assertion) offset (intBytes z)
      (z = want) := by
  have hread : Verifies (do let read ← readI32; ggmlAssert (read = want) assertion) offset
      (intBytes z ++ []) (z = want) :=
    (reads_readI32 z).verifies (f := fun read => ggmlAssert (read = want) assertion)
      (verifies_ggmlAssert (z = want) assertion)
  rwa [List.append_nil] at hread

/-- The dimensions are compared one by one, by induction over them. -/
theorem verifies_dims {expected dims : List Int32} (hlength : dims.length = expected.length) :
    Verifies (expected.forM fun dim => do
        let dimSize ← readI32
        ggmlAssert (dimSize = dim) "dim_size == tensor->ne[i]")
      offset (dims.flatMap intBytes) (dims = expected) := by
  induction expected generalizing dims offset with
  | nil =>
      obtain rfl := List.length_eq_zero_iff.mp hlength
      exact fun data _ => ⟨fun _ => rfl, fun h => absurd rfl h⟩
  | cons want expected ih =>
      obtain ⟨dim, dims, rfl⟩ := List.exists_cons_of_ne_nil
        (fun h : dims = [] => by rw [h] at hlength; cases hlength)
      have hall := (@verifies_int offset dim want "dim_size == tensor->ne[i]").andThen
        fun _ => ih (Nat.succ_injective hlength)
      rw [List.flatMap_cons, List.cons_eq_cons]
      exact hall

/-- **A tensor passes the checks** if and only if it fits. -/
theorem verifies_checkTensor (tensor : Tensor) (hfour : tensor.ne.length = 4)
    (e : TensorEntry ggml) :
    Verifies (checkTensor ggml tensor) offset e.shape (Fits ggml tensor e) := by
  have hfew := e.few
  have hndim : (Int32.ofNat e.dims.length).toInt = e.dims.length := toInt_ofNat_of_le e.few
  generalize hcount : nDimsFor ggml tensor (Int32.ofNat e.dims.length) = count
  have hchecks : Verifies (checkTensor ggml tensor) offset e.shape
      ((Int32.ofNat e.dims.length).toInt = count ∧
        e.dims.reverse = (tensor.ne.take count).reverse ∧ e.dtype = tensor.type) := by
    rw [checkTensor, TensorEntry.shape]
    refine (reads_readI32 _).verifies ?_
    rw [hcount]
    rw [← List.nil_append (e.dims.reverse.flatMap intBytes ++ intBytes e.dtype)]
    refine (verifies_ggmlAssert ((Int32.ofNat e.dims.length).toInt = count)
      "ndim == n_dims").andThen fun h => ?_
    refine (verifies_dims ?_).andThen fun _ => verifies_int _ _ _
    rw [hndim, Nat.cast_inj] at h
    rw [List.length_reverse, List.length_reverse, List.length_take, hfour, ← h]
    omega
  have hiff : Fits ggml tensor e ↔ (Int32.ofNat e.dims.length).toInt = count ∧
      e.dims.reverse = (tensor.ne.take count).reverse ∧ e.dtype = tensor.type := by
    rw [hndim, Nat.cast_inj, List.reverse_inj]
    constructor
    · rintro ⟨hlength, hdims, htype⟩
      rw [hcount] at hlength
      exact ⟨hlength, hlength ▸ hdims, htype⟩
    · rintro ⟨hlength, hdims, htype⟩
      exact ⟨hlength.trans hcount.symm, by rw [hlength]; exact hdims, htype⟩
  rwa [hiff]

end Check

/-! ### The tensors are read -/

section Model

variable {ggml : Ggml} {entries : List (TensorEntry ggml)} {loader : ModelLoader}

/-- The first tensor of a name. -/
def firstOf (entries : List (TensorEntry ggml)) (name : String) : Option (TensorEntry ggml) :=
  entries.find? fun e => e.name = ascii name

/-- A loader that knows where the tensors are. -/
structure Knows (loader : ModelLoader) (entries : List (TensorEntry ggml)) (offset : Nat) :
    Prop where
  stands : Stands loader.data offset (printTensors offset entries)
  ends : offset + (printTensors offset entries).length = loader.data.length
  dict : loader.tensorDict = (places offset entries).foldl (fun m p => m.insert p.1 p.2) .empty

theorem Knows.find? {offset : Nat} (h : Knows loader entries offset) (name : Bytes) :
    loader.tensorDict.find? name
      = ((places offset entries).find? fun p => p.1 = name).map Prod.snd := by
  rw [h.dict, OrderedMap.find?_foldl_insert, OrderedMap.find?_empty, Option.none_or]

theorem Knows.entries_ne {offset : Nat} (h : Knows loader entries offset) (hne : entries ≠ []) :
    loader.tensorDict.entries ≠ [] := by
  obtain ⟨e, rest, rfl⟩ := List.exists_cons_of_ne_nil hne
  have hfind := h.find? e.name
  rw [places, List.find?_cons_of_pos (by simp)] at hfind
  intro hnil
  rw [OrderedMap.find?, hnil] at hfind
  cases hfind

/-- The place of a tensor is found, if a tensor has its name. -/
theorem findTensor_eq {offset : Nat} (h : Knows loader entries offset) (hne : entries ≠ [])
    (name : String) :
    match firstOf entries name with
    | none => ∃ fault, findTensor (ascii name) loader = (.error fault, loader)
    | some e => ∃ place, findTensor (ascii name) loader = (.ok (), { loader with ptr := place }) ∧
        Stands loader.data place e.shape ∧
        Stands loader.data (aligned (place + e.shape.length)) e.bytes := by
  have hfind := find?_places h.stands (ascii name)
  have hfound : findTensor (ascii name) loader
      = (loader.tensorDict.find? (ascii name)).elim
        (Action.throw (.abort "search != tensor_dict.end()")) seek loader := by
    rw [findTensor]
    refine (Action.bind_of_ok (Action.gets_apply _ loader)).trans ?_
    rw [if_pos (h.entries_ne hne)]
    cases loader.tensorDict.find? (ascii name) <;> rfl
  rw [hfound, h.find?]
  rw [firstOf]
  cases he : entries.find? fun e => e.name = ascii name with
  | none =>
      rw [he] at hfind
      simp only [hfind]
      exact ⟨_, rfl⟩
  | some e =>
      rw [he] at hfind
      obtain ⟨place, hplace, hshape, hbytes⟩ := hfind
      simp only [hplace]
      exact ⟨place, rfl, hshape, hbytes⟩

/-- A tensor of the model that the file has. -/
def Available (entries : List (TensorEntry ggml)) (want : String × Tensor) : Prop :=
  ∃ e, firstOf entries want.1 = some e ∧ Fits ggml want.2 e

/-- The data of a tensor stand at its place. -/
def DataAt (data : Bytes) (entries : List (TensorEntry ggml)) (want : String × Tensor)
    (place : Nat) : Prop :=
  ∃ e, firstOf entries want.1 = some e ∧ Stands data place e.bytes

/-- A tensor is read if and only if the file has it. -/
theorem readTensor_eq {offset : Nat} (h : Knows loader entries offset) (hne : entries ≠ [])
    {want : String × Tensor} (hfour : want.2.ne.length = 4) :
    (Available entries want → ∃ place ptr,
      readTensor ggml (ascii want.1) want.2 loader = (.ok place, { loader with ptr := ptr }) ∧
        DataAt loader.data entries want place) ∧
    (¬ Available entries want → ∃ fault loader',
      readTensor ggml (ascii want.1) want.2 loader = (.error fault, loader')) := by
  have hfind := findTensor_eq h hne want.1
  cases he : firstOf entries want.1 with
  | none =>
      rw [he] at hfind
      obtain ⟨fault, hfault⟩ := hfind
      refine ⟨fun ⟨e, hsome, _⟩ => ?_, fun _ => ⟨fault, loader, Action.bind_of_error hfault⟩⟩
      rw [he] at hsome
      cases hsome
  | some e =>
      rw [he] at hfind
      obtain ⟨place, hplace, hshape, hbytes⟩ := hfind
      obtain ⟨hpass, hstop⟩ := verifies_checkTensor want.2 hfour e loader.data hshape
      have havailable : Available entries want ↔ Fits ggml want.2 e :=
        ⟨fun ⟨_, hsome, hfits⟩ => Option.some.inj (he.symm.trans hsome) ▸ hfits,
          fun hfits => ⟨e, he, hfits⟩⟩
      rw [havailable, readTensor]
      constructor
      · intro hfits
        have hcheck : read (checkTensor ggml want.2) { loader with ptr := place }
            = (.ok (), { loader with ptr := place + e.shape.length }) := read_of_eq (hpass hfits)
        refine ⟨aligned (place + e.shape.length), aligned (place + e.shape.length)
          + ggml.nbytes want.2, ?_, e, he, hbytes⟩
        rw [Action.bind_of_ok hplace, Action.bind_of_ok hcheck]
        rfl
      · intro hfits
        obtain ⟨fault, last, hfault⟩ := hstop hfits
        have hcheck : read (checkTensor ggml want.2) { loader with ptr := place }
            = (.error fault, { loader with ptr := last }) := by
          rw [read]
          simp only [hfault]
        exact ⟨fault, _, (Action.bind_of_ok hplace).trans (Action.bind_of_error hcheck)⟩

/-- The model is read if and only if the file has all its tensors, by induction over them. -/
theorem loadModel_eq {offset : Nat} (hne : entries ≠ []) {wants : List (String × Tensor)}
    (hfour : ∀ want ∈ wants, want.2.ne.length = 4) (h : Knows loader entries offset) :
    ((∀ want ∈ wants, Available entries want) → ∃ tensors ptr,
      loadModel ggml wants loader = (.ok tensors, { loader with ptr := ptr }) ∧
        List.Forall₂ (DataAt loader.data entries) wants tensors) ∧
    ((¬ ∀ want ∈ wants, Available entries want) → ∃ fault loader',
      loadModel ggml wants loader = (.error fault, loader')) := by
  induction wants generalizing loader with
  | nil => exact ⟨fun _ => ⟨[], loader.ptr, rfl, .nil⟩,
      fun hnot => absurd (fun want hwant => absurd hwant List.not_mem_nil) hnot⟩
  | cons want wants ih =>
      obtain ⟨hfirst, hrest⟩ := List.forall_mem_cons.mp hfour
      obtain ⟨hread, hstop⟩ := readTensor_eq h hne hfirst
      rw [List.forall_mem_cons, loadModel]
      by_cases havailable : Available entries want
      · obtain ⟨place, ptr, hplace, hdata⟩ := hread havailable
        obtain ⟨hall, hnone⟩ := @ih { loader with ptr := ptr } hrest ⟨h.stands, h.ends, h.dict⟩
        rw [and_iff_right havailable, Action.bind_of_ok hplace]
        constructor
        · intro hwants
          obtain ⟨tensors, ptr', htensors, hdatas⟩ := hall hwants
          refine ⟨place :: tensors, ptr', ?_, .cons hdata hdatas⟩
          rw [Action.bind_of_ok htensors]
          rfl
        · intro hwants
          obtain ⟨fault, loader', hfault⟩ := hnone hwants
          exact ⟨fault, loader', Action.bind_of_error hfault⟩
      · obtain ⟨fault, loader', hfault⟩ := hstop havailable
        exact ⟨fun hwants => absurd hwants.1 havailable,
          fun _ => ⟨fault, loader', Action.bind_of_error hfault⟩⟩

/-- A file without tensors has none to read. -/
theorem loadModel_of_nil {want : String × Tensor} {wants : List (String × Tensor)}
    (hempty : loader.tensorDict.entries = []) (hend : loader.ptr = loader.data.length) :
    ∃ fault loader', loadModel ggml (want :: wants) loader = (.error fault, loader') := by
  have hslice : slice loader.data loader.ptr 4 = none := by
    rw [slice, hend, if_neg (by omega)]
  have hread : read readI32 loader
      = (.error (.undefinedBehaviour "buffer + offset"), loader) := by
    have htake : readI32 loader.data loader.ptr
        = (.error (.undefinedBehaviour "buffer + offset"), loader.ptr) := by
      refine Action.bind_of_error ?_
      rw [readRaw, Decoder.take, hslice]
    rw [read, htake]
  have hfind : findTensor (ascii want.1) loader
      = (.error (.undefinedBehaviour "buffer + offset"), loader) := by
    rw [findTensor]
    refine (Action.bind_of_ok (Action.gets_apply _ loader)).trans ?_
    rw [if_neg (not_not.mpr hempty)]
    exact Action.bind_of_error hread
  exact ⟨_, _, Action.bind_of_error (Action.bind_of_error hfind)⟩

end Model

/-! ### The main result -/

/-- The headers of a file. -/
def printHeader : Bytes := ascii "ggml" ++ (intBytes BGE_M3_RERANKER ++ intBytes 1)

def Config.print (config : Config) : Bytes :=
  intBytes config.dtype ++ (intBytes config.vocabSize ++ (intBytes config.hiddenSize
    ++ (intBytes config.numAttentionHeads ++ (intBytes config.numHiddenLayers
    ++ (intBytes config.intermediateSize ++ (intBytes config.maxLength
    ++ (intBytes config.bosTokenId ++ (intBytes config.eosTokenId ++ (intBytes config.padTokenId
    ++ intBytes config.sepTokenId)))))))))

/-- A file in front of its tensors. -/
def printFront (config : Config) (words : List WordEntry) (stop : { z : Int32 // z.toInt < 0 }) :
    Bytes :=
  printHeader ++ (config.print ++ printVocab words stop)

/-- A model file. -/
def printModel {ggml : Ggml} (config : Config) (words : List WordEntry)
    (stop : { z : Int32 // z.toInt < 0 }) (entries : List (TensorEntry ggml)) : Bytes :=
  printFront config words stop ++ printTensors (printFront config words stop).length entries

/-- What a model file needs to be loaded. -/
structure Complete {ggml : Ggml} (config : Config) (words : List WordEntry)
    (entries : List (TensorEntry ggml)) : Prop where
  room : (words.length : Int) ≤ config.vocabSize.toInt + 100
  makes : checkConfig config = .ok ()
  tensors : ∀ want ∈ modelTensors config, Available entries want

section Main

variable {ggml : Ggml} {config : Config} {words : List WordEntry}
  {stop : { z : Int32 // z.toInt < 0 }} {entries : List (TensorEntry ggml)}

theorem reads_readHeader : Reads readHeader 0 printHeader () := by
  have hmagic : Reads (readString 4) 0 (ascii "ggml") (ascii "ggml") := by
    rw [readString, if_neg (by decide)]
    exact reads_readRaw (by decide)
  have hassert : Reads (ggmlAssert (ascii "ggml" = ascii "ggml") "magic == \"ggml\"")
      (0 + (ascii "ggml").length) [] () := fun data hstands =>
    (verifies_ggmlAssert _ _ data hstands).1 rfl
  refine hmagic.bind (hassert.bind ((reads_readI32 BGE_M3_RERANKER).bind ?_))
  simp only [if_true]
  exact fun data hstands => (verifies_int 1 1 "version == 1" data hstands).1 rfl

theorem reads_readConfig {offset : Nat} (config : Config) :
    Reads readConfig offset config.print config := by
  rw [Config.print]
  refine (reads_readI32 _).bind ((reads_readI32 _).bind ((reads_readI32 _).bind
    ((reads_readI32 _).bind ((reads_readI32 _).bind ((reads_readI32 _).bind
    ((reads_readI32 _).bind ((reads_readI32 _).bind ((reads_readI32 _).bind
    ((reads_readI32 _).bind ?_)))))))))
  exact (reads_readI32 _).map _

theorem length_printHeader : printHeader.length = 12 := by decide

theorem length_print_config (config : Config) : config.print.length = 44 := by
  simp only [Config.print, List.length_append, length_intBytes]

theorem printModel_eq : printModel config words stop entries = printHeader ++ (config.print
    ++ (printVocab words stop ++ printTensors (printFront config words stop).length entries)) := by
  simp only [printModel, printFront, List.append_assoc]

/-- The headers and the configuration of a file. -/
theorem readFront_printModel :
    readHeader (printModel config words stop entries) 0 = (.ok (), 12) ∧
      readConfig (printModel config words stop entries) 12 = (.ok config, 56) := by
  have hall := stands_self (printModel config words stop entries)
  nth_rewrite 2 [printModel_eq] at hall
  obtain ⟨hheader, hall⟩ := stands_append.mp hall
  obtain ⟨hconfig, -⟩ := stands_append.mp hall
  rw [length_printHeader] at hconfig
  constructor
  · rw [← length_printHeader]
    exact (reads_readHeader _ hheader).trans (by rw [Nat.zero_add])
  · have hlength : 56 = 0 + 12 + config.print.length := by rw [length_print_config]
    rw [hlength]
    exact reads_readConfig config _ hconfig

/-- What is behind the configuration. -/
theorem drop_printModel : (printModel config words stop entries).drop 56
    = printVocab words stop ++ printTensors (printFront config words stop).length entries := by
  have hlength : 56 = printHeader.length + config.print.length := by
    rw [length_printHeader, length_print_config]
  rw [printModel_eq, hlength, ← List.drop_drop, List.drop_left, List.drop_left]

/-- The front of a file that has room for its vocabulary. -/
theorem front_printModel (hroom : (words.length : Int) ≤ config.vocabSize.toInt + 100) :
    Front (printModel config words stop entries) (config, VocabState.new.loaded words) 12 56
      (printFront config words stop).length := by
  obtain ⟨hheader, hconfig⟩ := @readFront_printModel ggml config words stop entries
  refine ⟨hheader, hconfig, (printVocab words stop).length, ?_, ?_⟩
  · show VocabState.new.load _ config.vocabSize = _
    rw [drop_printModel, load_of_room _ _ _ _ hroom]
  · rw [printFront, List.length_append, List.length_append, length_printHeader,
      length_print_config]
    omega

/-- The tensors of a file are found. -/
theorem indexTensors_printModel {loader : ModelLoader}
    (hdata : loader.data = printModel config words stop entries)
    (hptr : loader.ptr = (printFront config words stop).length)
    (hfresh : loader.offsetTensors = 0) :
    ∃ dict, indexTensors ggml loader = (.ok (), { loader with
        ptr := loader.data.length, offsetTensors := loader.ptr, tensorDict := dict }) ∧
      Knows { loader with
        ptr := loader.data.length, offsetTensors := loader.ptr, tensorDict := dict }
        entries loader.ptr := by
  have hstands : Stands loader.data loader.ptr (printTensors loader.ptr entries) := by
    rw [hdata, hptr, printModel]
    exact ⟨_, [], (List.append_nil _).symm, rfl⟩
  have hend : loader.ptr + (printTensors loader.ptr entries).length = loader.data.length := by
    rw [hdata, hptr, printModel, List.length_append]
  have hfuel : entries.length < loader.data.length + 1 := by
    have hle := length_le_printTensors entries loader.ptr
    omega
  have hload := @loadAllTensors_printTensors ggml (loader.data.length + 1) entries
    { loader with offsetTensors := loader.ptr, tensorDict := .empty } hfuel hstands hend
  refine ⟨_, ?_, hstands, hend, rfl⟩
  rw [indexTensors]
  refine (Action.bind_of_ok (Action.gets_apply _ loader)).trans ?_
  rw [if_pos hfresh]
  exact hload

/-- All four dimensions of the tensors of the model are there. -/
theorem length_ne_modelTensors {want : String × Tensor} (h : want ∈ modelTensors config) :
    want.2.ne.length = 4 := by
  have hlinear : ∀ {name inFeatures outFeatures} {want : String × Tensor},
      want ∈ linear config name inFeatures outFeatures → want.2.ne.length = 4 := by
    intro name inFeatures outFeatures want h
    simp only [linear, List.mem_cons, List.not_mem_nil, or_false] at h
    rcases h with rfl | rfl <;> rfl
  have hnorm : ∀ {name normalizedShape} {want : String × Tensor},
      want ∈ layerNorm name normalizedShape → want.2.ne.length = 4 := by
    intro name normalizedShape want h
    simp only [layerNorm, List.mem_cons, List.not_mem_nil, or_false] at h
    rcases h with rfl | rfl <;> rfl
  have hlayer : ∀ {i : Nat} {want : String × Tensor}, want ∈ layerTensors config i →
      want.2.ne.length = 4 := by
    intro i want h
    simp only [layerTensors, List.mem_append] at h
    rcases h with ((((((h | h) | h) | h) | h) | h) | h) | h
    all_goals first | exact hlinear h | exact hnorm h
  simp only [modelTensors, List.mem_append, List.mem_flatMap] at h
  rcases h with (((h | h) | ⟨i, -, h⟩) | h) | h
  · simp only [List.mem_cons, List.not_mem_nil, or_false] at h
    rcases h with rfl | rfl <;> rfl
  · exact hnorm h
  · exact hlayer h
  · exact hlinear h
  · exact hlinear h

/-- The model is read if and only if it can be made and the file has all its tensors. -/
theorem loadBack_eq {loader : ModelLoader} (h : Knows loader entries loader.offsetTensors) :
    ((checkConfig config = .ok () ∧ ∀ want ∈ modelTensors config, Available entries want) →
      ∃ tensors loader', loadBack ggml config loader = (.ok tensors, loader') ∧
        List.Forall₂ (DataAt loader.data entries) (modelTensors config) tensors) ∧
    (¬ (checkConfig config = .ok () ∧ ∀ want ∈ modelTensors config, Available entries want) →
      ∃ fault loader', loadBack ggml config loader = (.error fault, loader')) := by
  have hback : loadBack ggml config loader
      = (Action.ofExcept (checkConfig config) >>= fun _ => loadModel ggml (modelTensors config))
        { loader with ptr := loader.offsetTensors } := rfl
  rw [hback]
  cases hcheck : checkConfig config with
  | error fault => exact ⟨fun h => absurd h.1 (fun hok => by cases hok), fun _ => ⟨fault, _, rfl⟩⟩
  | ok _ =>
      rw [Action.ofExcept_ok_bind, and_iff_right rfl]
      by_cases hne : entries = []
      · subst hne
        have hnil : loader.tensorDict.entries = [] := by
          rw [h.dict]
          rfl
        obtain ⟨want, wants, hwants⟩ : ∃ want wants, modelTensors config = want :: wants :=
          ⟨_, _, rfl⟩
        obtain ⟨fault, loader', hfault⟩ := @loadModel_of_nil ggml
          { loader with ptr := loader.offsetTensors } want wants hnil h.ends
        rw [hwants]
        refine ⟨fun hall => ?_, fun _ => ⟨fault, loader', hfault⟩⟩
        obtain ⟨e, he, -⟩ := hall want List.mem_cons_self
        cases he
      · obtain ⟨hall, hnone⟩ := @loadModel_eq ggml entries
          { loader with ptr := loader.offsetTensors } _ hne _
          (fun want hwant => length_ne_modelTensors hwant) ⟨h.stands, h.ends, h.dict⟩
        refine ⟨fun hwants => ?_, hnone⟩
        obtain ⟨tensors, ptr, htensors, hdata⟩ := hall hwants
        exact ⟨tensors, _, htensors, hdata⟩

theorem eq_of_fst {α β : Type} {result : α × β} {a : α} (h : result.1 = a) :
    result = (a, result.2) := Prod.ext h rfl

/-- With room for the vocabulary, the loader comes to the model. -/
theorem loadWith_of_room (hroom : (words.length : Int) ≤ config.vocabSize.toInt + 100) :
    ∃ loader, loader.data = printModel config words stop entries ∧
      Knows loader entries loader.offsetTensors ∧
      loadWith ggml { data := printModel config words stop entries }
        = (loadBack ggml config >>= fun tensors =>
            pure ⟨config, VocabState.new.loaded words, tensors⟩) loader := by
  have hfront := @loadFront_of_front { data := printModel config words stop entries } _ _ _ _
    (@front_printModel ggml config words stop entries hroom) (.inl rfl)
  obtain ⟨dict, hindex, hknows⟩ := @indexTensors_printModel ggml config words stop entries
    { data := printModel config words stop entries, ptr := (printFront config words stop).length,
      offsetConfig := 12, offsetTokenizer := 56 } rfl rfl rfl
  refine ⟨_, rfl, hknows, ?_⟩
  rw [loadWith, Action.bind_of_ok hfront, Action.bind_of_ok hindex]

/-- Without it, the loader does not. -/
theorem loadWith_of_no_room (hroom : ¬ (words.length : Int) ≤ config.vocabSize.toInt + 100)
    (loaded : Loaded) :
    (loadWith ggml { data := printModel config words stop entries }).1 ≠ .ok loaded := by
  intro hok
  have hload := eq_of_fst hok
  rw [loadWith] at hload
  obtain ⟨front, loader, hfront, -⟩ := Action.ok_of_bind hload
  obtain ⟨p, q, r, hparts, -⟩ := front_of_loadFront rfl hfront
  -- the headers and the configuration are read, so it is the vocabulary that stops the loader
  obtain ⟨hheader, hconfig⟩ := @readFront_printModel ggml config words stop entries
  obtain rfl : p = 12 := congrArg Prod.snd (hparts.header.symm.trans hheader)
  have hsame := hparts.config.symm.trans hconfig
  obtain rfl : q = 56 := congrArg Prod.snd hsame
  have hfirst : front.1 = config := Except.ok.inj (congrArg Prod.fst hsame)
  obtain ⟨size, hvocab, -⟩ := hparts.vocab
  obtain ⟨fault, hfault⟩ := load_of_no_room VocabState.new words stop
    (printTensors (printFront config words stop).length entries) hroom
  rw [hfirst, drop_printModel, hfault] at hvocab
  cases hvocab

/-- **Main result.**  A printed file is loaded if and only if it is complete, and then the
configuration and the vocabulary are as they were printed, and for each tensor of the model the
data of the first tensor with its name stand at the place that it is given. -/
theorem load_printModel (ggml : Ggml) (config : Config) (words : List WordEntry)
    (stop : { z : Int32 // z.toInt < 0 }) (entries : List (TensorEntry ggml)) :
    ((∃ loaded, (loadWith ggml { data := printModel config words stop entries }).1 = .ok loaded) ↔
      Complete config words entries) ∧
    ∀ loaded, (loadWith ggml { data := printModel config words stop entries }).1 = .ok loaded →
      loaded.config = config ∧ loaded.vocab = VocabState.new.loaded words ∧
      List.Forall₂ (DataAt (printModel config words stop entries) entries) (modelTensors config)
        loaded.tensors := by
  by_cases hroom : (words.length : Int) ≤ config.vocabSize.toInt + 100
  · obtain ⟨loader, hdata, hknows, hload⟩ := @loadWith_of_room ggml config words stop entries hroom
    rw [hload, ← hdata]
    obtain ⟨hpass, hstop⟩ := @loadBack_eq ggml config entries loader hknows
    by_cases hall : checkConfig config = .ok () ∧ ∀ want ∈ modelTensors config,
        Available entries want
    · obtain ⟨tensors, loader', hback, hplaces⟩ := hpass hall
      rw [Action.bind_of_ok hback]
      refine ⟨⟨fun _ => ⟨hroom, hall.1, hall.2⟩, fun _ => ⟨_, rfl⟩⟩, fun loaded hok => ?_⟩
      obtain rfl := Except.ok.inj hok
      exact ⟨rfl, rfl, hplaces⟩
    · obtain ⟨fault, loader', hback⟩ := hstop hall
      rw [Action.bind_of_error hback]
      refine ⟨⟨?_, fun h => absurd ⟨h.makes, h.tensors⟩ hall⟩, ?_⟩
      · rintro ⟨loaded, ⟨⟩⟩
      · rintro loaded ⟨⟩
  · have hnot := @loadWith_of_no_room ggml config words stop entries hroom
    exact ⟨⟨fun ⟨loaded, hok⟩ => absurd hok (hnot loaded), fun h => absurd h.room hroom⟩,
      fun loaded hok => absurd hok (hnot loaded)⟩

end Main

end Instinct.Transformers
