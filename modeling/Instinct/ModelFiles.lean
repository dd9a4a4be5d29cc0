/-
Instinct/ModelFiles.lean

`ModelLoader` and `ModelFactory`: models from files.

A file has a header, a configuration, a vocabulary and tensors, the data of which are aligned.
A loader goes through the tensors once and keeps where they are; the factory keeps its loaders,
also those that have failed.  So a file that has been loaded is loaded again as by a new loader,
while one on which the loader has thrown may be loaded the second time (`loads_eq_fresh`).

The files do not change while the process runs.  The sizes of the tensor library are total
here; tensors of a type that it does not have are outside the model.
-/
import Instinct.VocabFiles

namespace Instinct.Transformers

open Effects Layouts OrderedMaps

/-! ### Tensors -/

/-- A tensor, by its type and its four dimensions. -/
structure Tensor where
  type : Int32
  ne : List Int32

/-- What the loader asks of the tensor library: the dimensions that count, and the size of the data
of a tensor. -/
structure Ggml where
  nDims : List Int32 → Nat
  nbytes : Tensor → Nat

/-- A shape with all four dimensions. -/
def padded (dims : List Int32) : List Int32 := dims ++ List.replicate (4 - dims.length) 1

/-- `MEM_ALIGNED`. -/
def aligned (offset : Nat) : Nat := (offset + 15) / 16 * 16

/-! ### The loader -/

/-- `ModelLoader`, over the mapped file. -/
structure ModelLoader where
  data : Bytes
  ptr : Nat := 0
  offsetConfig : Nat := 0
  offsetTokenizer : Nat := 0
  offsetTensors : Nat := 0
  tensorDict : OrderedMap Bytes Nat := .empty

/-- What is read from where the loader is. -/
def read {α : Type} (x : Decoder Fault α) : Action Fault ModelLoader α := fun loader =>
  ((x loader.data loader.ptr).1, { loader with ptr := (x loader.data loader.ptr).2 })

/-- `seek` from the start. -/
def seek (offset : Nat) : Action Fault ModelLoader Unit :=
  Action.modify fun loader => { loader with ptr := offset }

/-- `tell`. -/
def tell : Action Fault ModelLoader Nat := Action.gets ModelLoader.ptr

/-- `GGML_ASSERT`. -/
def ggmlAssert (v : Prop) [Decidable v] (assertion : String) : Decoder Fault Unit :=
  if v then pure () else fail (.abort assertion)

/-- `read_string` of a loader.  A negative size is one that no string has. -/
def readString (length : Int32) : Decoder Fault Bytes :=
  if length.toInt < 0 then fail (.lengthError "basic_string::_M_create")
  else readRaw length.toInt.toNat

/-- The dimensions of a tensor, which come in from the last to the first.  The array that takes them
has four places. -/
def readDims (ndim : Int32) : Decoder Fault (List Int32) :=
  if 4 < ndim.toInt then fail (.undefinedBehaviour "ne[i]")
  else do
    let dims ← readI32.replicate ndim.toInt.toNat
    pure dims.reverse

/-- The loop of `load_all_tensors`, with fuel for each tensor. -/
def loadAllTensors (ggml : Ggml) : Nat → Action Fault ModelLoader Unit
  | 0 => Action.throw (.undefinedBehaviour "load_all_tensors")
  | fuel + 1 => do
      let left ← Action.gets fun loader => decide (loader.ptr < loader.data.length)
      if left = true then do
        let nameSize ← read readI32
        let weightName ← read (readString nameSize)
        Action.modify fun loader =>
          { loader with tensorDict := loader.tensorDict.insert weightName loader.ptr }
        let ndim ← read readI32
        let dims ← read (readDims ndim)
        let dtype ← read readI32
        let dataOffset ← Action.gets fun loader => aligned loader.ptr
        seek (dataOffset + ggml.nbytes ⟨dtype, padded dims⟩)
        loadAllTensors ggml fuel
      else pure ()

/-- `n_dims` of `read_tensor`, with the fix for a row that is stored as a matrix. -/
def nDimsFor (ggml : Ggml) (tensor : Tensor) (ndim : Int32) : Nat :=
  if ggml.nDims tensor.ne = 1 ∧ ndim = 2 ∧ tensor.ne[1]? = some 1 then 2
  else ggml.nDims tensor.ne

/-- The checks of `read_tensor` on the shape and the type. -/
def checkTensor (ggml : Ggml) (tensor : Tensor) : Decoder Fault Unit := do
  let ndim ← readI32
  ggmlAssert (ndim.toInt = nDimsFor ggml tensor ndim) "ndim == n_dims"
  (tensor.ne.take (nDimsFor ggml tensor ndim)).reverse.forM fun dim => do
    let dimSize ← readI32
    ggmlAssert (dimSize = dim) "dim_size == tensor->ne[i]"
  let dtype ← readI32
  ggmlAssert (dtype = tensor.type) "dtype == tensor->type"

/-- The start of `read_tensor`: the place of the shape. -/
def findTensor (name : Bytes) : Action Fault ModelLoader Unit := do
  let tensorDict ← Action.gets ModelLoader.tensorDict
  if tensorDict.entries ≠ [] then
    match tensorDict.find? name with
    | some offset => seek offset
    | none => Action.throw (.abort "search != tensor_dict.end()")
  else do
    let nameSize ← read readI32
    read (ggmlAssert (nameSize.toInt = name.length) "name_size == (int)name.size()")
    let weightName ← read (readString nameSize)
    read (ggmlAssert (weightName = name) "weight_name == name")

/-- `read_tensor`, with the place of the data. -/
def readTensor (ggml : Ggml) (name : Bytes) (tensor : Tensor) : Action Fault ModelLoader Nat := do
  findTensor name
  read (checkTensor ggml tensor)
  let dataOffset ← Action.gets fun loader => aligned loader.ptr
  seek (dataOffset + ggml.nbytes tensor)
  pure dataOffset

/-! ### The model -/

/-- `BaseConfig`. -/
structure Config where
  dtype : Int32
  vocabSize : Int32
  hiddenSize : Int32
  numAttentionHeads : Int32
  numHiddenLayers : Int32
  intermediateSize : Int32
  maxLength : Int32
  bosTokenId : Int32
  eosTokenId : Int32
  padTokenId : Int32
  sepTokenId : Int32

/-- `read_basic` of a configuration. -/
def readConfig : Decoder Fault Config := do
  let dtype ← readI32
  let vocabSize ← readI32
  let hiddenSize ← readI32
  let numAttentionHeads ← readI32
  let numHiddenLayers ← readI32
  let intermediateSize ← readI32
  let maxLength ← readI32
  let bosTokenId ← readI32
  let eosTokenId ← readI32
  let padTokenId ← readI32
  let sepTokenId ← readI32
  pure ⟨dtype, vocabSize, hiddenSize, numAttentionHeads, numHiddenLayers, intermediateSize,
    maxLength, bosTokenId, eosTokenId, padTokenId, sepTokenId⟩

/-- `GGML_TYPE_F32`. -/
def GGML_TYPE_F32 : Int32 := 0

/-- The tensors of a `Linear`. -/
def linear (config : Config) (name : String) (inFeatures outFeatures : Int32) :
    List (String × Tensor) :=
  [(name ++ ".weight", ⟨config.dtype, padded [inFeatures, outFeatures]⟩),
    (name ++ ".bias", ⟨GGML_TYPE_F32, padded [outFeatures]⟩)]

/-- The tensors of a `LayerNorm`. -/
def layerNorm (name : String) (normalizedShape : Int32) : List (String × Tensor) :=
  [(name ++ ".weight", ⟨GGML_TYPE_F32, padded [normalizedShape]⟩),
    (name ++ ".bias", ⟨GGML_TYPE_F32, padded [normalizedShape]⟩)]

/-- The tensors of a `RobertaBlock`. -/
def layerTensors (config : Config) (i : Nat) : List (String × Tensor) :=
  let layerPrefix := "encoder.layer." ++ toString i ++ "."
  let headDim := config.hiddenSize / config.numAttentionHeads
  linear config (layerPrefix ++ "attention.self.query") config.hiddenSize
      (headDim * config.numAttentionHeads)
    ++ linear config (layerPrefix ++ "attention.self.key") config.hiddenSize
      (headDim * config.numAttentionHeads)
    ++ linear config (layerPrefix ++ "attention.self.value") config.hiddenSize
      (headDim * config.numAttentionHeads)
    ++ linear config (layerPrefix ++ "attention.output.dense")
      (headDim * config.numAttentionHeads) config.hiddenSize
    ++ layerNorm (layerPrefix ++ "attention.output.LayerNorm") config.hiddenSize
    ++ linear config (layerPrefix ++ "intermediate.dense") config.hiddenSize
      config.intermediateSize
    ++ linear config (layerPrefix ++ "output.dense") config.intermediateSize config.hiddenSize
    ++ layerNorm (layerPrefix ++ "output.LayerNorm") config.hiddenSize

/-- The tensors of a `BGEM3RerankerModel`, in the order in which they are read. -/
def modelTensors (config : Config) : List (String × Tensor) :=
  [("embeddings.word_embeddings.weight",
      ⟨config.dtype, padded [config.hiddenSize, config.vocabSize]⟩),
    ("embeddings.position_embeddings.weight",
      ⟨config.dtype, padded [config.hiddenSize, config.maxLength]⟩)]
    ++ layerNorm "embeddings.LayerNorm" config.hiddenSize
    ++ (List.range config.numHiddenLayers.toInt.toNat).flatMap (layerTensors config)
    ++ linear config "classifier.dense" config.hiddenSize config.hiddenSize
    ++ linear config "classifier.out_proj" config.hiddenSize 1

/-- The bytes of a text without other characters. -/
def ascii (text : String) : Bytes := text.toList.map Char.toUInt8

/-- `load` of a model, with the places of its data. -/
def loadModel (ggml : Ggml) : List (String × Tensor) → Action Fault ModelLoader (List Nat)
  | [] => pure []
  | (name, tensor) :: tensors => do
      let dataOffset ← readTensor ggml (ascii name) tensor
      let rest ← loadModel ggml tensors
      pure (dataOffset :: rest)

/-! ### The factory -/

/-- `BGE_M3_RERANKER`. -/
def BGE_M3_RERANKER : Int32 := 0x10000103

/-- The headers. -/
def readHeader : Decoder Fault Unit := do
  let magic ← readString 4
  ggmlAssert (magic = ascii "ggml") "magic == \"ggml\""
  let modelType ← readI32
  let version ← readI32
  if modelType = BGE_M3_RERANKER then ggmlAssert (version = 1) "version == 1"
  else fail (.abort "false")

/-- What the model cannot be made with. -/
def checkConfig (config : Config) : Except Fault Unit :=
  if config.numHiddenLayers.toInt < 0 then .error (.undefinedBehaviour "num_hidden_layers")
  else if 0 < config.numHiddenLayers.toInt ∧ config.numAttentionHeads = 0 then
    .error (.undefinedBehaviour "hidden_size / num_attention_heads")
  else .ok ()

/-- A tokenizer and a model, as the factory returns them. -/
structure Loaded where
  config : Config
  vocab : VocabState
  tensors : List Nat

/-- A `UnigramProcessor` that has loaded nothing. -/
def VocabState.new : VocabState := ⟨⟨.empty, []⟩, 0, 0⟩

/-- The headers, the configuration and the tokenizer. -/
def loadFront : Action Fault ModelLoader (Config × VocabState) := do
  seek 0
  read readHeader
  Action.modify fun loader =>
    if loader.offsetConfig = 0 then { loader with offsetConfig := loader.ptr }
    else { loader with ptr := loader.offsetConfig }
  let config ← read readConfig
  Action.modify fun loader => { loader with offsetTokenizer := loader.ptr }
  let buffer ← Action.gets fun loader => loader.data.drop loader.ptr
  let proto ← Action.ofExcept (VocabState.new.load buffer config.vocabSize)
  Action.modify fun loader => { loader with ptr := loader.ptr + proto.1 }
  pure (config, proto.2)

/-- The tensors are looked for only once. -/
def indexTensors (ggml : Ggml) : Action Fault ModelLoader Unit := do
  let offsetTensors ← Action.gets ModelLoader.offsetTensors
  if offsetTensors = 0 then do
    let size ← Action.gets fun loader => loader.data.length
    Action.modify fun loader => { loader with offsetTensors := loader.ptr, tensorDict := .empty }
    loadAllTensors ggml (size + 1)
  else pure ()

/-- The model, from where the tensors start. -/
def loadBack (ggml : Ggml) (config : Config) : Action Fault ModelLoader (List Nat) := do
  let offsetTensors ← Action.gets ModelLoader.offsetTensors
  seek offsetTensors
  Action.ofExcept (checkConfig config)
  loadModel ggml (modelTensors config)

/-- `load` and `load_`, with the loader of the file. -/
def loadWith (ggml : Ggml) : Action Fault ModelLoader Loaded := do
  let front ← loadFront
  indexTensors ggml
  let tensors ← loadBack ggml front.1
  pure ⟨front.1, front.2, tensors⟩

/-- `ModelFactory`, by the loaders of its paths. -/
abbrev ModelFactory := OrderedMap String ModelLoader

/-- `ModelFactory::load`, with what the file holds by then. -/
def ModelFactory.load (ggml : Ggml) (path : String) (file : Bytes) :
    Action Fault ModelFactory Loaded := fun loaders =>
  let loader := (loaders.find? path).getD { data := file }
  ((loadWith ggml loader).1, loaders.set path (loadWith ggml loader).2)

/-- A length error is an exception.  The other faults end the process. -/
def Fault.endsProcess : Fault → Bool
  | .lengthError _ => false
  | .abort _ | .undefinedBehaviour _ => true

/-- A load that the process does not outlive. -/
def isLast : Except Fault Loaded → Bool
  | .ok _ => false
  | .error fault => fault.endsProcess

/-- What the loads of some paths answer, as long as the process runs. -/
def loads (ggml : Ggml) (file : String → Bytes) :
    List String → ModelFactory → List (Except Fault Loaded)
  | [], _ => []
  | path :: paths, loaders =>
      let load := ModelFactory.load ggml path (file path) loaders
      load.1 :: if isLast load.1 then [] else loads ggml file paths load.2

/-! ### A loader that is used again -/

section Again

variable {ggml : Ggml} {loader loader' : ModelLoader}

theorem read_of_eq {α : Type} {x : Decoder Fault α} {r : Except Fault α} {last : Nat}
    (h : x loader.data loader.ptr = (r, last)) :
    read x loader = (r, { loader with ptr := last }) := by
  rw [read, h]

/-- What a loader keeps apart from its place. -/
def ModelLoader.rest (loader : ModelLoader) : ModelLoader := { loader with ptr := 0 }

/-- What it keeps apart from its place and its dictionary. -/
def ModelLoader.offsets (loader : ModelLoader) : ModelLoader :=
  { loader with ptr := 0, tensorDict := .empty }

theorem keeps_read {α : Type} (x : Decoder Fault α) :
    Action.Keeps ModelLoader.rest (read x) := fun _ => rfl

theorem keeps_seek (offset : Nat) : Action.Keeps ModelLoader.rest (seek offset) := fun _ => rfl

theorem keeps_findTensor (name : Bytes) :
    Action.Keeps ModelLoader.rest (findTensor name) := by
  refine Action.keeps_bind (Action.keeps_gets _) fun dict => Action.keeps_ite ?_ ?_
  · split
    · exact keeps_seek _
    · exact fun _ => rfl
  · exact Action.keeps_bind (keeps_read _) fun _ => Action.keeps_bind (keeps_read _) fun _ =>
      Action.keeps_bind (keeps_read _) fun _ => keeps_read _

theorem keeps_readTensor (name : Bytes) (tensor : Tensor) :
    Action.Keeps ModelLoader.rest (readTensor ggml name tensor) :=
  Action.keeps_bind (keeps_findTensor name) fun _ => Action.keeps_bind (keeps_read _) fun _ =>
    Action.keeps_bind (Action.keeps_gets _) fun _ => Action.keeps_bind (keeps_seek _) fun _ =>
      Action.keeps_pure _

theorem keeps_loadModel (tensors : List (String × Tensor)) :
    Action.Keeps ModelLoader.rest (loadModel ggml tensors) := by
  induction tensors with
  | nil => exact Action.keeps_pure _
  | cons want tensors ih =>
      exact Action.keeps_bind (keeps_readTensor _ _) fun _ =>
        Action.keeps_bind ih fun _ => Action.keeps_pure _

theorem keeps_loadAllTensors (fuel : Nat) :
    Action.Keeps ModelLoader.offsets (loadAllTensors ggml fuel) := by
  have hread : ∀ {α : Type} (x : Decoder Fault α),
      Action.Keeps ModelLoader.offsets (read x) := fun _ _ => rfl
  induction fuel with
  | zero => exact fun _ => rfl
  | succ fuel ih =>
      refine Action.keeps_bind (Action.keeps_gets _) fun left => Action.keeps_ite ?_
        (Action.keeps_pure _)
      refine Action.keeps_bind (hread _) fun _ => Action.keeps_bind (hread _) fun _ => ?_
      refine Action.keeps_bind (fun _ => rfl) fun _ => Action.keeps_bind (hread _) fun _ => ?_
      refine Action.keeps_bind (hread _) fun _ => Action.keeps_bind (hread _) fun _ => ?_
      exact Action.keeps_bind (Action.keeps_gets _) fun _ =>
        Action.keeps_bind (fun _ => rfl) fun _ => ih

/-- Where the parts of a file are, and what is in them. -/
structure Front (data : Bytes) (front : Config × VocabState) (config tokenizer tensors : Nat) :
    Prop where
  header : readHeader data 0 = (.ok (), config)
  config : readConfig data config = (.ok front.1, tokenizer)
  vocab : ∃ size, VocabState.new.load (data.drop tokenizer) front.1.vocabSize
    = .ok (size, front.2) ∧ tensors = tokenizer + size

/-- What a loader makes of the front, if it knows of no other place for the configuration. -/
theorem loadFront_eq (hoffset : loader.offsetConfig = 0 ∨
      loader.offsetConfig = (readHeader loader.data 0).2) :
    loadFront loader =
      match readHeader loader.data 0 with
      | (.error e, header) => (.error e, { loader with ptr := header })
      | (.ok _, header) =>
          match readConfig loader.data header with
          | (.error e, tokenizer) =>
              (.error e, { loader with ptr := tokenizer, offsetConfig := header })
          | (.ok config, tokenizer) =>
              match VocabState.new.load (loader.data.drop tokenizer) config.vocabSize with
              | .error e => (.error e, { loader with
                  ptr := tokenizer, offsetConfig := header, offsetTokenizer := tokenizer })
              | .ok proto => (.ok (config, proto.2), { loader with
                  ptr := tokenizer + proto.1, offsetConfig := header,
                  offsetTokenizer := tokenizer }) := by
  rw [loadFront]
  refine (Action.bind_of_ok (Action.modify_apply _ loader)).trans ?_
  rcases hheader : readHeader loader.data 0 with ⟨e | ⟨⟩, header⟩
  · exact Action.bind_of_error (read_of_eq hheader)
  have hoffset : loader.offsetConfig = 0 ∨ loader.offsetConfig = header := by
    rwa [hheader] at hoffset
  refine (Action.bind_of_ok (read_of_eq hheader)).trans ?_
  refine (Action.bind_of_ok (Action.modify_apply _ _)).trans ?_
  have hconfig : (if loader.offsetConfig = 0 then
      { loader with ptr := header, offsetConfig := header }
      else { loader with ptr := loader.offsetConfig })
      = { loader with ptr := header, offsetConfig := header } := by
    split
    · rfl
    · next hne => rw [← hoffset.resolve_left hne]
  show (read readConfig >>= _) (if loader.offsetConfig = 0 then
    { loader with ptr := header, offsetConfig := header }
      else { loader with ptr := loader.offsetConfig }) = _
  rw [hconfig]
  rcases hread : readConfig loader.data header with ⟨e | config, tokenizer⟩
  · exact (Action.bind_of_error (read_of_eq hread)).trans (by simp only [hread])
  refine (Action.bind_of_ok (read_of_eq hread)).trans ?_
  simp only [hread]
  show (Action.ofExcept (VocabState.new.load (loader.data.drop tokenizer) config.vocabSize) >>= _)
    _ = _
  cases VocabState.new.load (loader.data.drop tokenizer) config.vocabSize <;> rfl

/-- A loader that does not know of another place comes to the front as it is. -/
theorem loadFront_of_front {front : Config × VocabState} {config tokenizer tensors : Nat}
    (h : Front loader.data front config tokenizer tensors)
    (hoffset : loader.offsetConfig = 0 ∨ loader.offsetConfig = config) :
    loadFront loader = (.ok front, { loader with
      ptr := tensors, offsetConfig := config, offsetTokenizer := tokenizer }) := by
  obtain ⟨size, hvocab, rfl⟩ := h.vocab
  rw [loadFront_eq (by rwa [h.header]), h.header]
  simp only [h.config, hvocab]

theorem front_of_loadFront {front : Config × VocabState}
    (hfresh : loader.offsetConfig = 0) (h : loadFront loader = (.ok front, loader')) :
    ∃ config tokenizer tensors, Front loader.data front config tokenizer tensors ∧
      loader' = { loader with
        ptr := tensors, offsetConfig := config, offsetTokenizer := tokenizer } := by
  rw [loadFront_eq (.inl hfresh)] at h
  split at h
  · cases h
  · next hheader =>
      split at h
      · cases h
      · next hconfig =>
          split at h
          · cases h
          · next proto hproto =>
              obtain ⟨hfront, hloader⟩ := Prod.mk.inj h
              obtain rfl := Except.ok.inj hfront
              exact ⟨_, _, _, ⟨hheader, hconfig, proto.1, hproto, rfl⟩, hloader.symm⟩

/-- What a new loader makes of the front it makes of it again, and stays as it is. -/
theorem loadFront_again {answer : Except Fault (Config × VocabState)}
    (hfresh : loader.offsetConfig = 0) (h : loadFront loader = (answer, loader')) :
    loadFront loader' = (answer, loader') := by
  rw [loadFront_eq (.inl hfresh)] at h
  rcases hheader : readHeader loader.data 0 with ⟨e | ⟨⟩, header⟩
  · simp only [hheader] at h
    obtain ⟨rfl, rfl⟩ := Prod.mk.inj h
    refine (loadFront_eq (.inl hfresh)).trans ?_
    simp only [hheader]
  have hknown : header = (readHeader loader.data 0).2 := by rw [hheader]
  simp only [hheader] at h
  rcases hconfig : readConfig loader.data header with ⟨e | config, tokenizer⟩
  · simp only [hconfig] at h
    obtain ⟨rfl, rfl⟩ := Prod.mk.inj h
    refine (loadFront_eq (.inr hknown)).trans ?_
    simp only [hheader, hconfig]
  simp only [hconfig] at h
  rcases hvocab : VocabState.new.load (loader.data.drop tokenizer) config.vocabSize with e | proto
  all_goals
    simp only [hvocab] at h
    obtain ⟨rfl, rfl⟩ := Prod.mk.inj h
    refine (loadFront_eq (.inr hknown)).trans ?_
    simp only [hheader, hconfig, hvocab]

theorem movesOn_readI32 : MovesOn 4 readI32 :=
  (movesOn_take _ 4).bind fun _ => movesOn_pure _

/-- There is something in front of the tensors. -/
theorem Front.pos {data : Bytes} {front : Config × VocabState} {config tokenizer tensors : Nat}
    (h : Front data front config tokenizer tensors) : 0 < tensors := by
  have hconfig : MovesOn (4 + _) readConfig := movesOn_readI32.bind fun _ =>
    movesOn_readI32.bind fun _ => movesOn_readI32.bind fun _ => movesOn_readI32.bind fun _ =>
    movesOn_readI32.bind fun _ => movesOn_readI32.bind fun _ => movesOn_readI32.bind fun _ =>
    movesOn_readI32.bind fun _ => movesOn_readI32.bind fun _ => movesOn_readI32.bind fun _ =>
    movesOn_readI32.bind fun _ => movesOn_pure _
  have hle := hconfig _ _ _ _ h.config
  obtain ⟨size, -, rfl⟩ := h.vocab
  omega

/-- The place of a loader does not matter for the model. -/
theorem loadBack_of_rest {config : Config} (h : loader.rest = loader'.rest) :
    loadBack ggml config loader = loadBack ggml config loader' := by
  have hseek : ({ loader with ptr := loader.offsetTensors } : ModelLoader)
      = { loader' with ptr := loader'.offsetTensors } := by
    show ({ loader.rest with ptr := loader.rest.offsetTensors } : ModelLoader) = _
    rw [h]
    rfl
  show (Action.ofExcept (checkConfig config) >>= fun _ => loadModel ggml (modelTensors config))
      { loader with ptr := loader.offsetTensors }
    = (Action.ofExcept (checkConfig config) >>= fun _ => loadModel ggml (modelTensors config))
      { loader' with ptr := loader'.offsetTensors }
  rw [hseek]

theorem keeps_loadBack (config : Config) :
    Action.Keeps ModelLoader.rest (loadBack ggml config) :=
  Action.keeps_bind (Action.keeps_gets _) fun _ => Action.keeps_bind (keeps_seek _) fun _ =>
    Action.keeps_bind (fun _ => rfl) fun _ => keeps_loadModel _

/-- A loader that has looked for its tensors, or has failed at it. -/
structure Indexed (file : Bytes) (front : Config × VocabState) (loader : ModelLoader) : Prop where
  data : loader.data = file
  front : Front file front loader.offsetConfig loader.offsetTokenizer loader.offsetTensors

theorem Indexed.of_rest {file : Bytes} {front : Config × VocabState}
    (h : Indexed file front loader) (hrest : loader'.rest = loader.rest) :
    Indexed file front loader' := by
  have hconfig : loader'.offsetConfig = loader.offsetConfig :=
    (congrArg ModelLoader.offsetConfig hrest :)
  have htokenizer : loader'.offsetTokenizer = loader.offsetTokenizer :=
    (congrArg ModelLoader.offsetTokenizer hrest :)
  have htensors : loader'.offsetTensors = loader.offsetTensors :=
    (congrArg ModelLoader.offsetTensors hrest :)
  have hdata : loader'.data = loader.data := (congrArg ModelLoader.data hrest :)
  refine ⟨hdata.trans h.data, ?_⟩
  rw [hconfig, htokenizer, htensors]
  exact h.front

/-- The answer, from the places of the data. -/
def Loaded.of (front : Config × VocabState) (answer : Except Fault (List Nat)) :
    Except Fault Loaded :=
  answer.map fun tensors => ⟨front.1, front.2, tensors⟩

/-- Such a loader goes on with the model. -/
theorem loadWith_of_indexed {file : Bytes} {front : Config × VocabState}
    (h : Indexed file front loader) :
    loadWith ggml loader = (Loaded.of front (loadBack ggml front.1 loader).1,
      (loadBack ggml front.1 loader).2) := by
  have hfront := @loadFront_of_front loader front _ _ _ (h.data.symm ▸ h.front) (.inr rfl)
  have hskip : indexTensors ggml { loader with ptr := loader.offsetTensors }
      = (.ok (), { loader with ptr := loader.offsetTensors }) := by
    rw [indexTensors]
    refine (Action.bind_of_ok (Action.gets_apply _ _)).trans ?_
    rw [if_neg h.front.pos.ne']
    rfl
  have hback : loadBack ggml front.1 { loader with ptr := loader.offsetTensors }
      = loadBack ggml front.1 loader := loadBack_of_rest rfl
  rw [loadWith, Action.bind_of_ok hfront, Action.bind_of_ok hskip, Action.bind_apply, hback]
  rcases loadBack ggml front.1 loader with ⟨- | -, -⟩ <;> rfl

/-- After a new loader has been used it fails again in front of the tensors, or has looked for
them. -/
theorem loadWith_new (ggml : Ggml) (file : Bytes) {answer : Except Fault Loaded}
    (h : loadWith ggml { data := file } = (answer, loader)) :
    loadWith ggml loader = (answer, loader) ∨ ∃ front, Indexed file front loader ∧
      ∀ loaded, answer = .ok loaded → loadWith ggml loader = (answer, loader) := by
  rw [loadWith] at h
  rcases hfront : loadFront { data := file } with ⟨e | front, l₁⟩
  · rw [Action.bind_of_error hfront] at h
    obtain ⟨rfl, rfl⟩ := Prod.mk.inj h
    refine .inl ?_
    rw [loadWith, Action.bind_of_error (loadFront_again rfl hfront)]
  · obtain ⟨config, tokenizer, tensors, hparts, rfl⟩ := front_of_loadFront rfl hfront
    rw [Action.bind_of_ok hfront] at h
    refine .inr ⟨front, ?_⟩
    rcases hindex : indexTensors ggml { ({ data := file } : ModelLoader) with
      ptr := tensors, offsetConfig := config, offsetTokenizer := tokenizer } with ⟨e | ⟨⟩, l₂⟩
    all_goals
      -- the tensors have been looked for from where they start
      have hoffsets : l₂.offsets = ({
          data := file, offsetConfig := config, offsetTokenizer := tokenizer,
          offsetTensors := tensors } : ModelLoader) := by
        have hkeeps := @keeps_loadAllTensors ggml (file.length + 1)
          { data := file, ptr := tensors, offsetConfig := config, offsetTokenizer := tokenizer,
            offsetTensors := tensors }
        rw [show loadAllTensors ggml (file.length + 1) _ = (_, l₂) from hindex] at hkeeps
        exact hkeeps
      have hindexed : Indexed file front l₂ := by
        have hconfig : l₂.offsetConfig = config := congrArg ModelLoader.offsetConfig hoffsets
        have htokenizer : l₂.offsetTokenizer = tokenizer :=
          congrArg ModelLoader.offsetTokenizer hoffsets
        have htensors : l₂.offsetTensors = tensors := congrArg ModelLoader.offsetTensors hoffsets
        refine ⟨congrArg ModelLoader.data hoffsets, ?_⟩
        rw [hconfig, htokenizer, htensors]
        exact hparts
    · rw [Action.bind_of_error hindex] at h
      obtain ⟨rfl, rfl⟩ := Prod.mk.inj h
      exact ⟨hindexed, nofun⟩
    · rw [Action.bind_of_ok hindex] at h
      have hback := @keeps_loadBack ggml front.1 l₂
      rcases hplaces : loadBack ggml front.1 l₂ with ⟨e | places, l₃⟩
      · rw [hplaces] at hback
        rw [Action.bind_of_error hplaces] at h
        obtain ⟨rfl, rfl⟩ := Prod.mk.inj h
        exact ⟨hindexed.of_rest hback, nofun⟩
      · rw [hplaces] at hback
        rw [Action.bind_of_ok hplaces] at h
        obtain ⟨rfl, rfl⟩ := Prod.mk.inj h
        have hthere := hindexed.of_rest hback
        refine ⟨hthere, fun _ _ => ?_⟩
        rw [loadWith_of_indexed hthere, loadBack_of_rest hback, hplaces]
        rfl

/-- From the second time on, a loader answers the same. -/
theorem loadWith_used (ggml : Ggml) (file : Bytes) :
    loadWith ggml (loadWith ggml (loadWith ggml { data := file }).2).2
      = loadWith ggml (loadWith ggml { data := file }).2 := by
  rcases hfirst : loadWith ggml { data := file } with ⟨answer, loader⟩
  rcases loadWith_new ggml file hfirst with hsame | ⟨front, hindexed, -⟩
  · rw [hsame]
    exact hsame
  · have hkeeps := @keeps_loadBack ggml front.1 loader
    have hagain := @loadWith_of_indexed ggml _ _ _ (hindexed.of_rest hkeeps)
    rw [loadBack_of_rest hkeeps] at hagain
    rw [loadWith_of_indexed hindexed]
    exact hagain

/-- **A loader that has returned gives the same answer again**, and stays as it is. -/
theorem loadWith_again {file : Bytes} {loaded : Loaded}
    (h : loadWith ggml { data := file } = (.ok loaded, loader)) :
    loadWith ggml loader = (.ok loaded, loader) := by
  rcases loadWith_new ggml file h with hsame | ⟨-, -, hsame⟩
  · exact hsame
  · exact hsame loaded rfl

end Again

/-! ### Runs of the factory -/

section Runs

variable {ggml : Ggml} {file : String → Bytes}

/-- What a load of a path answers: with a new loader, or with one that has been used. -/
def answerOf (ggml : Ggml) (file : String → Bytes) (path : String) (again : Bool) :
    Except Fault Loaded :=
  if again then (loadWith ggml (loadWith ggml { data := file path }).2).1
  else (loadWith ggml { data := file path }).1

/-- What the loads of some paths answer, if others have been loaded before. -/
def answers (ggml : Ggml) (file : String → Bytes) : List String → List String →
    List (Except Fault Loaded)
  | _, [] => []
  | before, path :: paths =>
      answerOf ggml file path (before.contains path) :: answers ggml file (path :: before) paths

/-- The answers up to the one that ends the process. -/
def untilLast : List (Except Fault Loaded) → List (Except Fault Loaded)
  | [] => []
  | answer :: answers => answer :: if isLast answer then [] else untilLast answers

/-- The loaders of these paths have been used, and there are no others. -/
def UsedBy (ggml : Ggml) (file : String → Bytes) (before : List String) (factory : ModelFactory) :
    Prop :=
  ∀ path, if before.contains path then ∃ loader, factory.find? path = some loader ∧
      loadWith ggml loader = loadWith ggml (loadWith ggml { data := file path }).2
    else factory.find? path = none

/-- The step lemma. -/
theorem load_of_usedBy {before : List String} {factory : ModelFactory}
    (h : UsedBy ggml file before factory) (path : String) :
    (ModelFactory.load ggml path (file path) factory).1
        = answerOf ggml file path (before.contains path) ∧
      UsedBy ggml file (path :: before) (ModelFactory.load ggml path (file path) factory).2 := by
  have hload : ∀ loader, (factory.find? path).getD { data := file path } = loader →
      ModelFactory.load ggml path (file path) factory
        = ((loadWith ggml loader).1, factory.set path (loadWith ggml loader).2) := by
    rintro loader rfl
    rfl
  -- the loaders of the other paths stay
  have hothers : ∀ {loader}, (loadWith ggml loader = loadWith ggml { data := file path } ∨
        loadWith ggml loader = loadWith ggml (loadWith ggml { data := file path }).2) →
      UsedBy ggml file (path :: before) (factory.set path (loadWith ggml loader).2) := by
    intro loader hloader other
    by_cases hpath : other = path
    · subst hpath
      rw [if_pos (by simp)]
      refine ⟨_, OrderedMap.find?_set_self _ _ _, ?_⟩
      rcases hloader with hloader | hloader
      · rw [hloader]
      · rw [hloader, loadWith_used]
    · have hcontains : (path :: before).contains other = before.contains other := by simp [hpath]
      rw [hcontains, OrderedMap.find?_set_of_ne _ _ hpath]
      exact h other
  have hpath := h path
  rw [answerOf]
  split at hpath
  · next hbefore =>
      obtain ⟨loader, hfind, hloader⟩ := hpath
      rw [hload loader (by rw [hfind, Option.getD_some]), if_pos hbefore, hloader]
      refine ⟨rfl, ?_⟩
      rw [← hloader]
      exact hothers (.inr hloader)
  · next hbefore =>
      rw [hload _ (by rw [hpath, Option.getD_none]), if_neg hbefore]
      exact ⟨rfl, hothers (.inl rfl)⟩

/-- The run lemma, by induction over the loads. -/
theorem loads_of_usedBy {before paths : List String} {factory : ModelFactory}
    (h : UsedBy ggml file before factory) :
    loads ggml file paths factory = untilLast (answers ggml file before paths) := by
  induction paths generalizing before factory with
  | nil => rfl
  | cons path paths ih =>
      obtain ⟨hanswer, hused⟩ := load_of_usedBy h path
      rw [loads, answers, untilLast, ← hanswer, ih hused]

/-- **The loads of a factory**: the first load of a path answers what a new loader does, and the
others what a loader does that has been used once, whatever else is loaded in between.  The two
are the same if the first one returns. -/
theorem loads_eq_fresh (ggml : Ggml) (file : String → Bytes) (paths : List String) :
    loads ggml file paths .empty = untilLast (answers ggml file [] paths) ∧
      ∀ path loaded, answerOf ggml file path false = .ok loaded →
        answerOf ggml file path true = .ok loaded := by
  refine ⟨loads_of_usedBy fun path => rfl, fun path loaded h => ?_⟩
  have hagain := @loadWith_again ggml (loadWith ggml { data := file path }).2 (file path) loaded
    (Prod.ext h rfl)
  exact congrArg Prod.fst hagain

end Runs

end Instinct.Transformers
