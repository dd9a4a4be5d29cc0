/-
Instinct/FileVault.lean

`FileSystemFileVault`: resources that are fetched once and kept in files, with a JSON file
beside each.

The JSON is written with the metadata in an object of their own, and read with the strings
around that object for the metadata.  So an entry comes back if and only if its metadata are
just these: its name and its checksum (`entryReadsBack_iff`).  What is fetched is then what is
read later (`comesBack_iff`).
-/
import Instinct.Core
import Instinct.OrderedMaps
import Mathlib

namespace Instinct.FileVault

open OrderedMaps Effects

abbrev Bytes := ByteArray

/-- `FileVaultResourceEntryMetadata`. -/
abbrev Metadata := OrderedMap Bytes Bytes

/-! ### Entries -/

inductive ChecksumAlgorithm
  | noChecksum | sha1 | sha256 | md5
  deriving DecidableEq

/-- `to_string`. -/
def ChecksumAlgorithm.toString : ChecksumAlgorithm → Bytes
  | sha1 => "SHA1".toUTF8
  | sha256 => "SHA256".toUTF8
  | md5 => "MD5".toUTF8
  | noChecksum => "NoChecksum".toUTF8

/-- `from_string`. -/
def ChecksumAlgorithm.fromString (str : Bytes) : ChecksumAlgorithm :=
  if str = "SHA1".toUTF8 then sha1
  else if str = "SHA256".toUTF8 then sha256
  else if str = "MD5".toUTF8 then md5
  else noChecksum

theorem fromString_toString (algorithm : ChecksumAlgorithm) :
    .fromString algorithm.toString = algorithm := by
  cases algorithm <;> decide

structure ChecksumRequest where
  algorithm : ChecksumAlgorithm
  expectedValue : Bytes

structure FileVaultResourceEntry where
  name : Bytes
  metadata : Metadata
  localPath : Bytes
  checksumAlgorithm : ChecksumAlgorithm
  checksumValue : Bytes

/-- Entries that are equal.  Their metadata are so in any order. -/
structure FileVaultResourceEntry.Same (e e' : FileVaultResourceEntry) : Prop where
  name : e.name = e'.name
  metadata : ∀ key, e.metadata.find? key = e'.metadata.find? key
  localPath : e.localPath = e'.localPath
  checksumAlgorithm : e.checksumAlgorithm = e'.checksumAlgorithm
  checksumValue : e.checksumValue = e'.checksumValue

/-! ### The JSON file -/

/-- A member of the object that is written. -/
inductive Member
  | string (s : Bytes)
  | object (members : OrderedMap Bytes Bytes)

abbrev Data := OrderedMap Bytes Member

/-- The object that is written.  There is no object of the metadata if there are none. -/
def toData (entry : FileVaultResourceEntry) : Data :=
  let data := ((OrderedMap.empty.set "name".toUTF8 (.string entry.name)).set
    "checksum_algorithm".toUTF8 (.string entry.checksumAlgorithm.toString)).set
    "checksum_value".toUTF8 (.string entry.checksumValue)
  if entry.metadata.entries = [] then data
  else data.set "metadata".toUTF8 (.object entry.metadata)

/-- The strings of an entry that are printed. -/
def printed (entry : FileVaultResourceEntry) : List Bytes :=
  entry.name :: entry.checksumValue ::
    (entry.metadata.entries.map Prod.fst ++ entry.metadata.entries.map Prod.snd)

/-- `write_data_json`: what a file holds then.  A string that is not UTF-8 cannot be printed. -/
def writeDataJson (entry : FileVaultResourceEntry) : Except Exn Data :=
  if (printed entry).all ByteArray.validateUTF8 then .ok (toData entry)
  else .error (.other "[json.exception.type_error.316] invalid UTF-8 byte")

/-- A member of an object that is a string. -/
def stringMember : Bytes × Member → Option (Bytes × Bytes)
  | (key, .string s) => some (key, s)
  | (_, .object _) => none

/-- The members that are strings. -/
def stringMembers (data : Data) : Metadata :=
  (data.entries.filterMap stringMember).foldl (fun metadata e => metadata.set e.1 e.2) .empty

/-- `data[key]` as a string. -/
def stringAt (data : Data) (key : Bytes) : Except Exn Bytes :=
  match data.find? key with
  | some (.string s) => .ok s
  | some (.object _) =>
      .error (.other "[json.exception.type_error.302] type must be string, but is object")
  | none => .error (.other "[json.exception.type_error.302] type must be string, but is null")

/-- `build_entry_from_json`. -/
def buildEntryFromJson (dataFilePath : Bytes) (data : Data) :
    Except Exn FileVaultResourceEntry := do
  let name ← stringAt data "name".toUTF8
  let checksumAlgorithm ← stringAt data "checksum_algorithm".toUTF8
  let checksumValue ← stringAt data "checksum_value".toUTF8
  pure {
    name, metadata := stringMembers data, localPath := dataFilePath
    checksumAlgorithm := .fromString checksumAlgorithm, checksumValue }

/-- What is written for an entry is read as that entry. -/
def ReadsBack (entry : FileVaultResourceEntry) : Prop :=
  ∃ data entry', writeDataJson entry = .ok data ∧
    buildEntryFromJson entry.localPath data = .ok entry' ∧ entry'.Same entry

/-- The strings that stand around the metadata. -/
def ownMembers (entry : FileVaultResourceEntry) : Metadata :=
  ((OrderedMap.empty.set "name".toUTF8 entry.name).set "checksum_algorithm".toUTF8
    entry.checksumAlgorithm.toString).set "checksum_value".toUTF8 entry.checksumValue

/-- The metadata are the name and the checksum, in UTF-8. -/
structure OwnMetadata (entry : FileVaultResourceEntry) : Prop where
  utf8 : ∀ s ∈ printed entry, s.IsValidUTF8
  metadata : ∀ key, entry.metadata.find? key = (ownMembers entry).find? key

section Json

variable {entry entry' : FileVaultResourceEntry} {data : Data}

theorem find?_stringMembers {key s : Bytes} :
    (stringMembers data).find? key = some s ↔ data.find? key = some (.string s) := by
  have hsublist : ∀ l : List (Bytes × Member),
      ((l.filterMap stringMember).map Prod.fst).Sublist (l.map Prod.fst) := by
    intro l
    induction l with
    | nil => exact .slnil
    | cons e l ih =>
        rcases e with ⟨key, s | members⟩
        · exact ih.cons_cons key
        · exact ih.cons key
  have hmem : (key, s) ∈ data.entries.filterMap stringMember ↔ (key, .string s) ∈ data.entries := by
    rw [List.mem_filterMap]
    constructor
    · rintro ⟨⟨key', s' | members⟩, he, heq⟩
      · obtain ⟨rfl, rfl⟩ := Prod.mk.inj (Option.some.inj heq)
        exact he
      · cases heq
    · exact fun he => ⟨_, he, rfl⟩
  rw [stringMembers, OrderedMap.find?_foldl_set ((hsublist data.entries).nodup data.nodup), hmem,
    OrderedMap.find?_empty, OrderedMap.find?_eq_some_iff]
  exact or_iff_left fun h => by cases h.2

/-- The strings of what is written are those around the metadata. -/
theorem find?_stringMembers_toData (key : Bytes) :
    (stringMembers (toData entry)).find? key = (ownMembers entry).find? key := by
  refine Option.ext fun s => ?_
  rw [find?_stringMembers, toData, ownMembers]
  have hstrings : ∀ s,
      (((OrderedMap.empty.set "name".toUTF8 (Member.string entry.name)).set
        "checksum_algorithm".toUTF8 (.string entry.checksumAlgorithm.toString)).set
        "checksum_value".toUTF8 (.string entry.checksumValue)).find? key = some (.string s) ↔
      (((OrderedMap.empty.set "name".toUTF8 entry.name).set "checksum_algorithm".toUTF8
        entry.checksumAlgorithm.toString).set "checksum_value".toUTF8 entry.checksumValue).find? key
        = some s := by
    intro s
    simp only [OrderedMap.find?_eq_some_iff, OrderedMap.mem_entries_set, OrderedMap.empty,
      List.not_mem_nil, false_and, or_false, Prod.mk.injEq, Member.string.injEq]
  split
  · exact hstrings s
  · by_cases hkey : key = "metadata".toUTF8
    · subst hkey
      rw [OrderedMap.find?_set_self, OrderedMap.find?_set_of_ne _ _ (by decide),
        OrderedMap.find?_set_of_ne _ _ (by decide), OrderedMap.find?_set_of_ne _ _ (by decide),
        OrderedMap.find?_empty]
      exact iff_of_false (fun h => by cases h) fun h => by cases h
    · rw [OrderedMap.find?_set_of_ne _ _ hkey]
      exact hstrings s

theorem stringAt_toData {key s : Bytes} (h : (ownMembers entry).find? key = some s) :
    stringAt (toData entry) key = .ok s := by
  rw [← find?_stringMembers_toData, find?_stringMembers] at h
  rw [stringAt, h]

/-- What is written is read with the strings around the metadata for the metadata. -/
theorem buildEntryFromJson_toData (path : Bytes) :
    buildEntryFromJson path (toData entry) = .ok {
      entry with metadata := stringMembers (toData entry), localPath := path } := by
  have hname : stringAt (toData entry) "name".toUTF8 = .ok entry.name := by
    refine stringAt_toData ?_
    rw [ownMembers, OrderedMap.find?_set_of_ne _ _ (by decide),
      OrderedMap.find?_set_of_ne _ _ (by decide), OrderedMap.find?_set_self]
  have halgorithm : stringAt (toData entry) "checksum_algorithm".toUTF8
      = .ok entry.checksumAlgorithm.toString := by
    refine stringAt_toData ?_
    rw [ownMembers, OrderedMap.find?_set_of_ne _ _ (by decide), OrderedMap.find?_set_self]
  have hvalue : stringAt (toData entry) "checksum_value".toUTF8 = .ok entry.checksumValue :=
    stringAt_toData (OrderedMap.find?_set_self _ _ _)
  rw [buildEntryFromJson, hname, halgorithm, hvalue]
  show Except.ok _ = _
  rw [fromString_toString]

theorem writeDataJson_eq_ok_iff :
    writeDataJson entry = .ok data ↔
      (∀ s ∈ printed entry, s.IsValidUTF8) ∧ data = toData entry := by
  have hutf8 : (printed entry).all ByteArray.validateUTF8 = true ↔
      ∀ s ∈ printed entry, s.IsValidUTF8 := by
    simp only [List.all_eq_true, ByteArray.validateUTF8_eq_true_iff]
  rw [writeDataJson]
  by_cases hall : (printed entry).all ByteArray.validateUTF8 = true
  · rw [if_pos hall]
    exact ⟨fun h => ⟨hutf8.mp hall, (Except.ok.inj h).symm⟩, fun h => congrArg _ h.2.symm⟩
  · rw [if_neg hall]
    exact iff_of_false (fun h => by cases h) fun h => hall (hutf8.mpr h.1)

/-- **An entry is read back** if and only if its metadata are its name and its checksum. -/
theorem entryReadsBack_iff : ReadsBack entry ↔ OwnMetadata entry := by
  constructor
  · rintro ⟨data, entry', hwrite, hread, hsame⟩
    obtain ⟨hutf8, rfl⟩ := writeDataJson_eq_ok_iff.mp hwrite
    rw [buildEntryFromJson_toData] at hread
    obtain rfl := Except.ok.inj hread
    refine ⟨hutf8, fun key => ?_⟩
    rw [← hsame.metadata key, find?_stringMembers_toData]
  · rintro ⟨hutf8, hmetadata⟩
    refine ⟨_, _, writeDataJson_eq_ok_iff.mpr ⟨hutf8, rfl⟩, buildEntryFromJson_toData _, ?_⟩
    refine ⟨rfl, fun key => ?_, rfl, rfl, rfl⟩
    rw [hmetadata key, ← find?_stringMembers_toData]

end Json

/-! ### The vault -/

/-- What a call of `Persist` does: it writes, and may add headers to the metadata and throw. -/
structure Persisted where
  content : Bytes
  headers : List (Bytes × Bytes) := []
  thrown : Option Exn := none

/-- `IFileVaultResourceProvider`, with what each call of `Persist` will do. -/
structure ResourceProvider where
  resourceName : Bytes
  checksum : ChecksumRequest
  metadata : Metadata := .empty
  persist : Nat → Persisted
  calls : Nat := 0

/-- What the next call of `Persist` does. -/
def ResourceProvider.persisted (provider : ResourceProvider) : Persisted :=
  provider.persist provider.calls

/-- The provider behind that call. -/
def ResourceProvider.next (provider : ResourceProvider) : ResourceProvider :=
  { provider with
    metadata := provider.persisted.headers.foldl
      (fun metadata header => metadata.insert header.1 header.2) provider.metadata
    calls := provider.calls + 1 }

/-- The root directory and the hash functions. -/
structure VaultConfig where
  rootDirectory : Bytes
  hash : ChecksumAlgorithm → Bytes → Bytes

/-- The resources of a vault, and its files.  A JSON file may be cut off. -/
structure Vault where
  resources : Bytes → Option ResourceProvider
  dataFiles : Bytes → Option Bytes
  jsonFiles : Bytes → Option (Option Data)

def Vault.setProvider (name : Bytes) (provider : ResourceProvider) (s : Vault) : Vault :=
  { s with resources := Function.update s.resources name (some provider) }

def Vault.removeFiles (dataPath jsonPath : Bytes) (s : Vault) : Vault :=
  { s with
    dataFiles := Function.update s.dataFiles dataPath none
    jsonFiles := Function.update s.jsonFiles jsonPath none }

def Vault.setData (dataPath content : Bytes) (s : Vault) : Vault :=
  { s with dataFiles := Function.update s.dataFiles dataPath (some content) }

def Vault.setJson (jsonPath : Bytes) (data : Option Data) (s : Vault) : Vault :=
  { s with jsonFiles := Function.update s.jsonFiles jsonPath (some data) }

section Vault

variable (config : VaultConfig)

/-- `GetFilePaths_`. -/
def filePaths (namedResource : Bytes) : Bytes × Bytes :=
  let fileId := config.rootDirectory ++ "/".toUTF8 ++ config.hash .md5 namedResource
  (fileId ++ ".dat".toUTF8, fileId ++ ".json".toUTF8)

/-- `checksum`. -/
def checksum (content : Bytes) (request : ChecksumRequest) : Bool :=
  request.algorithm = .noChecksum || config.hash request.algorithm content = request.expectedValue

/-- The content that is fetched, for a second time if the checksum of the first is wrong.  What the
second call throws is not looked at. -/
def fetchContent (name : Bytes) (provider : ResourceProvider) (dataPath jsonPath : Bytes) :
    Action Exn Vault (Bytes × ResourceProvider) := do
  Action.modify (Vault.setProvider name provider.next)
  match provider.persisted.thrown with
  | some e => Action.throw e
  | none =>
      if checksum config provider.persisted.content provider.checksum then
        pure (provider.persisted.content, provider.next)
      else do
        Action.modify (Vault.removeFiles dataPath jsonPath)
        Action.modify (Vault.setProvider name provider.next.next)
        if checksum config provider.next.persisted.content provider.checksum then
          pure (provider.next.persisted.content, provider.next.next)
        else Action.throw (.instinct "Checksum failed for resource content.")

/-- The entry of a resource. -/
def ResourceProvider.entry (provider : ResourceProvider) (dataPath : Bytes) :
    FileVaultResourceEntry where
  name := provider.resourceName
  metadata := provider.metadata
  localPath := dataPath
  checksumAlgorithm := provider.checksum.algorithm
  checksumValue := provider.checksum.expectedValue

/-- The JSON file of an entry is written, or cut off. -/
def writeJsonFile (jsonPath : Bytes) (entry : FileVaultResourceEntry) : Action Exn Vault Unit :=
  match writeDataJson entry with
  | .ok data => Action.modify (Vault.setJson jsonPath (some data))
  | .error e => do
      Action.modify (Vault.setJson jsonPath none)
      Action.throw e

/-- `fetch_resource`. -/
def fetchResource (name : Bytes) (provider : ResourceProvider) (dataPath jsonPath : Bytes) :
    Action Exn Vault FileVaultResourceEntry := do
  let fetched ← fetchContent config name provider dataPath jsonPath
  Action.modify (Vault.setData dataPath fetched.1)
  writeJsonFile jsonPath (fetched.2.entry dataPath)
  pure (fetched.2.entry dataPath)

/-- Whether a resource has to be fetched. -/
def Vault.lacks (s : Vault) (provider : ResourceProvider) : Bool :=
  let (dataPath, jsonPath) := filePaths config provider.resourceName
  (s.dataFiles dataPath).isNone || (s.jsonFiles jsonPath).isNone

/-- `GetResource`. -/
def getResource (namedResource : Bytes) : Action Exn Vault FileVaultResourceEntry := fun s =>
  match s.resources namedResource with
  | none => (.error (.client "Resource should exist in vault"), s)
  | some provider =>
      let (dataPath, jsonPath) := filePaths config provider.resourceName
      if s.lacks config provider then
        fetchResource config namedResource provider dataPath jsonPath s
      else
        match s.jsonFiles jsonPath with
        | some (some data) => (buildEntryFromJson dataPath data, s)
        | _ => (.error (.other "[json.exception.parse_error.101] parse error"), s)

end Vault

/-- An entry that is fetched is returned again when it is read. -/
def ReturnsSame (entry : FileVaultResourceEntry) : Prop :=
  ∀ (config : VaultConfig) (namedResource : Bytes) (s s' : Vault) (provider : ResourceProvider),
    s.resources namedResource = some provider → s.lacks config provider = true →
    getResource config namedResource s = (.ok entry, s') →
    ∃ entry', getResource config namedResource s' = (.ok entry', s') ∧ entry'.Same entry

section Fetch

variable {config : VaultConfig} {name dataPath jsonPath : Bytes} {provider : ResourceProvider}
  {s s' : Vault} {entry : FileVaultResourceEntry}

/-- The content comes with the provider that is left in the vault. -/
theorem fetchContent_spec {content : Bytes} {provider' : ResourceProvider}
    (h : fetchContent config name provider dataPath jsonPath s = (.ok (content, provider'), s')) :
    s'.resources name = some provider' ∧ provider'.resourceName = provider.resourceName := by
  rw [fetchContent] at h
  obtain ⟨_, s₁, hfirst, h⟩ := Action.ok_of_bind h
  obtain ⟨-, rfl⟩ := Prod.mk.inj hfirst
  cases hthrown : provider.persisted.thrown with
  | some e =>
      rw [hthrown] at h
      cases h
  | none =>
      rw [hthrown] at h
      simp only at h
      split at h
      · obtain ⟨hresult, rfl⟩ := Prod.mk.inj h
        obtain ⟨-, rfl⟩ := Prod.mk.inj (Except.ok.inj hresult)
        exact ⟨Function.update_self _ _ _, rfl⟩
      · obtain ⟨_, s₂, hremove, h⟩ := Action.ok_of_bind h
        obtain ⟨-, rfl⟩ := Prod.mk.inj hremove
        obtain ⟨_, s₃, hsecond, h⟩ := Action.ok_of_bind h
        obtain ⟨-, rfl⟩ := Prod.mk.inj hsecond
        split at h
        · obtain ⟨hresult, rfl⟩ := Prod.mk.inj h
          obtain ⟨-, rfl⟩ := Prod.mk.inj (Except.ok.inj hresult)
          exact ⟨Function.update_self _ _ _, rfl⟩
        · cases h

theorem writeJsonFile_spec {u : Unit} (h : writeJsonFile jsonPath entry s = (.ok u, s')) :
    ∃ data, writeDataJson entry = .ok data ∧ s' = s.setJson jsonPath (some data) := by
  rw [writeJsonFile] at h
  cases hwrite : writeDataJson entry with
  | ok data =>
      rw [hwrite] at h
      exact ⟨data, rfl, (Prod.mk.inj h).2.symm⟩
  | error e =>
      rw [hwrite] at h
      cases h

/-- A resource that is fetched has its files, and the JSON is that of the entry. -/
theorem fetchResource_spec
    (h : fetchResource config name provider dataPath jsonPath s = (.ok entry, s')) :
    (∃ provider', s'.resources name = some provider' ∧
        provider'.resourceName = provider.resourceName) ∧
      (s'.dataFiles dataPath).isSome ∧ entry.localPath = dataPath ∧
      ∃ data, writeDataJson entry = .ok data ∧ s'.jsonFiles jsonPath = some (some data) := by
  rw [fetchResource] at h
  obtain ⟨⟨content, provider'⟩, s₁, hcontent, h⟩ := Action.ok_of_bind h
  obtain ⟨hprovider, hname⟩ := fetchContent_spec hcontent
  obtain ⟨_, s₂, hdata, h⟩ := Action.ok_of_bind h
  obtain ⟨-, rfl⟩ := Prod.mk.inj hdata
  obtain ⟨_, s₃, hjson, h⟩ := Action.ok_of_bind h
  obtain ⟨data, hwrite, rfl⟩ := writeJsonFile_spec hjson
  obtain ⟨hresult, rfl⟩ := Prod.mk.inj h
  obtain rfl := Except.ok.inj hresult
  refine ⟨⟨provider', hprovider, hname⟩, ?_, rfl, data, hwrite, Function.update_self _ _ _⟩
  show (Function.update s₁.dataFiles dataPath (some content) dataPath).isSome
  rw [Function.update_self]
  rfl

/-- What is fetched is read the next time. -/
theorem getResource_again (hprovider : s.resources name = some provider)
    (hlacks : s.lacks config provider = true) (h : getResource config name s = (.ok entry, s')) :
    ∃ data, writeDataJson entry = .ok data ∧
      getResource config name s' = (buildEntryFromJson entry.localPath data, s') := by
  rw [getResource, hprovider] at h
  simp only [hlacks, if_true] at h
  obtain ⟨⟨provider', hprovider', hname⟩, hdata, hpath, data, hwrite, hjson⟩ := fetchResource_spec h
  refine ⟨data, hwrite, ?_⟩
  have hlacks' : s'.lacks config provider' = false := by
    rw [Vault.lacks, hname]
    simp only [hjson, Option.isNone_some, Bool.or_false, Option.isNone_eq_false_iff, hdata]
  rw [getResource, hprovider']
  simp only [hlacks', Bool.false_eq_true, if_false, hname, hjson, hpath]

end Fetch

/-- **An entry comes back**, from its file and from the vault, if and only if its metadata are its
name and its checksum. -/
theorem comesBack_iff (entry : FileVaultResourceEntry) :
    (ReadsBack entry ∧ ReturnsSame entry) ↔ OwnMetadata entry := by
  rw [← entryReadsBack_iff]
  refine ⟨And.left, fun hback => ⟨hback, ?_⟩⟩
  intro config namedResource s s' provider hprovider hlacks h
  obtain ⟨data, hwrite, hagain⟩ := getResource_again hprovider hlacks h
  obtain ⟨data', entry', hwrite', hread, hsame⟩ := hback
  obtain rfl := Except.ok.inj (hwrite.symm.trans hwrite')
  exact ⟨entry', by rw [hagain, hread], hsame⟩

/-- An entry without metadata is read with three of them. -/
theorem no_metadata_not_back :
    ¬ (ReadsBack ⟨"a".toUTF8, .empty, "a.dat".toUTF8, .noChecksum, "".toUTF8⟩ ∧
      ReturnsSame ⟨"a".toUTF8, .empty, "a.dat".toUTF8, .noChecksum, "".toUTF8⟩) := by
  rintro ⟨hback, -⟩
  have hname := (entryReadsBack_iff.mp hback).metadata "name".toUTF8
  rw [ownMembers, OrderedMap.find?_set_of_ne _ _ (by decide),
    OrderedMap.find?_set_of_ne _ _ (by decide), OrderedMap.find?_set_self] at hname
  cases hname

end Instinct.FileVault
