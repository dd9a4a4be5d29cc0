/-
Instinct/ObjectPaths.lean

`FileSystemObjectStore` on a file system: an object stands at the path that the
default key mapper makes of the root directory, the bucket and the key.

Names are strings of any kind, so that paths may meet, climb with `..` or be
absolute.  `Apart` says of some names that none of this happens among them.  Then
every call reads and changes the object of its own name only, inside the root
(`perform_spec`), and the store is the map from names to contents that it is meant
to be, except where something empty is put and where an object is too large for
its size to be told (`lawful_iff`).  The names and paths that the system refuses for
their length are outside.
-/
import Instinct.FileTree
import Instinct.Files

namespace Instinct.ObjectPaths

open Effects FileTree Transitions

abbrev Bytes := List UInt8

/-! ### `std::filesystem::path` -/

abbrev Path := List Char

def isAbsolute (path : Path) : Bool := path.head? = some '/'

def hasFilename (path : Path) : Bool := path ≠ [] && path.getLast? ≠ some '/'

/-- `operator/`. -/
def join (path other : Path) : Path :=
  if isAbsolute other || path = [] then other
  else if hasFilename path then path ++ '/' :: other
  else path ++ other

/-- What stands between the slashes. -/
def components : Path → List Name
  | [] => [[]]
  | c :: cs =>
      if c = '/' then [] :: components cs
      else
        match components cs with
        | [] => [[c]]
        | name :: names => (c :: name) :: names

/-- What is left of the components when a path is passed on by `c_str`. -/
def cStr : List Name → List Name
  | [] => []
  | name :: names =>
      if '\x00' ∈ name then [name.takeWhile (· ≠ '\x00')] else name :: cStr names

/-- `parent_path`. -/
def parentPath (path : Path) : List Name := (components path).dropLast

/-! ### The model -/

structure ObjectName where
  bucketName : Path
  objectKey : Path
  deriving DecidableEq

/-- `FileSystemObjectStore` with the default key mapper, and the working directory of the
process. -/
structure Store where
  rootDirectory : Path
  workingDirectory : Place := []

namespace Store

variable (store : Store)

/-- `DEFAULT_OBJECT_KEY_MAPPER`. -/
def objectPath (name : ObjectName) : Path :=
  join (join store.rootDirectory name.bucketName) name.objectKey

/-- Where the walk along a path begins. -/
def start (path : Path) : Place := if isAbsolute path then [] else store.workingDirectory

/-- `EnsureObjectPath_`. -/
def ensureObjectPath (name : ObjectName) : Action Failure Tree Path := do
  let path := store.objectPath name
  Tree.createDirectories (store.start path) (cStr (parentPath path))
  pure path

/-- `std::filesystem::exists` and what is there. -/
def lookup (path : Path) : Action Failure Tree (Option Node) :=
  Action.gets fun tree => tree.status (store.start path) (cStr (components path))

/-- An `std::ofstream` that truncates the file, and what is written to it: whether it is open. -/
def write (path : Path) (bytes : Bytes) : Action Failure Tree Bool := fun tree =>
  match tree.writeFile bytes (store.start path) (cStr (components path)) with
  | some tree' => (.ok true, tree')
  | none => (.ok false, tree)

def objectNotFound : OSSStatus := { hasError := true, errorType := .objectNotFound }

/-- `PutObject` of a stream, given by what can be read from it. -/
def putObjectStream (name : ObjectName) (input : Bytes) : Action Failure Tree OSSStatus := do
  let path ← store.ensureObjectPath name
  let isOpen ← store.write path input
  let status : OSSStatus := if isOpen then {} else { hasError := true, errorType := .fileNotOpen }
  let size ← Tree.fileSize (store.start path) (cStr (components path))
  if size = 0 then do
    Tree.remove (store.start path) (cStr (components path))
    pure { hasError := true, errorType := .emptyFile }
  else pure status

/-- `PutObject` of a buffer: whether the file is open is not asked. -/
def putObject (name : ObjectName) (buffer : Bytes) : Action Failure Tree OSSStatus := do
  let path ← store.ensureObjectPath name
  let _ ← store.write path buffer
  pure {}

/-- `GetObject` into a stream, with what was written to it.  A directory can be opened for
reading, and nothing can be read from it. -/
def getObjectStream (name : ObjectName) : Action Failure Tree (OSSStatus × Option Bytes) := do
  let path ← store.ensureObjectPath name
  let node ← store.lookup path
  match node with
  | none => pure (objectNotFound, none)
  | some (.file bytes) => pure ({}, some bytes)
  | some .directory => pure ({}, some [])

/-- `GetObject` into a buffer.  `ReadString` throws where it is not told a size. -/
def getObject (name : ObjectName) : Action Failure Tree (OSSStatus × Option Bytes) := do
  let path ← store.ensureObjectPath name
  let node ← store.lookup path
  match node with
  | none => pure (objectNotFound, none)
  | some (.file bytes) => pure ({}, some bytes)
  | some .directory => Action.throw .isADirectory

/-- `DeleteObject`. -/
def deleteObject (name : ObjectName) : Action Failure Tree OSSStatus := do
  let path ← store.ensureObjectPath name
  let node ← store.lookup path
  if node = none then pure objectNotFound
  else do
    Tree.remove (store.start path) (cStr (components path))
    pure {}

/-- `GetObjectState`. -/
def getObjectState (name : ObjectName) : Action Failure Tree ObjectState := do
  let path ← store.ensureObjectPath name
  let node ← store.lookup path
  if node = none then pure { status := objectNotFound }
  else do
    let size ← Tree.fileSize (store.start path) (cStr (components path))
    pure { byteSize := Int32.ofNat size }

end Store

/-! ### Calls -/

inductive Call
  | putStream (name : ObjectName) (input : Bytes)
  | put (name : ObjectName) (buffer : Bytes)
  | getStream (name : ObjectName)
  | get (name : ObjectName)
  | delete (name : ObjectName)
  | state (name : ObjectName)
  deriving DecidableEq

/-- What a call returns, and what it wrote for its caller. -/
inductive Answer
  | status (status : OSSStatus)
  | object (status : OSSStatus) (content : Option Bytes)
  | state (state : ObjectState)
  deriving DecidableEq

def Call.name : Call → ObjectName
  | putStream name _ | put name _ | getStream name | get name | delete name | state name => name

namespace Store

variable (store : Store)

def perform : Call → Action Failure Tree Answer
  | .putStream name input => do pure (.status (← store.putObjectStream name input))
  | .put name buffer => do pure (.status (← store.putObject name buffer))
  | .getStream name => do
      let answer ← store.getObjectStream name
      pure (.object answer.1 answer.2)
  | .get name => do
      let answer ← store.getObject name
      pure (.object answer.1 answer.2)
  | .delete name => do pure (.status (← store.deleteObject name))
  | .state name => do pure (.state (← store.getObjectState name))

/-- The file system after a call, returned or thrown. -/
def after (tree : Tree) (call : Call) : Tree := (store.perform call tree).2

/-! ### The places of names -/

/-- The directories that `EnsureObjectPath_` makes, as components. -/
def dirs (name : ObjectName) : List Name := cStr (parentPath (store.objectPath name))

/-- The places that it walks through. -/
def dirPlaces (name : ObjectName) : List Place :=
  visited (store.start (store.objectPath name)) (store.dirs name)

/-- The path of the object, as components. -/
def file (name : ObjectName) : List Name := cStr (components (store.objectPath name))

/-- The place where the object stands. -/
def place (name : ObjectName) : Place :=
  reach (store.start (store.objectPath name)) (store.file name)

/-- The place of the root directory. -/
def rootPlace : Place :=
  reach (store.start store.rootDirectory) (cStr (components store.rootDirectory))

/-- What stands at the place of a name. -/
def content (tree : Tree) (name : ObjectName) : Option Bytes :=
  match tree.node (store.place name) with
  | some (.file bytes) => some bytes
  | _ => none

end Store

/-- Names whose paths do not get in each other's way: each ends with the name of a file, inside
the root, at a place of its own at which no directory of another one stands. -/
structure Apart (store : Store) (names : Set ObjectName) : Prop where
  named : ∀ name ∈ names, ∃ component,
    store.file name = store.dirs name ++ [component] ∧ turn component = .down component
  inside : ∀ name ∈ names, store.rootPlace <:+ store.place name
  distinct : ∀ name ∈ names, ∀ other ∈ names, store.place name = store.place other → name = other
  clear : ∀ name ∈ names, ∀ other ∈ names, store.place name ∉ store.dirPlaces other

/-- A file system in which the directories of some names are there, or can be made inside the
root, and their places are not taken by directories. -/
structure Ready (store : Store) (names : Set ObjectName) (tree : Tree) : Prop where
  working : tree.node store.workingDirectory = some .directory
  dirs : ∀ name ∈ names, ∀ dir ∈ store.dirPlaces name,
    tree.node dir = some .directory ∨ tree.node dir = none ∧ store.rootPlace <:+ dir
  files : ∀ name ∈ names, tree.node (store.place name) ≠ some .directory

/-- Nothing is different outside the root. -/
def Within (store : Store) (tree tree' : Tree) : Prop :=
  ∀ place, ¬ store.rootPlace <:+ place → tree'.node place = tree.node place

section Spec

variable {store : Store} {names : Set ObjectName} {tree tree' : Tree} {name : ObjectName}

/-- What `EnsureObjectPath_` leaves. -/
structure Ensured (store : Store) (names : Set ObjectName) (name : ObjectName)
    (tree tree' : Tree) : Prop where
  ready : Ready store names tree'
  same : ∀ other ∈ names, tree'.node (store.place other) = tree.node (store.place other)
  within : Within store tree tree'
  made : ∀ dir ∈ store.dirPlaces name, tree'.node dir = some .directory

theorem ensureObjectPath_spec (hapart : Apart store names) (hready : Ready store names tree)
    (hname : name ∈ names) :
    ∃ tree', store.ensureObjectPath name tree = (.ok (store.objectPath name), tree')
      ∧ Ensured store names name tree tree' := by
  have hstart : tree.node (store.start (store.objectPath name)) = some .directory := by
    rw [Store.start]
    split
    · exact tree.node_nil
    · exact hready.working
  have hfree : ∀ dir ∈ store.dirPlaces name, ∀ bytes, tree.node dir ≠ some (.file bytes) := by
    intro dir hmem bytes hfile
    rcases hready.dirs name hname dir hmem with hdir | ⟨hnone, -⟩
    · rw [hfile] at hdir
      cases hdir
    · rw [hfile] at hnone
      cases hnone
  obtain ⟨tree', hrun, hmade⟩ := Tree.createDirectories_spec hstart hfree
  refine ⟨tree', Action.bind_of_ok hrun, ?_, ?_, ?_, hmade.made⟩
  · refine ⟨?_, fun other hother dir hmem => ?_, fun other hother => ?_⟩
    · by_cases hmem : store.workingDirectory ∈ store.dirPlaces name
      · exact hmade.made _ hmem
      · rw [hmade.kept _ hmem, hready.working]
    · by_cases hmade' : dir ∈ store.dirPlaces name
      · exact .inl (hmade.made dir hmade')
      · rw [hmade.kept dir hmade']
        exact hready.dirs other hother dir hmem
    · rw [hmade.kept _ (hapart.clear other hother name hname)]
      exact hready.files other hother
  · exact fun other hother => hmade.kept _ (hapart.clear other hother name hname)
  · intro place hplace
    by_cases hmem : place ∈ store.dirPlaces name
    · rcases hready.dirs name hname place hmem with hdir | ⟨-, hroot⟩
      · rw [hmade.made place hmem, hdir]
      · exact absurd hroot hplace
    · exact hmade.kept place hmem

/-- A tree in which another node stands at the place of a name. -/
def Replaced (store : Store) (name : ObjectName) (node : Option Node) (tree tree' : Tree) : Prop :=
  ∀ place, tree'.node place = if place = store.place name then node else tree.node place

/-! #### Operations on the file, once its directories are there -/

/-- The directories above the place of a name are there. -/
def Housed (store : Store) (name : ObjectName) (tree : Tree) : Prop :=
  ∀ dir ∈ store.dirPlaces name, tree.node dir = some .directory

theorem Replaced.housed {node : Option Node} (h : Replaced store name node tree tree')
    (hapart : Apart store names) (hname : name ∈ names) (hhoused : Housed store name tree) :
    Housed store name tree' := by
  intro dir hmem
  have hne : dir ≠ store.place name := fun heq => hapart.clear name hname name hname (heq ▸ hmem)
  rw [h, if_neg hne]
  exact hhoused dir hmem

section Operations

variable (hapart : Apart store names) (hname : name ∈ names) (hhoused : Housed store name tree)

include hapart hname

theorem place_eq : ∃ component, store.file name = store.dirs name ++ [component]
    ∧ turn component = .down component
    ∧ store.place name
      = component :: reach (store.start (store.objectPath name)) (store.dirs name) := by
  obtain ⟨component, hfile, hturn⟩ := hapart.named name hname
  refine ⟨component, hfile, hturn, ?_⟩
  rw [Store.place, hfile, reach_concat, hturn]
  rfl

include hhoused

theorem status_file :
    tree.status (store.start (store.objectPath name)) (cStr (components (store.objectPath name)))
      = tree.node (store.place name) := by
  obtain ⟨component, hfile, hturn, hplace⟩ := place_eq hapart hname
  rw [← Store.file, hfile, Tree.status_concat component hhoused, hturn, hplace]
  rfl

theorem lookup_spec :
    store.lookup (store.objectPath name) tree = (.ok (tree.node (store.place name)), tree) := by
  rw [Store.lookup, Action.gets_apply, status_file hapart hname hhoused]

theorem write_spec (hfree : tree.node (store.place name) ≠ some .directory) (bytes : Bytes) :
    ∃ tree', store.write (store.objectPath name) bytes tree = (.ok true, tree')
      ∧ Replaced store name (some (.file bytes)) tree tree' := by
  obtain ⟨component, hfile, hturn, hplace⟩ := place_eq hapart hname
  rw [hplace] at hfree
  obtain ⟨tree', hwrite, hnode⟩ := Tree.writeFile_concat hhoused hturn hfree bytes
  refine ⟨tree', ?_, ?_⟩
  · rw [Store.write, ← Store.file, hfile, hwrite]
  · rw [Replaced, hplace]
    exact hnode

theorem fileSize_spec {bytes : Bytes} (hfile : tree.node (store.place name) = some (.file bytes)) :
    Tree.fileSize (store.start (store.objectPath name))
      (cStr (components (store.objectPath name))) tree = (.ok bytes.length, tree) := by
  rw [Tree.fileSize, status_file hapart hname hhoused, hfile]

theorem remove_spec {bytes : Bytes} (hnode : tree.node (store.place name) = some (.file bytes)) :
    ∃ tree', Tree.remove (store.start (store.objectPath name))
        (cStr (components (store.objectPath name))) tree = (.ok (), tree')
      ∧ Replaced store name none tree tree' := by
  obtain ⟨component, hfile, hturn, hplace⟩ := place_eq hapart hname
  rw [hplace] at hnode
  obtain ⟨tree', hremove, hnode⟩ := Tree.remove_concat hhoused hturn hnode
  refine ⟨tree', ?_, ?_⟩
  · rw [← Store.file, hfile, hremove]
  · rw [Replaced, hplace]
    exact hnode

end Operations

/-! #### Calls -/

def contentOf : Option Node → Option Bytes
  | some (.file bytes) => some bytes
  | _ => none

/-- What a call on a name leaves. -/
structure Result (store : Store) (names : Set ObjectName) (name : ObjectName)
    (content : Option Bytes) (tree tree' : Tree) : Prop where
  ready : Ready store names tree'
  contents : ∀ other ∈ names,
    store.content tree' other = if other = name then content else store.content tree other
  within : Within store tree tree'

theorem Ensured.result (h : Ensured store names name tree tree') :
    Result store names name (store.content tree name) tree tree' where
  ready := h.ready
  contents := by
    intro other hother
    rw [Store.content, h.same other hother, ← Store.content]
    split
    · rename_i heq
      rw [heq]
    · rfl
  within := h.within

theorem Ensured.result_of_replaced {between : Tree} {node : Option Node}
    (h : Ensured store names name tree between) (hapart : Apart store names) (hname : name ∈ names)
    (hreplaced : Replaced store name node between tree') (hnode : node ≠ some .directory) :
    Result store names name (contentOf node) tree tree' where
  ready := by
    refine ⟨?_, fun other hother dir hmem => ?_, fun other hother => ?_⟩
    · have hne : store.workingDirectory ≠ store.place name := fun heq =>
        h.ready.files name hname (heq ▸ h.ready.working)
      rw [hreplaced, if_neg hne]
      exact h.ready.working
    · have hne : dir ≠ store.place name := fun heq =>
        hapart.clear name hname other hother (heq ▸ hmem)
      rw [hreplaced, if_neg hne]
      exact h.ready.dirs other hother dir hmem
    · rw [hreplaced]
      split
      · exact hnode
      · exact h.ready.files other hother
  contents := by
    intro other hother
    by_cases heq : other = name
    · rw [if_pos heq, Store.content, hreplaced, heq, if_pos rfl]
      rfl
    · have hne : store.place other ≠ store.place name := fun hplace =>
        heq (hapart.distinct other hother name hname hplace)
      rw [if_neg heq, Store.content, hreplaced, if_neg hne, h.same other hother]
      rfl
  within := by
    intro place hplace
    have hne : place ≠ store.place name := fun heq => hplace (heq ▸ hapart.inside name hname)
    rw [hreplaced, if_neg hne]
    exact h.within place hplace

/-- The status with which something is looked for. -/
def found : Option Bytes → OSSStatus
  | some _ => {}
  | none => Store.objectNotFound

/-- What a call answers, by the content of its name. -/
def Call.answer (content : Option Bytes) : Call → Answer
  | putStream _ input =>
      .status (if input = [] then { hasError := true, errorType := .emptyFile } else {})
  | put _ _ => .status {}
  | getStream _ | get _ => .object (found content) content
  | delete _ => .status (found content)
  | state _ =>
      .state { status := found content, byteSize := Int32.ofNat (content.elim 0 List.length) }

/-- The content of its name that a call leaves. -/
def Call.leaves (content : Option Bytes) : Call → Option Bytes
  | putStream _ input => if input = [] then none else some input
  | put _ buffer => some buffer
  | getStream _ | get _ | state _ => content
  | delete _ => none

theorem putObjectStream_spec (hapart : Apart store names) (hready : Ready store names tree)
    (hname : name ∈ names) (input : Bytes) :
    ∃ tree', store.putObjectStream name input tree
        = (.ok (if input = [] then { hasError := true, errorType := .emptyFile } else {}), tree')
      ∧ Result store names name (if input = [] then none else some input) tree tree' := by
  obtain ⟨made, hensure, hmade⟩ := ensureObjectPath_spec hapart hready hname
  obtain ⟨written, hwrite, hwritten⟩ :=
    write_spec hapart hname hmade.made (hmade.ready.files name hname) input
  have hhoused := hwritten.housed hapart hname hmade.made
  have hfile : written.node (store.place name) = some (.file input) := by
    rw [hwritten, if_pos rfl]
  rw [Store.putObjectStream, Action.bind_of_ok hensure, Action.bind_of_ok hwrite]
  simp only
  rw [Action.bind_of_ok (fileSize_spec hapart hname hhoused hfile)]
  by_cases hinput : input = []
  · obtain ⟨removed, hremove, hremoved⟩ := remove_spec hapart hname hhoused hfile
    rw [if_pos (List.length_eq_zero_iff.mpr hinput), Action.bind_of_ok hremove, if_pos hinput,
      if_pos hinput]
    have hreplaced : Replaced store name none made removed := by
      intro place
      rw [hremoved, hwritten]
      split
      · rfl
      · rfl
    exact ⟨removed, rfl, hmade.result_of_replaced hapart hname hreplaced fun h => by cases h⟩
  · rw [if_neg (mt List.length_eq_zero_iff.mp hinput), if_neg hinput, if_neg hinput]
    exact ⟨written, rfl, hmade.result_of_replaced hapart hname hwritten fun h => by cases h⟩

theorem putObject_spec (hapart : Apart store names) (hready : Ready store names tree)
    (hname : name ∈ names) (buffer : Bytes) :
    ∃ tree', store.putObject name buffer tree = (.ok {}, tree')
      ∧ Result store names name (some buffer) tree tree' := by
  obtain ⟨made, hensure, hmade⟩ := ensureObjectPath_spec hapart hready hname
  obtain ⟨written, hwrite, hwritten⟩ :=
    write_spec hapart hname hmade.made (hmade.ready.files name hname) buffer
  rw [Store.putObject, Action.bind_of_ok hensure, Action.bind_of_ok hwrite]
  exact ⟨written, rfl, hmade.result_of_replaced hapart hname hwritten fun h => by cases h⟩

theorem Ready.node_cases (hready : Ready store names tree) (hname : name ∈ names) :
    (tree.node (store.place name) = none ∧ store.content tree name = none)
      ∨ ∃ bytes, tree.node (store.place name) = some (.file bytes)
        ∧ store.content tree name = some bytes := by
  rw [Store.content]
  rcases hnode : tree.node (store.place name) with - | (bytes | -)
  · exact .inl ⟨rfl, rfl⟩
  · exact .inr ⟨bytes, rfl, rfl⟩
  · exact absurd hnode (hready.files name hname)

theorem Ensured.content_eq (h : Ensured store names name tree tree') (hname : name ∈ names) :
    store.content tree' name = store.content tree name := by
  rw [Store.content, h.same name hname, ← Store.content]

/-- Every call on what stands there makes the directories and looks it up. -/
theorem looked_spec (hapart : Apart store names) (hready : Ready store names tree)
    (hname : name ∈ names) :
    ∃ made, Ensured store names name tree made ∧
      (∀ (β : Type) (rest : Path → Option Node → Action Failure Tree β), (do
          let path ← store.ensureObjectPath name
          let node ← store.lookup path
          rest path node) tree
        = rest (store.objectPath name) (made.node (store.place name)) made) ∧
      (made.node (store.place name) = none ∧ store.content tree name = none
        ∨ ∃ bytes, made.node (store.place name) = some (.file bytes)
          ∧ store.content tree name = some bytes) := by
  obtain ⟨made, hensure, hmade⟩ := ensureObjectPath_spec hapart hready hname
  refine ⟨made, hmade, fun β rest => ?_, ?_⟩
  · rw [Action.bind_of_ok hensure, Action.bind_of_ok (lookup_spec hapart hname hmade.made)]
  · rw [← hmade.content_eq hname]
    exact hmade.ready.node_cases hname

theorem getObjectStream_spec (hapart : Apart store names) (hready : Ready store names tree)
    (hname : name ∈ names) :
    ∃ tree', store.getObjectStream name tree
        = (.ok (found (store.content tree name), store.content tree name), tree')
      ∧ Result store names name (store.content tree name) tree tree' := by
  obtain ⟨made, hmade, hrun, hlooked⟩ := looked_spec hapart hready hname
  refine ⟨made, ?_, hmade.result⟩
  rw [Store.getObjectStream, hrun]
  rcases hlooked with ⟨hnode, hcontent⟩ | ⟨bytes, hnode, hcontent⟩
  · rw [hnode, hcontent]
    rfl
  · rw [hnode, hcontent]
    rfl

theorem getObject_spec (hapart : Apart store names) (hready : Ready store names tree)
    (hname : name ∈ names) :
    ∃ tree', store.getObject name tree
        = (.ok (found (store.content tree name), store.content tree name), tree')
      ∧ Result store names name (store.content tree name) tree tree' := by
  obtain ⟨made, hmade, hrun, hlooked⟩ := looked_spec hapart hready hname
  refine ⟨made, ?_, hmade.result⟩
  rw [Store.getObject, hrun]
  rcases hlooked with ⟨hnode, hcontent⟩ | ⟨bytes, hnode, hcontent⟩
  · rw [hnode, hcontent]
    rfl
  · rw [hnode, hcontent]
    rfl

theorem deleteObject_spec (hapart : Apart store names) (hready : Ready store names tree)
    (hname : name ∈ names) :
    ∃ tree', store.deleteObject name tree = (.ok (found (store.content tree name)), tree')
      ∧ Result store names name none tree tree' := by
  obtain ⟨made, hmade, hrun, hlooked⟩ := looked_spec hapart hready hname
  rw [Store.deleteObject, hrun]
  rcases hlooked with ⟨hnode, hcontent⟩ | ⟨bytes, hnode, hcontent⟩
  · rw [if_pos hnode, hcontent]
    have hresult := hmade.result
    rw [hcontent] at hresult
    exact ⟨made, rfl, hresult⟩
  · obtain ⟨removed, hremove, hremoved⟩ := remove_spec hapart hname hmade.made hnode
    rw [hnode, if_neg (Option.some_ne_none _), hcontent, Action.bind_of_ok hremove]
    exact ⟨removed, rfl, hmade.result_of_replaced hapart hname hremoved fun h => by cases h⟩

theorem getObjectState_spec (hapart : Apart store names) (hready : Ready store names tree)
    (hname : name ∈ names) :
    ∃ tree', store.getObjectState name tree
        = (.ok { status := found (store.content tree name),
                 byteSize := Int32.ofNat ((store.content tree name).elim 0 List.length) }, tree')
      ∧ Result store names name (store.content tree name) tree tree' := by
  obtain ⟨made, hmade, hrun, hlooked⟩ := looked_spec hapart hready hname
  refine ⟨made, ?_, hmade.result⟩
  rw [Store.getObjectState, hrun]
  rcases hlooked with ⟨hnode, hcontent⟩ | ⟨bytes, hnode, hcontent⟩
  · rw [if_pos hnode, hcontent]
    rfl
  · rw [hnode, if_neg (Option.some_ne_none _), hcontent,
      Action.bind_of_ok (fileSize_spec hapart hname hmade.made hnode)]
    rfl

/-- **Each call reads and changes the object of its name only**, inside the root. -/
theorem perform_spec (hapart : Apart store names) (hready : Ready store names tree)
    {call : Call} (hname : call.name ∈ names) :
    ∃ tree', store.perform call tree
        = (.ok (call.answer (store.content tree call.name)), tree')
      ∧ Result store names call.name (call.leaves (store.content tree call.name)) tree tree' := by
  cases call with
  | putStream name input =>
      obtain ⟨tree', hrun, hresult⟩ := putObjectStream_spec hapart hready hname input
      exact ⟨tree', Action.bind_of_ok hrun, hresult⟩
  | put name buffer =>
      obtain ⟨tree', hrun, hresult⟩ := putObject_spec hapart hready hname buffer
      exact ⟨tree', Action.bind_of_ok hrun, hresult⟩
  | getStream name =>
      obtain ⟨tree', hrun, hresult⟩ := getObjectStream_spec hapart hready hname
      exact ⟨tree', Action.bind_of_ok hrun, hresult⟩
  | get name =>
      obtain ⟨tree', hrun, hresult⟩ := getObject_spec hapart hready hname
      exact ⟨tree', Action.bind_of_ok hrun, hresult⟩
  | delete name =>
      obtain ⟨tree', hrun, hresult⟩ := deleteObject_spec hapart hready hname
      exact ⟨tree', Action.bind_of_ok hrun, hresult⟩
  | state name =>
      obtain ⟨tree', hrun, hresult⟩ := getObjectState_spec hapart hready hname
      exact ⟨tree', Action.bind_of_ok hrun, hresult⟩

end Spec

/-! ### The finite map -/

/-- What a map from names to contents answers to a call, and how it is changed: a put with an
error leaves it as it was. -/
def Answers (names : Set ObjectName) (map map' : ObjectName → Option Bytes) :
    Call → Answer → Prop
  | .putStream name bytes, .status status | .put name bytes, .status status =>
      ∀ other ∈ names,
        map' other = if other = name ∧ status.hasError = false then some bytes else map other
  | .getStream name, .object status content | .get name, .object status content =>
      status = found (map name) ∧ content = map name ∧ ∀ other ∈ names, map' other = map other
  | .delete name, .status status =>
      status = found (map name)
        ∧ ∀ other ∈ names, map' other = if other = name then none else map other
  | .state name, .state state =>
      state.status = found (map name)
        ∧ (∀ bytes, map name = some bytes → state.byteSize.toInt = bytes.length)
        ∧ ∀ other ∈ names, map' other = map other
  | _, _ => False

/-- A call on which the store behaves as a finite map. -/
structure Lawful (store : Store) (names : Set ObjectName) (tree : Tree) (call : Call) : Prop where
  answered : ∃ answer, (store.perform call tree).1 = .ok answer
    ∧ Answers names (store.content tree) (store.content (store.after tree call)) call answer
  within : Within store tree (store.after tree call)
  /-- Whatever one overload of `PutObject` does, the other one does. -/
  agree : ∀ name bytes, call = .putStream name bytes ∨ call = .put name bytes →
    (store.perform (.putStream name bytes) tree).1 = (store.perform (.put name bytes) tree).1
      ∧ ∀ other ∈ names, store.content (store.after tree (.putStream name bytes)) other
          = store.content (store.after tree (.put name bytes)) other

/-- Something is put, and the size that is asked for is an `int32_t`. -/
def Sound (store : Store) (tree : Tree) : Call → Prop
  | .putStream _ bytes | .put _ bytes => bytes ≠ []
  | .state name => (store.content tree name).elim 0 List.length < 2 ^ 31
  | _ => True

section Law

variable {store : Store} {names : Set ObjectName} {tree : Tree} {call : Call}

theorem ready_after (hapart : Apart store names) (hready : Ready store names tree)
    (hname : call.name ∈ names) : Ready store names (store.after tree call) := by
  obtain ⟨tree', hrun, hresult⟩ := perform_spec hapart hready hname
  rw [Store.after, hrun]
  exact hresult.ready

/-- The overloads of `PutObject` agree on what is not empty, and on nothing else. -/
theorem overloads_agree_iff (hapart : Apart store names) (hready : Ready store names tree)
    {name : ObjectName} (hname : name ∈ names) (bytes : Bytes) :
    ((store.perform (.putStream name bytes) tree).1 = (store.perform (.put name bytes) tree).1
      ∧ ∀ other ∈ names, store.content (store.after tree (.putStream name bytes)) other
          = store.content (store.after tree (.put name bytes)) other)
      ↔ bytes ≠ [] := by
  have hstreams : (Call.putStream name bytes).name ∈ names := hname
  have hputs : (Call.put name bytes).name ∈ names := hname
  obtain ⟨streamed, hstream, hstreamed⟩ := perform_spec hapart hready hstreams
  obtain ⟨put, hput, hbuffered⟩ := perform_spec hapart hready hputs
  rw [Store.after, Store.after, hstream, hput]
  constructor
  · rintro ⟨hanswer, -⟩ rfl
    simp [Call.answer] at hanswer
  · intro hne
    refine ⟨by simp [Call.answer, hne], fun other hother => ?_⟩
    rw [hstreamed.contents other hother, hbuffered.contents other hother, Call.leaves, if_neg hne]
    rfl

theorem answers_of_sound {tree' : Tree} (hresult : Result store names call.name
      (call.leaves (store.content tree call.name)) tree tree') (hsound : Sound store tree call) :
    Answers names (store.content tree) (store.content tree') call
      (call.answer (store.content tree call.name)) := by
  have hcontents := hresult.contents
  have hsame : call.leaves (store.content tree call.name) = store.content tree call.name →
      ∀ other ∈ names, store.content tree' other = store.content tree other := by
    intro hleaves other hother
    rw [hcontents other hother, hleaves]
    split
    · rename_i heq
      rw [heq]
    · rfl
  cases call with
  | putStream name input =>
      have hne : input ≠ [] := hsound
      rw [Call.answer, if_neg hne]
      intro other hother
      have hput : store.content tree' other
          = if other = name then if input = [] then none else some input
            else store.content tree other := hcontents other hother
      rw [hput, if_neg hne]
      by_cases heq : other = name
      · rw [if_pos heq, if_pos ⟨heq, rfl⟩]
      · rw [if_neg heq, if_neg fun h => heq h.1]
  | put name buffer =>
      intro other hother
      have hput : store.content tree' other
          = if other = name then some buffer else store.content tree other :=
        hcontents other hother
      rw [hput]
      by_cases heq : other = name
      · rw [if_pos heq, if_pos ⟨heq, rfl⟩]
      · rw [if_neg heq, if_neg fun h => heq h.1]
  | getStream name => exact ⟨rfl, rfl, hsame rfl⟩
  | get name => exact ⟨rfl, rfl, hsame rfl⟩
  | delete name => exact ⟨rfl, hcontents⟩
  | state name =>
      refine ⟨rfl, fun bytes hbytes => ?_, hsame rfl⟩
      have hsound : (store.content tree name).elim 0 List.length < 2 ^ 31 := hsound
      rw [hbytes] at hsound
      show (Int32.ofNat ((store.content tree name).elim 0 List.length)).toInt = bytes.length
      rw [hbytes]
      exact (toInt_ofNat_eq_iff (Nat.le_refl _)).mpr ⟨rfl, hsound⟩

theorem lawful_iff_sound (hapart : Apart store names) (hready : Ready store names tree)
    (hname : call.name ∈ names) : Lawful store names tree call ↔ Sound store tree call := by
  obtain ⟨tree', hrun, hresult⟩ := perform_spec hapart hready hname
  have hafter : store.after tree call = tree' := by rw [Store.after, hrun]
  constructor
  · intro hlawful
    cases call with
    | putStream name bytes =>
        exact (overloads_agree_iff hapart hready hname bytes).mp
          (hlawful.agree name bytes (.inl rfl))
    | put name bytes =>
        exact (overloads_agree_iff hapart hready hname bytes).mp
          (hlawful.agree name bytes (.inr rfl))
    | state name =>
        obtain ⟨answer, hanswer, hanswers⟩ := hlawful.answered
        rw [hrun] at hanswer
        obtain rfl := Except.ok.inj hanswer
        obtain ⟨-, hsize, -⟩ := hanswers
        show (store.content tree name).elim 0 List.length < 2 ^ 31
        rcases hcontent : store.content tree name with - | bytes
        · exact Nat.two_pow_pos 31
        · have htold := hsize bytes hcontent
          simp only [Call.name, hcontent, Option.elim_some] at htold
          exact ((toInt_ofNat_eq_iff (Nat.le_refl _)).mp htold).2
    | getStream name => trivial
    | get name => trivial
    | delete name => trivial
  · intro hsound
    refine ⟨⟨_, by rw [hrun], hafter ▸ answers_of_sound hresult hsound⟩, hafter ▸ hresult.within,
      fun name bytes hcall => ?_⟩
    have hne : bytes ≠ [] := by
      rcases hcall with rfl | rfl
      · exact hsound
      · exact hsound
    have hmem : name ∈ names := by
      rcases hcall with rfl | rfl
      · exact hname
      · exact hname
    exact (overloads_agree_iff hapart hready hmem bytes).mpr hne

/-- **A store whose names keep apart is a finite map** along a run of calls, if and only if
nothing empty is put in it and no size is asked for that is too large to be told. -/
theorem lawful_iff (hapart : Apart store names) (hready : Ready store names tree)
    {calls : List Call} (hnamed : ∀ call ∈ calls, call.name ∈ names) :
    Meets store.after (Lawful store names) tree calls
      ↔ Meets store.after (Sound store) tree calls :=
  meets_congr (I := Ready store names) (P := fun call => call.name ∈ names)
    (fun _ _ hready hname => ready_after hapart hready hname)
    (fun _ _ hready hname => lawful_iff_sound hapart hready hname) hready hnamed

end Law

/-! ### Names that keep apart -/

section Paths

variable {path other : Path}

theorem components_ne_nil (path : Path) : components path ≠ [] := by
  cases path with
  | nil => nofun
  | cons c cs =>
      rw [components]
      split
      · nofun
      · split
        · nofun
        · nofun

theorem components_append (path other : Path) :
    components (path ++ '/' :: other) = components path ++ components other := by
  induction path with
  | nil => rfl
  | cons c cs ih =>
      rw [List.cons_append, components, components]
      split
      · rw [ih, List.cons_append]
      · obtain ⟨name, names, hnames⟩ := List.exists_cons_of_ne_nil (components_ne_nil cs)
        rw [ih, hnames]
        rfl

theorem mem_of_mem_components {name : Name} (hname : name ∈ components path) {c : Char}
    (hc : c ∈ name) : c ∈ path := by
  induction path generalizing name with
  | nil =>
      rw [List.mem_singleton.mp hname] at hc
      cases hc
  | cons first cs ih =>
      rw [components] at hname
      split at hname
      · rcases List.mem_cons.mp hname with rfl | hname
        · cases hc
        · exact List.mem_cons_of_mem _ (ih hname hc)
      · obtain ⟨front, names, hnames⟩ := List.exists_cons_of_ne_nil (components_ne_nil cs)
        rw [hnames] at hname ih
        rcases List.mem_cons.mp hname with rfl | hname
        · rcases List.mem_cons.mp hc with rfl | hc
          · exact List.mem_cons_self
          · exact List.mem_cons_of_mem _ (ih List.mem_cons_self hc)
        · exact List.mem_cons_of_mem _ (ih (List.mem_cons_of_mem _ hname) hc)

theorem cStr_eq {names : List Name} (h : ∀ name ∈ names, '\x00' ∉ name) : cStr names = names := by
  induction names with
  | nil => rfl
  | cons name names ih =>
      rw [cStr, if_neg (h name List.mem_cons_self),
        ih fun other hother => h other (List.mem_cons_of_mem _ hother)]

/-- A component that is the name of a file. -/
structure Proper (name : Name) : Prop where
  down : turn name = .down name
  noNul : '\x00' ∉ name

theorem Proper.ne_nil {name : Name} (h : Proper name) : name ≠ [] := by
  rintro rfl
  cases h.down

theorem isAbsolute_of_proper (h : ∀ name ∈ components path, Proper name) :
    isAbsolute path = false := by
  cases path with
  | nil => rfl
  | cons c cs =>
      rw [components] at h
      by_cases hc : c = '/'
      · rw [if_pos hc] at h
        exact absurd rfl (h [] List.mem_cons_self).ne_nil
      · simp [isAbsolute, hc]

theorem hasFilename_append (h : ∀ name ∈ components other, Proper name) :
    hasFilename (path ++ '/' :: other) = true := by
  have hlast : (path ++ '/' :: other).getLast? ≠ some '/' := by
    intro hslash
    obtain ⟨front, hfront⟩ := List.getLast?_eq_some_iff.mp hslash
    have hends : components (front ++ ['/']) = components front ++ [[]] :=
      components_append front []
    rw [← hfront, components_append] at hends
    have hmem : ([] : Name) ∈ components other := by
      have hne := components_ne_nil other
      have hgetLast := congrArg List.getLast? hends
      rw [List.getLast?_append_of_ne_nil _ hne, List.getLast?_concat] at hgetLast
      exact List.mem_of_getLast? hgetLast
    exact (h [] hmem).ne_nil rfl
  rw [hasFilename, Bool.and_eq_true]
  exact ⟨by simp, decide_eq_true hlast⟩

theorem ne_nil_of_hasFilename (h : hasFilename path = true) : path ≠ [] := by
  rintro rfl
  cases h

theorem join_eq (hpath : hasFilename path = true)
    (hother : ∀ name ∈ components other, Proper name) : join path other = path ++ '/' :: other := by
  rw [join, isAbsolute_of_proper hother, Bool.false_or,
    if_neg (by simpa using ne_nil_of_hasFilename hpath), if_pos hpath]

end Paths

/-- The components that a name adds to the path of the root. -/
def ObjectName.parts (name : ObjectName) : List Name :=
  components name.bucketName ++ components name.objectKey

/-- A root directory that is reached by going down only. -/
structure Store.Rooted (store : Store) : Prop where
  filename : hasFilename store.rootDirectory = true
  noNul : '\x00' ∉ store.rootDirectory
  down : ∀ dir ∈ visited (store.start store.rootDirectory) (components store.rootDirectory),
    dir <:+ store.rootPlace

section Names

variable {store : Store} {names : Set ObjectName} {name : ObjectName}

theorem Store.Rooted.cStr_root (hrooted : store.Rooted) :
    cStr (components store.rootDirectory) = components store.rootDirectory :=
  cStr_eq fun _ hmem h => hrooted.noNul (mem_of_mem_components hmem h)

theorem ObjectName.parts_ne_nil (name : ObjectName) : name.parts ≠ [] := by
  rw [ObjectName.parts]
  exact List.append_ne_nil_of_left_ne_nil (components_ne_nil _) _

theorem objectPath_eq (hroot : hasFilename store.rootDirectory = true)
    (hproper : ∀ part ∈ name.parts, Proper part) :
    store.objectPath name
      = (store.rootDirectory ++ '/' :: name.bucketName) ++ '/' :: name.objectKey := by
  have hbucket : ∀ part ∈ components name.bucketName, Proper part :=
    fun part hmem => hproper part (List.mem_append_left _ hmem)
  have hkey : ∀ part ∈ components name.objectKey, Proper part :=
    fun part hmem => hproper part (List.mem_append_right _ hmem)
  rw [Store.objectPath, join_eq hroot hbucket, join_eq (hasFilename_append hbucket) hkey]

/-- The paths of names with proper parts go down from the root. -/
theorem Store.Rooted.paths (hrooted : store.Rooted) (hproper : ∀ part ∈ name.parts, Proper part) :
    store.start (store.objectPath name) = store.start store.rootDirectory
      ∧ store.file name = components store.rootDirectory ++ name.parts
      ∧ store.dirs name = components store.rootDirectory ++ name.parts.dropLast := by
  have hpath := objectPath_eq hrooted.filename hproper
  have hcomponents : components (store.objectPath name)
      = components store.rootDirectory ++ name.parts := by
    rw [hpath, components_append, components_append, List.append_assoc]
    rfl
  have hnul : ∀ part ∈ components store.rootDirectory ++ name.parts, '\x00' ∉ part := by
    intro part hmem
    rcases List.mem_append.mp hmem with hmem | hmem
    · exact fun h => hrooted.noNul (mem_of_mem_components hmem h)
    · exact (hproper part hmem).noNul
  refine ⟨?_, ?_, ?_⟩
  · obtain ⟨c, cs, hroot⟩ :=
      List.exists_cons_of_ne_nil (ne_nil_of_hasFilename hrooted.filename)
    rw [hpath, hroot]
    rfl
  · rw [Store.file, hcomponents, cStr_eq hnul]
  · rw [Store.dirs, parentPath, hcomponents, List.dropLast_append_of_ne_nil name.parts_ne_nil,
      cStr_eq]
    intro part hmem
    refine hnul part ?_
    rcases List.mem_append.mp hmem with hmem | hmem
    · exact List.mem_append_left _ hmem
    · exact List.mem_append_right _ (List.mem_of_mem_dropLast hmem)

theorem Store.Rooted.place_eq (hrooted : store.Rooted)
    (hproper : ∀ part ∈ name.parts, Proper part) :
    store.place name = name.parts.reverse ++ store.rootPlace := by
  obtain ⟨hstart, hfile, -⟩ := hrooted.paths hproper
  rw [Store.place, hstart, hfile, Store.rootPlace, hrooted.cStr_root, reach, List.foldl_append]
  exact reach_names (fun part hmem => (hproper part hmem).down) _

theorem Store.Rooted.mem_dirPlaces (hrooted : store.Rooted)
    (hproper : ∀ part ∈ name.parts, Proper part) {dir : Place}
    (hmem : dir ∈ store.dirPlaces name) :
    dir ∈ visited (store.start store.rootDirectory) (components store.rootDirectory)
      ∨ ∃ front, front <+: name.parts.dropLast ∧ dir = front.reverse ++ store.rootPlace := by
  obtain ⟨hstart, -, hdirs⟩ := hrooted.paths hproper
  rw [Store.dirPlaces, hstart, hdirs, mem_visited_append] at hmem
  refine hmem.imp id fun hmem => ?_
  rw [Store.rootPlace, hrooted.cStr_root]
  exact exists_prefix_of_mem_visited
    (fun part hpart => (hproper part (List.mem_of_mem_dropLast hpart)).down) hmem

/-- **Names of proper parts keep apart** if the parts of none of them begin those of another. -/
theorem apart_of_prefix_free (hrooted : store.Rooted)
    (hproper : ∀ name ∈ names, ∀ part ∈ name.parts, Proper part)
    (hfree : ∀ name ∈ names, ∀ other ∈ names, name.parts <+: other.parts → name = other) :
    Apart store names where
  named := by
    intro name hname
    obtain ⟨-, hfile, hdirs⟩ := hrooted.paths (hproper name hname)
    refine ⟨name.parts.getLast name.parts_ne_nil, ?_,
      (hproper name hname _ (List.getLast_mem _)).down⟩
    rw [hfile, hdirs, List.append_assoc, List.dropLast_concat_getLast]
  inside := by
    intro name hname
    rw [hrooted.place_eq (hproper name hname)]
    exact List.suffix_append _ _
  distinct := by
    intro name hname other hother hplace
    rw [hrooted.place_eq (hproper name hname), hrooted.place_eq (hproper other hother)] at hplace
    have hparts := List.reverse_injective (List.append_cancel_right hplace)
    exact hfree name hname other hother (hparts ▸ List.prefix_rfl)
  clear := by
    intro name hname other hother hmem
    rw [hrooted.place_eq (hproper name hname)] at hmem
    rcases hrooted.mem_dirPlaces (hproper other hother) hmem with hroot | ⟨front, hfront, heq⟩
    · have hlength := (hrooted.down _ hroot).length_le
      have hpos := List.length_pos_iff.mpr name.parts_ne_nil
      rw [List.length_append, List.length_reverse] at hlength
      omega
    · have hparts := List.reverse_injective (List.append_cancel_right heq)
      rw [← hparts] at hfront
      obtain rfl := hfree name hname other hother (hfront.trans (List.dropLast_prefix _))
      have hlength := hfront.length_le
      have hpos := List.length_pos_iff.mpr name.parts_ne_nil
      rw [List.length_dropLast] at hlength
      omega

/-- A root directory with nothing in it is ready for such names. -/
theorem ready_of_bare (hrooted : store.Rooted) {tree : Tree}
    (hproper : ∀ name ∈ names, ∀ part ∈ name.parts, Proper part)
    (hworking : tree.node store.workingDirectory = some .directory)
    (hroot : ∀ dir ∈ visited (store.start store.rootDirectory) (components store.rootDirectory),
      tree.node dir = some .directory)
    (hbare : ∀ place name, store.rootPlace <:+ place → tree.node (name :: place) = none) :
    Ready store names tree where
  working := hworking
  dirs := by
    intro name hname dir hmem
    rcases hrooted.mem_dirPlaces (hproper name hname) hmem with hmem | ⟨front, -, rfl⟩
    · exact .inl (hroot dir hmem)
    · cases hreverse : front.reverse with
      | nil =>
          rw [Store.rootPlace, hrooted.cStr_root]
          exact .inl (hroot _ (reach_mem_visited _ _))
      | cons part parts =>
          rw [List.cons_append]
          exact .inr ⟨hbare _ part (List.suffix_append _ _),
            List.suffix_append (part :: parts) _⟩
  files := by
    intro name hname
    rw [hrooted.place_eq (hproper name hname)]
    cases hreverse : name.parts.reverse with
    | nil => exact absurd (List.reverse_eq_nil_iff.mp hreverse) name.parts_ne_nil
    | cons part parts =>
        rw [List.cons_append, hbare _ part (List.suffix_append _ _)]
        exact fun h => by cases h

/-! #### Single components -/

/-- A string that is the name of a file in its directory. -/
structure Plain (path : Path) : Prop where
  noSlash : '/' ∉ path
  proper : Proper path

theorem Plain.components_eq {path : Path} (h : Plain path) : components path = [path] := by
  have hsingle : ∀ path : Path, '/' ∉ path → components path = [path] := by
    intro path hslash
    induction path with
    | nil => rfl
    | cons c cs ih =>
        have hc : c ≠ '/' := fun heq => hslash (heq ▸ List.mem_cons_self)
        rw [components, if_neg hc, ih fun hmem => hslash (List.mem_cons_of_mem _ hmem)]
  exact hsingle path h.noSlash

/-- The names whose bucket and key are single components. -/
def plainNames : Set ObjectName := fun name => Plain name.bucketName ∧ Plain name.objectKey

theorem parts_of_plain (h : name ∈ plainNames) :
    name.parts = [name.bucketName, name.objectKey] := by
  rw [ObjectName.parts, h.1.components_eq, h.2.components_eq]
  rfl

theorem proper_of_plain (h : name ∈ plainNames) : ∀ part ∈ name.parts, Proper part := by
  intro part hmem
  rw [parts_of_plain h] at hmem
  rcases List.mem_cons.mp hmem with rfl | hmem
  · exact h.1.proper
  · rw [List.mem_singleton.mp hmem]
    exact h.2.proper

/-- Plain names keep apart. -/
theorem apart_plain (hrooted : store.Rooted) : Apart store plainNames := by
  apply apart_of_prefix_free hrooted fun name hname => proper_of_plain hname
  intro name hname other hother hprefix
  rw [parts_of_plain hname, parts_of_plain hother] at hprefix
  have hsame := hprefix.eq_of_length rfl
  obtain ⟨bucketName, objectKey⟩ := name
  obtain ⟨otherBucket, otherKey⟩ := other
  simp only [List.cons.injEq, and_true] at hsame
  obtain ⟨rfl, rfl⟩ := hsame
  rfl

end Names

/-! ### A store at `/d` -/

def dStore : Store := { rootDirectory := ['/', 'd'] }

theorem dVacant : Tree.empty.node [['d']] ≠ some .directory := by decide

/-- The file system with the root directory only. -/
def dTree : Tree := Tree.empty.put ['d'] [] .directory Tree.empty.node_nil dVacant

theorem dStore_rooted : dStore.Rooted where
  filename := by decide
  noNul := by decide
  down := by decide

theorem dStore_ready : Ready dStore plainNames dTree := by
  apply ready_of_bare dStore_rooted fun name hname => proper_of_plain hname
  · rfl
  · decide
  · intro place name hplace
    have hplace : [['d']] <:+ place := hplace
    rw [dTree, Tree.node_put Tree.empty.node_nil dVacant, if_neg]
    · rfl
    · intro heq
      rw [(List.cons.inj heq).2] at hplace
      exact absurd hplace.length_le (by decide)

def bk : ObjectName := ⟨['b'], ['k']⟩

theorem bk_plain : bk ∈ plainNames := by
  refine ⟨⟨by decide, ⟨rfl, by decide⟩⟩, ⟨by decide, ⟨rfl, by decide⟩⟩⟩

/-- An object that is put, read, replaced, measured and deleted. -/
theorem lawful_bk : Meets dStore.after (Lawful dStore plainNames) dTree
    [.putStream bk [1], .get bk, .put bk [2, 3], .state bk, .delete bk, .getStream bk] := by
  apply (lawful_iff (apart_plain dStore_rooted) dStore_ready ?_).mpr
  · refine ⟨nofun, trivial, nofun, ?_, trivial, trivial, trivial⟩
    rw [Sound]
    decide
  · intro call hmem
    have hname : call.name = bk := by
      revert call
      decide
    rw [hname]
    exact bk_plain

/-- **What the names and contents of the claim allow, the store does not**: a put of nothing that
reports an error takes the content away, a name reads what was put under another one, and
something is written outside the root. -/
theorem dStore_not_lawful :
    ¬ Meets dStore.after (Lawful dStore Set.univ) dTree [.put bk [1], .putStream bk []]
      ∧ ¬ Meets dStore.after (Lawful dStore Set.univ) dTree
          [.put bk [1], .put ⟨['b'], ['.', '/', 'k']⟩ [2]]
      ∧ ¬ Meets dStore.after (Lawful dStore Set.univ) dTree [.put ⟨['b'], ['/', 'k']⟩ [1]] := by
  refine ⟨fun h => ?_, fun h => ?_, fun h => ?_⟩
  · obtain ⟨-, ⟨⟨answer, hanswer, hanswers⟩, -, -⟩, -⟩ := h
    have hrun : (dStore.perform (.putStream bk []) (dStore.after dTree (.put bk [1]))).1
        = .ok (.status { hasError := true, errorType := .emptyFile }) := by decide
    rw [hrun] at hanswer
    obtain rfl := Except.ok.inj hanswer
    have hkept := hanswers bk trivial
    revert hkept
    decide
  · obtain ⟨-, ⟨⟨answer, hanswer, hanswers⟩, -, -⟩, -⟩ := h
    have hrun : (dStore.perform (.put ⟨['b'], ['.', '/', 'k']⟩ [2])
        (dStore.after dTree (.put bk [1]))).1 = .ok (.status {}) := by decide
    rw [hrun] at hanswer
    obtain rfl := Except.ok.inj hanswer
    have hkept := hanswers bk trivial
    revert hkept
    decide
  · obtain ⟨⟨-, hwithin, -⟩, -⟩ := h
    have hkept := hwithin [['k']] (by decide)
    revert hkept
    decide

end Instinct.ObjectPaths
