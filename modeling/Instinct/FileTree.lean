/-
Instinct/FileTree.lean

A hierarchical file system, as a small library of its own.

A place is where something stands in the tree: the names on the way down to it,
the last one first.  A tree has a file or a directory at some places, and what it
has stands in a directory.  A path is a list of components that is walked from a
place, and is more than a place: `.` and the empty component stay, `..` goes up,
and each place on the way must be a directory.  Names and paths may have any length:
a system that refuses long ones is not meant.

`createDirectories_spec` says what making a directory with all those above it does,
and `status_concat`, `writeFile_concat` and `remove_concat` are the operations on
a path that ends with a name, once its directories are there.
-/
import Instinct.Effects
import Mathlib.Data.List.AList
import Mathlib.Data.List.Infix

namespace FileTree

open Effects

abbrev Name := List Char

/-- The names on the way down, the last one first. -/
abbrev Place := List Name

inductive Node
  | file (bytes : List UInt8)
  | directory
  deriving Repr, DecidableEq

/-- Why an operation fails. -/
inductive Failure
  | noSuchEntry
  | notADirectory
  | isADirectory
  | directoryNotEmpty
  | invalidArgument
  deriving Repr, DecidableEq

/-! ### Trees -/

/-- What stands at a place, by the entries of a tree. -/
def nodeOf (entries : AList fun _ : Place => Node) : Place → Option Node
  | [] => some .directory
  | name :: dir => entries.lookup (name :: dir)

/-- A tree of files and directories.  Whatever stands in it stands in a directory. -/
structure Tree where
  entries : AList fun _ : Place => Node
  parents : ∀ name dir, (nodeOf entries (name :: dir)).isSome = true →
    nodeOf entries dir = some .directory

namespace Tree

def node (tree : Tree) : Place → Option Node := nodeOf tree.entries

theorem node_nil (tree : Tree) : tree.node [] = some .directory := rfl

theorem node_parent {tree : Tree} {name : Name} {dir : Place}
    (h : (tree.node (name :: dir)).isSome = true) : tree.node dir = some .directory :=
  tree.parents name dir h

/-- Above a directory there are directories. -/
theorem node_tail {tree : Tree} {place : Place} (h : tree.node place = some .directory) :
    tree.node place.tail = some .directory := by
  cases place with
  | nil => exact tree.node_nil
  | cons name dir =>
      have hsome : (tree.node (name :: dir)).isSome = true := by
        rw [h]
        rfl
      exact node_parent hsome

/-- The tree without anything in it. -/
def empty : Tree where
  entries := ∅
  parents := by
    intro name dir h
    rw [nodeOf, AList.lookup_empty] at h
    cases h

theorem nodeOf_insert (entries : AList fun _ : Place => Node) (name : Name) (dir place : Place)
    (entry : Node) :
    nodeOf (entries.insert (name :: dir) entry) place
      = if place = name :: dir then some entry else nodeOf entries place := by
  cases place with
  | nil => rfl
  | cons other above =>
      split
      · rename_i hplace
        rw [hplace, nodeOf, AList.lookup_insert]
      · rename_i hplace
        rw [nodeOf, nodeOf, AList.lookup_insert_ne hplace]

theorem nodeOf_erase (entries : AList fun _ : Place => Node) (name : Name) (dir place : Place) :
    nodeOf (entries.erase (name :: dir)) place
      = if place = name :: dir then none else nodeOf entries place := by
  cases place with
  | nil => rfl
  | cons other above =>
      split
      · rename_i hplace
        rw [hplace, nodeOf, AList.lookup_erase]
      · rename_i hplace
        rw [nodeOf, nodeOf, AList.lookup_erase_ne hplace]

/-- A file or a directory is put into a directory, in the place of a file at most. -/
def put (tree : Tree) (name : Name) (dir : Place) (entry : Node)
    (hdir : tree.node dir = some .directory)
    (hfree : tree.node (name :: dir) ≠ some .directory) : Tree where
  entries := tree.entries.insert (name :: dir) entry
  parents := by
    intro other above h
    rw [nodeOf_insert] at h ⊢
    have habove : nodeOf tree.entries above = some .directory := by
      split at h
      · rename_i hsame
        rw [(List.cons.inj hsame).2]
        exact hdir
      · exact tree.parents other above h
    split
    · rename_i hsame
      exact absurd (hsame ▸ habove) hfree
    · exact habove

theorem node_put {tree : Tree} {name : Name} {dir : Place} {entry : Node}
    (hdir : tree.node dir = some .directory)
    (hfree : tree.node (name :: dir) ≠ some .directory) (place : Place) :
    (tree.put name dir entry hdir hfree).node place
      = if place = name :: dir then some entry else tree.node place :=
  nodeOf_insert tree.entries name dir place entry

/-- Whether nothing stands in a place. -/
def bare (tree : Tree) (dir : Place) : Prop :=
  ∀ entry ∈ tree.entries.entries, entry.1.tail ≠ dir

instance (tree : Tree) (dir : Place) : Decidable (tree.bare dir) :=
  inferInstanceAs (Decidable (∀ entry ∈ tree.entries.entries, _))

theorem bare_of_node_ne {tree : Tree} {dir : Place} (h : tree.node dir ≠ some .directory) :
    ∀ name, tree.node (name :: dir) = none := by
  intro name
  by_contra hsome
  exact h (node_parent (Option.isSome_iff_ne_none.mpr hsome))

theorem node_eq_none_of_bare {tree : Tree} {dir : Place} (h : tree.bare dir) (name : Name) :
    tree.node (name :: dir) = none := by
  by_contra hsome
  obtain ⟨entry, hentry⟩ := Option.ne_none_iff_exists'.mp hsome
  have hmem : (⟨name :: dir, entry⟩ : Sigma fun _ : Place => Node) ∈ tree.entries.entries :=
    AList.mem_lookup_iff.mp hentry
  exact h _ hmem rfl

/-- A file, or a directory with nothing in it, is taken away. -/
def erase (tree : Tree) (name : Name) (dir : Place)
    (hbare : ∀ below, tree.node (below :: name :: dir) = none) : Tree where
  entries := tree.entries.erase (name :: dir)
  parents := by
    intro other above h
    rw [nodeOf_erase] at h ⊢
    split at h
    · cases h
    · split
      · rename_i hsame
        have hnone := hbare other
        rw [← hsame] at hnone
        rw [show nodeOf tree.entries (other :: above) = none from hnone] at h
        cases h
      · exact tree.parents other above h

theorem node_erase {tree : Tree} {name : Name} {dir : Place}
    (hbare : ∀ below, tree.node (below :: name :: dir) = none) (place : Place) :
    (tree.erase name dir hbare).node place
      = if place = name :: dir then none else tree.node place :=
  nodeOf_erase tree.entries name dir place

end Tree

/-! ### Paths -/

/-- What a component of a path asks for. -/
inductive Turn
  | stay
  | up
  | down (name : Name)
  deriving Repr, DecidableEq

def turn (component : Name) : Turn :=
  if component = [] ∨ component = ['.'] then .stay
  else if component = ['.', '.'] then .up
  else .down component

def Turn.move (place : Place) : Turn → Place
  | stay => place
  | up => place.tail
  | down name => name :: place

/-- Where a walk leads. -/
def reach (place : Place) (components : List Name) : Place :=
  components.foldl (fun place component => (turn component).move place) place

/-- The places on a walk, both ends included. -/
def visited : Place → List Name → List Place
  | place, [] => [place]
  | place, component :: components =>
      place :: visited ((turn component).move place) components

theorem mem_visited_start (place : Place) (components : List Name) :
    place ∈ visited place components := by
  cases components with
  | nil => exact List.mem_singleton_self place
  | cons component components => exact List.mem_cons_self

theorem reach_mem_visited (place : Place) (components : List Name) :
    reach place components ∈ visited place components := by
  induction components generalizing place with
  | nil => exact List.mem_singleton_self place
  | cons component components ih => exact List.mem_cons_of_mem _ (ih _)

theorem reach_concat (place : Place) (components : List Name) (component : Name) :
    reach place (components ++ [component]) = (turn component).move (reach place components) := by
  rw [reach, List.foldl_append]
  rfl

theorem mem_visited_append (place other : Place) (components more : List Name) :
    other ∈ visited place (components ++ more)
      ↔ other ∈ visited place components ∨ other ∈ visited (reach place components) more := by
  induction components generalizing place with
  | nil =>
      rw [List.nil_append, visited, List.mem_singleton, reach, List.foldl_nil]
      exact ⟨.inr, fun h => h.elim (fun heq => heq ▸ mem_visited_start _ _) id⟩
  | cons component components ih =>
      rw [List.cons_append, visited, visited, List.mem_cons, List.mem_cons, ih, or_assoc]
      rfl

/-! #### Components that are names -/

theorem reach_names {names : List Name} (h : ∀ name ∈ names, turn name = .down name)
    (place : Place) : reach place names = names.reverse ++ place := by
  induction names generalizing place with
  | nil => rfl
  | cons name names ih =>
      show reach ((turn name).move place) names = _
      rw [h name List.mem_cons_self, ih fun other hmem => h other (List.mem_cons_of_mem _ hmem),
        List.reverse_cons, List.append_assoc]
      rfl

theorem exists_prefix_of_mem_visited {names : List Name}
    (h : ∀ name ∈ names, turn name = .down name) {place other : Place}
    (hmem : other ∈ visited place names) :
    ∃ front, front <+: names ∧ other = front.reverse ++ place := by
  induction names generalizing place with
  | nil => exact ⟨[], List.nil_prefix, List.mem_singleton.mp hmem⟩
  | cons name names ih =>
      rw [visited, h name List.mem_cons_self, List.mem_cons] at hmem
      rcases hmem with rfl | hmem
      · exact ⟨[], List.nil_prefix, rfl⟩
      · obtain ⟨front, hfront, rfl⟩ :=
          ih (fun other hother => h other (List.mem_cons_of_mem _ hother)) hmem
        refine ⟨name :: front, (List.prefix_cons_inj name).mpr hfront, ?_⟩
        rw [List.reverse_cons, List.append_assoc]
        rfl

/-! ### Operations on paths -/

namespace Tree

/-- What a path leads to. -/
def status (tree : Tree) : Place → List Name → Option Node
  | place, [] => tree.node place
  | place, component :: components =>
      if tree.node place = some .directory then
        tree.status ((turn component).move place) components
      else none

/-- A directory is made wherever there is none on the path. -/
def createDirectories : Place → List Name → Action Failure Tree Unit
  | _, [] => pure ()
  | place, component :: components =>
      match turn component with
      | .stay => createDirectories place components
      | .up => createDirectories place.tail components
      | .down name => fun tree =>
          if hdir : tree.node place = some .directory then
            match hnode : tree.node (name :: place) with
            | some .directory => createDirectories (name :: place) components tree
            | some (.file _) => (.error .notADirectory, tree)
            | none =>
                createDirectories (name :: place) components
                  (tree.put name place .directory hdir (by rw [hnode]; nofun))
          else (.error .noSuchEntry, tree)

/-- A file is opened for writing, cut to nothing, and some bytes are written; `none` if it is
not opened. -/
def writeFile (tree : Tree) (bytes : List UInt8) : Place → List Name → Option Tree
  | _, [] => none
  | place, [component] =>
      match turn component with
      | .down name =>
          if hdir : tree.node place = some .directory then
            if hfree : tree.node (name :: place) ≠ some .directory then
              some (tree.put name place (.file bytes) hdir hfree)
            else none
          else none
      | _ => none
  | place, component :: components =>
      if tree.node place = some .directory then
        tree.writeFile bytes ((turn component).move place) components
      else none

/-- A file or an empty directory is taken away; nothing happens where there is none. -/
def remove (place : Place) (components : List Name) : Action Failure Tree Unit := fun tree =>
  match tree.status place components with
  | none => (.ok (), tree)
  | some _ =>
      -- the last component that is not empty has to be a name
      match (components.filter (· ≠ [])).getLast?.map turn, reach place components with
      | some (.down _), name :: dir =>
          if hbare : tree.node (name :: dir) ≠ some .directory ∨ tree.bare (name :: dir) then
            (.ok (), tree.erase name dir (hbare.elim bare_of_node_ne node_eq_none_of_bare))
          else (.error .directoryNotEmpty, tree)
      | _, _ => (.error .invalidArgument, tree)

/-- The size of a file. -/
def fileSize (place : Place) (components : List Name) : Action Failure Tree Nat := fun tree =>
  match tree.status place components with
  | some (.file bytes) => (.ok bytes.length, tree)
  | some .directory => (.error .isADirectory, tree)
  | none => (.error .noSuchEntry, tree)

end Tree

namespace Tree

variable {tree : Tree} {place : Place}

/-- A tree in which some places have become directories. -/
structure Made (tree tree' : Tree) (places : List Place) : Prop where
  made : ∀ dir ∈ places, tree'.node dir = some .directory
  kept : ∀ other, other ∉ places → tree'.node other = tree.node other

theorem Made.cons {tree' : Tree} {places : List Place} (h : Made tree tree' places)
    (hdir : tree.node place = some .directory) : Made tree tree' (place :: places) where
  made := by
    intro dir hmem
    rcases List.mem_cons.mp hmem with rfl | hmem
    · by_cases hplace : dir ∈ places
      · exact h.made dir hplace
      · rw [h.kept dir hplace, hdir]
    · exact h.made dir hmem
  kept := fun other hother => h.kept other fun hmem => hother (List.mem_cons_of_mem _ hmem)

/-- **Making a directory and those above it**, where no file is in the way: there are
directories all along the path then, and nothing else is different. -/
theorem createDirectories_spec {components : List Name}
    (hdir : tree.node place = some .directory)
    (hfree : ∀ dir ∈ visited place components, ∀ bytes, tree.node dir ≠ some (.file bytes)) :
    ∃ tree', createDirectories place components tree = (.ok (), tree')
      ∧ Made tree tree' (visited place components) := by
  induction components generalizing tree place with
  | nil =>
      refine ⟨tree, rfl, fun dir hmem => ?_, fun _ _ => rfl⟩
      rw [List.mem_singleton.mp hmem, hdir]
  | cons component components ih =>
      have hrest : ∀ dir ∈ visited ((turn component).move place) components, ∀ bytes,
          tree.node dir ≠ some (.file bytes) :=
        fun dir hmem => hfree dir (List.mem_cons_of_mem _ hmem)
      rw [createDirectories, visited]
      cases hturn : turn component with
      | stay =>
          rw [hturn] at hrest
          obtain ⟨tree', hrun, hmade⟩ := ih hdir hrest
          exact ⟨tree', hrun, hmade.cons hdir⟩
      | up =>
          rw [hturn] at hrest
          obtain ⟨tree', hrun, hmade⟩ := ih (node_tail hdir) hrest
          exact ⟨tree', hrun, hmade.cons hdir⟩
      | down name =>
          rw [hturn] at hrest
          simp only [dif_pos hdir]
          split
          · rename_i hnode
            obtain ⟨tree', hrun, hmade⟩ := ih hnode hrest
            exact ⟨tree', hrun, hmade.cons hdir⟩
          · rename_i bytes hnode
            exact absurd hnode (hrest _ (mem_visited_start _ _) bytes)
          · rename_i hnode
            have hvacant : tree.node (name :: place) ≠ some .directory := by
              rw [hnode]
              nofun
            have hput : ∀ other, (tree.put name place .directory hdir hvacant).node other
                = if other = name :: place then some .directory else tree.node other :=
              node_put hdir hvacant
            have hnext := (hput (name :: place)).trans (if_pos rfl)
            obtain ⟨tree', hrun, hmade⟩ := ih hnext fun dir hmem bytes => by
              rw [hput]
              split
              · nofun
              · exact hrest dir hmem bytes
            refine ⟨tree', hrun, Made.cons ⟨hmade.made, fun other hother => ?_⟩ hdir⟩
            have hne : other ≠ name :: place := fun heq =>
              hother (heq ▸ mem_visited_start _ _)
            rw [hmade.kept other hother, hput, if_neg hne]

/-- What a path leads to, once there are directories all along it. -/
theorem status_concat {dirs : List Name} (component : Name)
    (h : ∀ dir ∈ visited place dirs, tree.node dir = some .directory) :
    tree.status place (dirs ++ [component])
      = tree.node ((turn component).move (reach place dirs)) := by
  induction dirs generalizing place with
  | nil =>
      rw [List.nil_append, status, if_pos (h place (mem_visited_start _ _))]
      rfl
  | cons first dirs ih =>
      rw [List.cons_append, status, if_pos (h place (mem_visited_start _ _)),
        ih fun dir hmem => h dir (List.mem_cons_of_mem _ hmem)]
      rfl

/-- A file that is written, once there are directories all along its path. -/
theorem writeFile_concat {dirs : List Name} {component name : Name}
    (h : ∀ dir ∈ visited place dirs, tree.node dir = some .directory)
    (hturn : turn component = .down name)
    (hfree : tree.node (name :: reach place dirs) ≠ some .directory) (bytes : List UInt8) :
    ∃ tree', tree.writeFile bytes place (dirs ++ [component]) = some tree'
      ∧ ∀ other, tree'.node other
        = if other = name :: reach place dirs then some (.file bytes) else tree.node other := by
  induction dirs generalizing place with
  | nil =>
      have hdir := h place (mem_visited_start _ _)
      refine ⟨tree.put name place (.file bytes) hdir hfree, ?_, node_put hdir hfree⟩
      simp only [List.nil_append, writeFile, hturn, dif_pos hdir, reach, List.foldl_nil] at hfree ⊢
      rw [dif_pos hfree]
  | cons first dirs ih =>
      obtain ⟨tree', hwrite, hnode⟩ :=
        ih (fun dir hmem => h dir (List.mem_cons_of_mem _ hmem)) hfree
      refine ⟨tree', ?_, hnode⟩
      rw [List.cons_append, writeFile, if_pos (h place (mem_visited_start _ _)), hwrite]
      simp

/-- A file that is removed, once there are directories all along its path. -/
theorem remove_concat {dirs : List Name} {component name : Name} {bytes : List UInt8}
    (h : ∀ dir ∈ visited place dirs, tree.node dir = some .directory)
    (hturn : turn component = .down name)
    (hfile : tree.node (name :: reach place dirs) = some (.file bytes)) :
    ∃ tree', remove place (dirs ++ [component]) tree = (.ok (), tree')
      ∧ ∀ other, tree'.node other
        = if other = name :: reach place dirs then none else tree.node other := by
  have hstatus : tree.status place (dirs ++ [component]) = some (.file bytes) := by
    rw [status_concat component h, hturn]
    exact hfile
  have hne : tree.node (name :: reach place dirs) ≠ some .directory := by
    rw [hfile]
    nofun
  have hreach : reach place (dirs ++ [component]) = name :: reach place dirs := by
    rw [reach_concat, hturn]
    rfl
  have hlast : ((dirs ++ [component]).filter (· ≠ [])).getLast?.map turn = some (.down name) := by
    have hcomponent : component ≠ [] := by
      rintro rfl
      cases hturn
    rw [List.filter_append, List.filter_singleton]
    simp [hcomponent, hturn]
  refine ⟨tree.erase name (reach place dirs) (bare_of_node_ne hne), ?_,
    node_erase (bare_of_node_ne hne)⟩
  rw [remove, hstatus]
  simp only [hlast, hreach]
  rw [dif_pos (Or.inl hne)]

end Tree

end FileTree
