import Stockly.FImmutableTree
import Stockly.FNode
import Stockly.LastWrite

/-!
# Compound writes

Several writes at once, kept as a tree of nodes.  What a compound write says
about a path is read from the node which covers it; adding a write changes
this at and below its path only, and the application to a node overlays it on
the data of the node.  Both hold for plain names, and where no leaf ever stands
strictly above a written path: a leaf swallows the removal of something below
it.
-/

universe u v

namespace FirebaseDatabase

open ChildName FPath

variable {κ : Type u} {α : Type v}

/-! ## Writes and the locations above them -/

section Writes

variable [PlainName κ]

/-- A node and the path at which it is written. -/
abbrev PathWrite (κ : Type u) (α : Type v) := FPath κ × FNode κ α

/-- What a write says about a path: nothing, or the value which stands there
afterwards. -/
def covers (place : FPath κ) (write : PathWrite κ α) : Option (Option α) :=
  (relativePathFrom write.1 place).map write.2.valueAt

/-- The locations strictly above the written path are inner ones, and no
inner location receives a value. -/
structure Fits (inner : FPath κ → Prop) (write : PathWrite κ α) : Prop where
  above : ∀ above, Above above write.1 → inner above
  quiet : ∀ place, inner place → (covers place write).getD none = none

/-- No inner location has a value. -/
def FNode.Respects (node : FNode κ α) (inner : FPath κ → Prop) : Prop :=
  ∀ place, inner place → node.valueAt place = none

theorem FNode.Respects.openAbove {node : FNode κ α} {inner : FPath κ → Prop}
    (hnode : node.Respects inner) {path : FPath κ}
    (habove : ∀ above, Above above path → inner above) :
    node.OpenAbove path := fun above hplace =>
  hnode above (habove above hplace)

def applyWrite (node : FNode κ α) (write : PathWrite κ α) : FNode κ α :=
  node.updateChild write.1 write.2

/-- Writes made one after the other: at each path the last one which says
something is read. -/
theorem valueAt_foldl_applyWrite {inner : FPath κ → Prop} {node : FNode κ α}
    {writes : List (PathWrite κ α)} (hfits : ∀ write ∈ writes, Fits inner write)
    (hnode : node.Respects inner) (place : FPath κ) :
    (writes.foldl applyWrite node).valueAt place =
      (lastWrite (covers place) writes).getD (node.valueAt place) := by
  induction writes generalizing node with
  | nil => rfl
  | cons write writes ih =>
      have hwrite := hfits write List.mem_cons_self
      have hread : ∀ other, (applyWrite node write).valueAt other =
          (covers other write).getD (node.valueAt other) := fun other =>
        FNode.valueAt_updateChild (hnode.openAbove hwrite.above) write.2 other
      have hafter : (applyWrite node write).Respects inner := by
        intro other hother
        rw [hread, hnode other hother]
        exact hwrite.quiet other hother
      rw [List.foldl_cons, ih (fun other hother =>
        hfits other (List.mem_cons_of_mem write hother)) hafter, hread,
        lastWrite_cons]
      cases lastWrite (covers place) writes <;> simp

theorem lastWrite_covers_inner {inner : FPath κ → Prop}
    {writes : List (PathWrite κ α)} (hfits : ∀ write ∈ writes, Fits inner write)
    {place : FPath κ} (hplace : inner place) :
    (lastWrite (covers place) writes).getD none = none := by
  induction writes using List.reverseRecOn with
  | nil => rfl
  | append_singleton writes write ih =>
      rw [lastWrite_concat]
      have hquiet := (hfits write (by simp)).quiet place hplace
      have hrest := ih fun other hother => hfits other (by simp [hother])
      cases hcovers : covers place write with
      | none => simpa using hrest
      | some value =>
          rw [hcovers] at hquiet
          simpa using hquiet

theorem FNode.Respects.foldl {inner : FPath κ → Prop} {node : FNode κ α}
    (hnode : node.Respects inner) {writes : List (PathWrite κ α)}
    (hfits : ∀ write ∈ writes, Fits inner write) :
    (writes.foldl applyWrite node).Respects inner := by
  intro place hplace
  rw [valueAt_foldl_applyWrite hfits hnode, hnode place hplace]
  exact lastWrite_covers_inner hfits hplace

theorem covers_append_append (root place : FPath κ) (write : PathWrite κ α) :
    covers (root ++ place) (root ++ write.1, write.2) =
      covers place write := by
  unfold covers
  rw [relativePathFrom_append_append]

/-- Seen from a location above the written path. -/
theorem Fits.below {inner : FPath κ → Prop} {root : FPath κ}
    {write : PathWrite κ α} (hfits : Fits inner (root ++ write.1, write.2)) :
    Fits (fun place => inner (root ++ place)) write where
  above := fun above habove =>
    hfits.above (root ++ above) (habove.append_left root)
  quiet := by
    intro place hplace
    rw [← covers_append_append root place write]
    exact hfits.quiet (root ++ place) hplace

end Writes

/-! ## Trees of nodes -/

namespace FImmutableTree

variable [PlainName κ]

/-- The value which a tree of nodes says stands at a path. -/
def reading (tree : FImmutableTree κ (FNode κ α)) (place : FPath κ) :
    Option (Option α) :=
  (tree.covering place).map fun found => found.1.valueAt found.2

/-- Below a path, the nodes of the tree stand under inner locations and give
no value to an inner location. -/
structure Respects (tree : FImmutableTree κ (FNode κ α)) (inner : FPath κ → Prop)
    (path : FPath κ) : Prop where
  quiet : ∀ place, inner (path ++ place) →
    (tree.reading place).getD none = none
  placed : ∀ place node, tree.covering place = some (node, []) →
    ∀ above, Above above (path ++ place) → inner above

@[simp] theorem reading_node_some (node : FNode κ α)
    (children : List (κ × FImmutableTree κ (FNode κ α))) (place : FPath κ) :
    reading (.node (some node) children) place =
      some (node.valueAt place) := by
  simp [reading]

theorem reading_node_none_cons
    (children : List (κ × FImmutableTree κ (FNode κ α))) (front : κ)
    (place : FPath κ) :
    reading (.node none children) (front :: place) =
      (children.lookup front).bind fun child => child.reading place := by
  unfold reading
  rw [covering_node_none_cons]
  cases children.lookup front <;> simp

@[simp] theorem reading_node_none_nil
    (children : List (κ × FImmutableTree κ (FNode κ α))) :
    reading (.node none children) [] = none := by
  simp [reading]

theorem Respects.child {inner : FPath κ → Prop} {path : FPath κ} {key : κ}
    {child : FImmutableTree κ (FNode κ α)}
    {children : List (κ × FImmutableTree κ (FNode κ α))}
    (htree : Respects (.node none ((key, child) :: children)) inner path) :
    child.Respects inner (path ++ [key]) where
  quiet := by
    intro place hplace
    have hquiet := htree.quiet (key :: place) (by simpa using hplace)
    rw [reading_node_none_cons, KeyedList.lookup_cons_entry, if_pos rfl,
      Option.bind_some] at hquiet
    exact hquiet
  placed := by
    intro place node hcovering above habove
    exact htree.placed (key :: place) node
      (by simpa using hcovering) above (by simpa using habove)

theorem Respects.tail {inner : FPath κ → Prop} {path : FPath κ}
    {entry : κ × FImmutableTree κ (FNode κ α)}
    {children : List (κ × FImmutableTree κ (FNode κ α))}
    (hkeys : KeyedList.Distinct (entry :: children))
    (htree : Respects (.node none (entry :: children)) inner path) :
    Respects (.node none children) inner path := by
  have hbeside : ∀ (front : κ) (child : FImmutableTree κ (FNode κ α)),
      children.lookup front = some child →
        (entry :: children).lookup front = some child := by
    intro front child hchild
    have hne : front ≠ entry.1 := by
      rintro rfl
      rw [hkeys.lookup_tail] at hchild
      contradiction
    rw [← hchild]
    simpa [hne] using KeyedList.lookup_cons_entry entry.1 front entry.2 children
  constructor
  · intro place hplace
    cases place with
    | nil => simp
    | cons front place =>
        have hquiet := htree.quiet (front :: place) hplace
        rw [reading_node_none_cons] at hquiet ⊢
        cases hchild : children.lookup front with
        | none => simp
        | some child =>
            rw [hbeside front child hchild] at hquiet
            exact hquiet
  · intro place node hcovering
    apply htree.placed place node
    cases place with
    | nil => simp at hcovering
    | cons front place =>
        rw [covering_node_none_cons] at hcovering ⊢
        obtain ⟨child, hchild, hrest⟩ := Option.bind_eq_some_iff.mp hcovering
        rw [hbeside front child hchild]
        exact hrest

end FImmutableTree

/-! ## The compound write -/

structure FCompoundWrite (κ : Type u) (α : Type v) where
  writeTree : FImmutableTree κ (FNode κ α)
  distinct : writeTree.Distinct

namespace FCompoundWrite

open FImmutableTree (initWithValue distinct_initWithValue)

def emptyWrite : FCompoundWrite κ α :=
  ⟨initWithValue none, distinct_initWithValue none⟩

/-- The compound write with a single node, at its root. -/
def rootWriteOf (node : FNode κ α) : FCompoundWrite κ α :=
  ⟨initWithValue (some node), distinct_initWithValue (some node)⟩

def isEmpty (self : FCompoundWrite κ α) : Bool :=
  self.writeTree.isEmpty

section Operations

variable [ChildName κ]

def addWrite (self : FCompoundWrite κ α) (node : FNode κ α) (path : FPath κ) :
    FCompoundWrite κ α :=
  if path.isEmpty then rootWriteOf node
  else
    match self.writeTree.findRootMostValueAndPath path with
    | some rootMost =>
        match relativePathFrom rootMost.1 path with
        | some relativePath =>
            let value := rootMost.2.updateChild relativePath node
            ⟨self.writeTree.setValue value rootMost.1,
              self.distinct.setValue value rootMost.1⟩
        -- the source throws here; a value found on a path is within it
        | none => self
    | none =>
        ⟨self.writeTree.setTree (initWithValue (some node)) path,
          self.distinct.setTree (distinct_initWithValue (some node)) path⟩

/-- The writes in the order in which they are enumerated. -/
def enumerateWrites (self : FCompoundWrite κ α) : List (PathWrite κ α) :=
  self.writeTree.forEach

def addCompoundWrite (self compoundWrite : FCompoundWrite κ α) (path : FPath κ) :
    FCompoundWrite κ α :=
  compoundWrite.enumerateWrites.foldl
    (fun newWrite write => newWrite.addWrite write.2 (path ++ write.1)) self

/-- The merge of an update, from its paths and nodes; the order in which a
dictionary lists them is not determined. -/
def compoundWriteFromDictionary (values : List (PathWrite κ α)) :
    FCompoundWrite κ α :=
  values.foldl (fun compoundWrite value =>
    compoundWrite.addWrite value.2 value.1) emptyWrite

def removeWriteAtPath (self : FCompoundWrite κ α) (path : FPath κ) :
    FCompoundWrite κ α :=
  if path.isEmpty then emptyWrite
  else
    ⟨self.writeTree.setTree FImmutableTree.empty path,
      self.distinct.setTree (distinct_initWithValue none) path⟩

def completeNodeAtPath (self : FCompoundWrite κ α) (path : FPath κ) :
    Option (FNode κ α) :=
  (self.writeTree.findRootMostValueAndPath path).bind fun rootMost =>
    (relativePathFrom rootMost.1 path).map fun relativePath =>
      rootMost.2.getChild relativePath

def hasCompleteWriteAtPath (self : FCompoundWrite κ α) (path : FPath κ) : Bool :=
  (self.completeNodeAtPath path).isSome

def childCompoundWriteAtPath (self : FCompoundWrite κ α) (path : FPath κ) :
    FCompoundWrite κ α :=
  if path.isEmpty then self
  else
    match self.completeNodeAtPath path with
    | some shadowingNode => rootWriteOf shadowingNode
    | none =>
        ⟨self.writeTree.subtreeAtPath path,
          self.distinct.subtreeAtPath path⟩

/-- The write of the priority, with its key; the source asserts that nothing
is written below a priority. -/
def priorityWrite (children : List (κ × FImmutableTree κ (FNode κ α))) :
    Option (PathWrite κ α) :=
  children.findSome? fun child =>
    if isPriority child.1 then child.2.value.map fun node => ([child.1], node)
    else none

/-- The priority is written at the end, and not to an empty node. -/
def applyPriorityWrite (relativePath : FPath κ)
    (children : List (κ × FImmutableTree κ (FNode κ α)))
    (node : FNode κ α) : FNode κ α :=
  match priorityWrite children with
  | some write =>
      if (node.getChild relativePath).isEmpty then node
      else node.updateChild (relativePath ++ write.1) write.2
  | none => node

mutual

def applySubtreeWrite (relativePath : FPath κ) :
    FImmutableTree κ (FNode κ α) → FNode κ α → FNode κ α
  | .node (some value) _, node => node.updateChild relativePath value
  | .node none children, node =>
      applyPriorityWrite relativePath children
        (applyChildWrites relativePath children node)

def applyChildWrites (relativePath : FPath κ) :
    List (κ × FImmutableTree κ (FNode κ α)) → FNode κ α → FNode κ α
  | [], node => node
  | (childKey, childTree) :: rest, node =>
      applyChildWrites relativePath rest
        (if isPriority childKey then node
        else applySubtreeWrite (relativePath ++ [childKey]) childTree node)

end

def applyToNode (self : FCompoundWrite κ α) (node : FNode κ α) : FNode κ α :=
  applySubtreeWrite [] self.writeTree node

end Operations

variable [PlainName κ]

/-! ## What a compound write says about a path -/

/-- What the compound write says about a path: nothing, or the value which
stands there afterwards. -/
def reading (self : FCompoundWrite κ α) (place : FPath κ) : Option (Option α) :=
  self.writeTree.reading place

/-- No node of the compound write stands above an inner location, and none
gives it a value. -/
def Respects (self : FCompoundWrite κ α) (inner : FPath κ → Prop) : Prop :=
  self.writeTree.Respects inner []

theorem completeNodeAtPath_eq (self : FCompoundWrite κ α) (path : FPath κ) :
    self.completeNodeAtPath path =
      (self.writeTree.covering path).map fun found =>
        found.1.getChild found.2 := by
  unfold completeNodeAtPath
  cases hfind : self.writeTree.findRootMostValueAndPath path with
  | none =>
      rw [FImmutableTree.findRootMostValueAndPath_eq_none_iff] at hfind
      rw [hfind]
      rfl
  | some rootMost =>
      obtain ⟨rest, hpath, hcovering, -⟩ :=
        FImmutableTree.findRootMostValueAndPath_spec hfind
      have hhere := FImmutableTree.covering_append hcovering rest
      rw [hpath, hhere]
      simp

/-- A complete node is there exactly when the compound write says something,
and it has the values which the compound write gives at and below the
path. -/
theorem reading_append_of_complete {self : FCompoundWrite κ α} {path : FPath κ}
    {node : FNode κ α} (hcomplete : self.completeNodeAtPath path = some node)
    (place : FPath κ) :
    self.reading (path ++ place) = some (node.valueAt place) := by
  rw [completeNodeAtPath_eq] at hcomplete
  obtain ⟨found, hcovering, hnode⟩ := Option.map_eq_some_iff.mp hcomplete
  unfold reading FImmutableTree.reading
  rw [FImmutableTree.covering_append hcovering place, ← hnode]
  simp

theorem reading_of_incomplete {self : FCompoundWrite κ α} {path : FPath κ}
    (hnone : self.completeNodeAtPath path = none) :
    self.writeTree.covering path = none := by
  rw [completeNodeAtPath_eq] at hnone
  simpa using hnone

theorem isSome_completeNodeAtPath (self : FCompoundWrite κ α) (path : FPath κ) :
    (self.completeNodeAtPath path).isSome = (self.reading path).isSome := by
  rw [completeNodeAtPath_eq, reading, FImmutableTree.reading]
  simp

theorem reading_of_isEmpty {self : FCompoundWrite κ α}
    (hempty : self.isEmpty) (place : FPath κ) : self.reading place = none := by
  unfold reading FImmutableTree.reading
  rw [FImmutableTree.covering_of_isEmpty hempty]
  rfl

@[simp] theorem reading_emptyWrite (place : FPath κ) :
    (emptyWrite : FCompoundWrite κ α).reading place = none :=
  reading_of_isEmpty (by rfl) place

@[simp] theorem reading_rootWriteOf (node : FNode κ α) (place : FPath κ) :
    (rootWriteOf node).reading place = some (node.valueAt place) :=
  FImmutableTree.reading_node_some node [] place

theorem respects_emptyWrite (inner : FPath κ → Prop) :
    (emptyWrite : FCompoundWrite κ α).Respects inner where
  quiet := by
    intro place _
    rw [← reading, reading_emptyWrite]
    rfl
  placed := by
    intro place node hcovering
    have hnone : (FImmutableTree.empty : FImmutableTree κ (FNode κ α)).covering
        place = none := FImmutableTree.covering_empty place
    rw [show emptyWrite.writeTree = FImmutableTree.empty from rfl,
      hnone] at hcovering
    contradiction

theorem respects_rootWriteOf {inner : FPath κ → Prop} {node : FNode κ α}
    (hnode : node.Respects inner) : (rootWriteOf node).Respects inner where
  quiet := by
    intro place hplace
    rw [← reading, reading_rootWriteOf]
    exact hnode place hplace
  placed := by
    intro place other hcovering above habove
    have hfound : FImmutableTree.covering (.node (some node) []) place =
        some (node, place) := FImmutableTree.covering_node_some node [] place
    rw [show (rootWriteOf node).writeTree = .node (some node) [] from rfl,
      hfound] at hcovering
    cases hcovering
    exact absurd habove (above_nil above)

/-! ## Adding and removing a write -/

/-- At a path which a node covers already, the write goes into this node. -/
theorem addWrite_covered {self : FCompoundWrite κ α} {found rest : FPath κ}
    {value : FNode κ α} (hne : found ++ rest ≠ [])
    (hfind : self.writeTree.findRootMostValueAndPath (found ++ rest) =
      some (found, value)) (node : FNode κ α) :
    (self.addWrite node (found ++ rest)).writeTree =
      self.writeTree.setValue (value.updateChild rest node) found := by
  unfold addWrite
  rw [if_neg (by simpa using hne), hfind]
  simp

theorem addWrite_open {self : FCompoundWrite κ α} {path : FPath κ}
    (hne : path ≠ [])
    (hfind : self.writeTree.findRootMostValueAndPath path = none)
    (node : FNode κ α) :
    (self.addWrite node path).writeTree =
      self.writeTree.setTree (initWithValue (some node)) path := by
  unfold addWrite
  rw [if_neg (by simpa using hne), hfind]

theorem addWrite_nil (self : FCompoundWrite κ α) (node : FNode κ α) :
    self.addWrite node [] = rootWriteOf node := by
  simp [addWrite]

theorem reading_addWrite {self : FCompoundWrite κ α} {inner : FPath κ → Prop}
    (hself : self.Respects inner) {write : PathWrite κ α}
    (hfits : Fits inner write) (place : FPath κ) :
    (self.addWrite write.2 write.1).reading place =
      (covers place write).or (self.reading place) := by
  obtain ⟨path, node⟩ := write
  by_cases hne : path = []
  · subst hne
    rw [addWrite_nil, reading_rootWriteOf, covers]
    simp
  · unfold covers reading FImmutableTree.reading
    cases hfind : self.writeTree.findRootMostValueAndPath path with
    | none =>
        rw [addWrite_open hne hfind]
        have hnone :=
          FImmutableTree.findRootMostValueAndPath_eq_none_iff.mp hfind
        rw [FImmutableTree.covering_setTree fun above habove =>
          FImmutableTree.covering_above hnone habove]
        cases relativePathFrom path place with
        | none => simp
        | some rest => simp [initWithValue]
    | some rootMost =>
        obtain ⟨found, value⟩ := rootMost
        obtain ⟨rest, rfl, hcovering, hopen⟩ :=
          FImmutableTree.findRootMostValueAndPath_spec hfind
        rw [addWrite_covered hne hfind,
          FImmutableTree.covering_setValue hopen,
          relativePathFrom_append_left]
        -- no leaf of the covering node stands above the written path
        have hvalue : value.OpenAbove rest := by
          intro above habove
          have hquiet := hself.quiet (found ++ above)
            (hfits.above _ (habove.append_left found))
          rw [FImmutableTree.reading,
            FImmutableTree.covering_append hcovering above] at hquiet
          simpa using hquiet
        cases hplace : relativePathFrom found place with
        | none => simp
        | some below =>
            have hbelow := relativePathFrom_eq_some_iff.mp hplace
            rw [hbelow, FImmutableTree.covering_append hcovering below]
            simp only [Option.map_some, Option.bind_some, List.nil_append]
            rw [FNode.valueAt_updateChild hvalue]
            cases relativePathFrom rest below <;> simp

theorem Respects.addWrite {self : FCompoundWrite κ α} {inner : FPath κ → Prop}
    (hself : self.Respects inner) {write : PathWrite κ α}
    (hfits : Fits inner write) :
    (self.addWrite write.2 write.1).Respects inner where
  quiet := by
    intro place hplace
    rw [← reading, reading_addWrite hself hfits]
    have hquiet := hfits.quiet place hplace
    cases hcovers : covers place write with
    | none => exact hself.quiet place hplace
    | some value =>
        rw [hcovers] at hquiet
        simpa using hquiet
  placed := by
    obtain ⟨path, node⟩ := write
    by_cases hne : path = []
    · subst hne
      rw [addWrite_nil]
      have hroot : node.Respects inner := fun place hplace => by
        simpa [covers] using hfits.quiet place hplace
      exact (respects_rootWriteOf hroot).placed
    · intro place other hcovering above habove
      cases hfind : self.writeTree.findRootMostValueAndPath path with
      | none =>
          have hnone :=
            FImmutableTree.findRootMostValueAndPath_eq_none_iff.mp hfind
          rw [addWrite_open hne hfind,
            FImmutableTree.covering_setTree fun above habove =>
              FImmutableTree.covering_above hnone habove] at hcovering
          cases hrelative : relativePathFrom path place with
          | none =>
              rw [hrelative] at hcovering
              exact hself.placed place other hcovering above habove
          | some rest =>
              rw [hrelative] at hcovering
              have hrest : rest = [] := by
                simpa [initWithValue] using congrArg (Option.map Prod.snd) hcovering
              rw [relativePathFrom_eq_some_iff.mp hrelative, hrest] at habove
              exact hfits.above above (by simpa using habove)
      | some rootMost =>
          obtain ⟨found, value⟩ := rootMost
          obtain ⟨rest, rfl, hfound, hopen⟩ :=
            FImmutableTree.findRootMostValueAndPath_spec hfind
          rw [addWrite_covered hne hfind,
            FImmutableTree.covering_setValue hopen] at hcovering
          cases hrelative : relativePathFrom found place with
          | none =>
              rw [hrelative] at hcovering
              exact hself.placed place other hcovering above habove
          | some below =>
              rw [hrelative] at hcovering
              have hbelow : below = [] := by
                simpa using congrArg (Option.map Prod.snd) hcovering
              have hplace := relativePathFrom_eq_some_iff.mp hrelative
              rw [hbelow, List.append_nil] at hplace
              rw [hplace] at habove
              exact hself.placed found value hfound above habove

/-- Writes added one after the other: at each path the last one which says
something is read. -/
theorem foldl_addWrite {self : FCompoundWrite κ α} {inner : FPath κ → Prop}
    (hself : self.Respects inner) {writes : List (PathWrite κ α)}
    (hfits : ∀ write ∈ writes, Fits inner write) :
    (writes.foldl (fun newWrite write => newWrite.addWrite write.2 write.1)
        self).Respects inner ∧
      ∀ place,
        (writes.foldl (fun newWrite write => newWrite.addWrite write.2 write.1)
            self).reading place =
          (lastWrite (covers place) writes).or (self.reading place) := by
  induction writes generalizing self with
  | nil => exact ⟨hself, fun place => rfl⟩
  | cons write writes ih =>
      have hwrite := hfits write List.mem_cons_self
      have hrest := ih (hself.addWrite hwrite) fun other hother =>
        hfits other (List.mem_cons_of_mem write hother)
      constructor
      · exact hrest.1
      · intro place
        rw [List.foldl_cons, hrest.2 place, reading_addWrite hself hwrite,
          lastWrite_cons, Option.or_assoc]

/-- The writes of a compound write made at a path. -/
def writesAt (self : FCompoundWrite κ α) (path : FPath κ) :
    List (PathWrite κ α) :=
  self.enumerateWrites.map fun write => (path ++ write.1, write.2)

theorem addCompoundWrite_eq_foldl (self compoundWrite : FCompoundWrite κ α)
    (path : FPath κ) :
    self.addCompoundWrite compoundWrite path =
      (compoundWrite.writesAt path).foldl
        (fun newWrite write => newWrite.addWrite write.2 write.1) self := by
  unfold addCompoundWrite writesAt
  rw [List.foldl_map]

/-- A removal shows at and below its path, when no write stands above it. -/
theorem reading_removeWriteAtPath {self : FCompoundWrite κ α} {path : FPath κ}
    (hopen : self.writeTree.OpenAbove path) (place : FPath κ) :
    (self.removeWriteAtPath path).reading place =
      if (relativePathFrom path place).isSome then none
      else self.reading place := by
  by_cases hne : path = []
  · subst hne
    simp [removeWriteAtPath]
  · unfold removeWriteAtPath
    rw [if_neg (by simpa using hne), reading, reading, FImmutableTree.reading,
      FImmutableTree.reading, FImmutableTree.covering_setTree hopen]
    cases relativePathFrom path place <;> simp

theorem Respects.removeWriteAtPath {self : FCompoundWrite κ α}
    {inner : FPath κ → Prop} (hself : self.Respects inner) {path : FPath κ}
    (hopen : self.writeTree.OpenAbove path) :
    (self.removeWriteAtPath path).Respects inner := by
  by_cases hne : path = []
  · subst hne
    exact respects_emptyWrite inner
  · constructor
    · intro place hplace
      rw [← reading, reading_removeWriteAtPath hopen]
      split
      next => rfl
      next => exact hself.quiet place hplace
    · intro place node hcovering
      unfold FCompoundWrite.removeWriteAtPath at hcovering
      rw [if_neg (by simpa using hne),
        FImmutableTree.covering_setTree hopen] at hcovering
      cases hrelative : relativePathFrom path place with
      | none =>
          rw [hrelative] at hcovering
          exact hself.placed place node hcovering
      | some rest =>
          rw [hrelative] at hcovering
          simp at hcovering

/-- Below a write, a removal shows nowhere. -/
theorem covering_removeWriteAtPath_of_above {self : FCompoundWrite κ α}
    {above path : FPath κ} (habove : Above above path)
    (hcovered : self.writeTree.covering above ≠ none) (place : FPath κ) :
    (self.removeWriteAtPath path).writeTree.covering place =
      self.writeTree.covering place := by
  unfold removeWriteAtPath
  rw [if_neg (by simpa using habove.ne)]
  exact FImmutableTree.covering_setTree_of_above habove hcovered _ place

theorem Respects.congr {self other : FCompoundWrite κ α}
    {inner : FPath κ → Prop} (hself : self.Respects inner)
    (hsame : ∀ place, other.writeTree.covering place =
      self.writeTree.covering place) : other.Respects inner where
  quiet := by
    intro place hplace
    have hquiet := hself.quiet place hplace
    rw [FImmutableTree.reading, ← hsame] at hquiet
    exact hquiet
  placed := by
    intro place node hcovering
    rw [hsame] at hcovering
    exact hself.placed place node hcovering

/-! ## The enumeration of the writes -/

theorem lastWrite_forEachChildSoFar
    {children : List (κ × FImmutableTree κ (FNode κ α))}
    (hkeys : KeyedList.Distinct children)
    (hchildren : ∀ child ∈ children, ∀ path place : FPath κ,
      lastWrite (covers place) (child.2.forEachPathSoFar path) =
        (relativePathFrom path place).bind child.2.reading)
    (path place : FPath κ) :
    lastWrite (covers place)
        (FImmutableTree.forEachChildSoFar path children) =
      (relativePathFrom path place).bind
        (FImmutableTree.reading (.node none children)) := by
  induction children with
  | nil =>
      rw [FImmutableTree.forEachChildSoFar]
      cases relativePathFrom path place with
      | none => simp [lastWrite]
      | some rest =>
          cases rest <;>
            simp [lastWrite, FImmutableTree.reading_node_none_cons]
  | cons entry children ih =>
      obtain ⟨key, child⟩ := entry
      rw [FImmutableTree.forEachChildSoFar, lastWrite_append,
        ih hkeys.tail fun other hother =>
          hchildren other (List.mem_cons_of_mem _ hother),
        hchildren (key, child) List.mem_cons_self,
        relativePathFrom_append_left]
      cases relativePathFrom path place with
      | none => rfl
      | some below =>
          cases below with
          | nil => simp
          | cons front below =>
              simp only [Option.bind_some, relativePathFrom_cons_cons,
                FImmutableTree.reading_node_none_cons,
                KeyedList.lookup_cons_entry, relativePathFrom_nil]
              by_cases hfront : front = key
              · subst hfront
                have hlookup := hkeys.lookup_tail
                simp [hlookup]
              · simp [hfront, Ne.symm hfront]

theorem lastWrite_forEachPathSoFar {tree : FImmutableTree κ (FNode κ α)}
    (hdistinct : tree.Distinct) (path place : FPath κ) :
    lastWrite (covers place) (tree.forEachPathSoFar path) =
      (relativePathFrom path place).bind tree.reading := by
  induction hdistinct generalizing path place with
  | @node value children hkeys hchildren ih =>
      have hall := lastWrite_forEachChildSoFar hkeys ih path place
      rw [FImmutableTree.forEachPathSoFar, lastWrite_append, hall]
      cases value with
      | none => simp [lastWrite]
      | some node =>
          cases hrelative : relativePathFrom path place <;>
            simp [lastWrite, covers, hrelative]

/-- The enumerated writes, made one after the other, say what the compound
write says. -/
theorem lastWrite_enumerateWrites (self : FCompoundWrite κ α)
    (place : FPath κ) :
    lastWrite (covers place) self.enumerateWrites = self.reading place :=
  lastWrite_forEachPathSoFar self.distinct [] place

theorem lastWrite_writesAt (self : FCompoundWrite κ α) (path place : FPath κ) :
    lastWrite (covers (path ++ place)) (self.writesAt path) =
      lastWrite (covers place) self.enumerateWrites := by
  unfold lastWrite writesAt
  rw [List.filterMap_map]
  congr 2
  funext write
  exact covers_append_append path place write

/-! ## The part below a path -/

theorem reading_childCompoundWriteAtPath (self : FCompoundWrite κ α)
    (path place : FPath κ) :
    (self.childCompoundWriteAtPath path).reading place =
      self.reading (path ++ place) := by
  by_cases hne : path = []
  · simp [childCompoundWriteAtPath, hne]
  · unfold childCompoundWriteAtPath
    rw [if_neg (by simpa using hne)]
    cases hcomplete : self.completeNodeAtPath path with
    | some shadowingNode =>
        rw [reading_append_of_complete hcomplete]
        exact reading_rootWriteOf shadowingNode place
    | none =>
        rw [reading, reading, FImmutableTree.reading, FImmutableTree.reading]
        dsimp only
        rw [FImmutableTree.covering_subtreeAtPath
          (reading_of_incomplete hcomplete)]

theorem Respects.childCompoundWriteAtPath {self : FCompoundWrite κ α}
    {inner : FPath κ → Prop} (hself : self.Respects inner) (path : FPath κ) :
    (self.childCompoundWriteAtPath path).Respects
      fun place => inner (path ++ place) where
  quiet := by
    intro place hplace
    rw [← reading, reading_childCompoundWriteAtPath]
    exact hself.quiet (path ++ place) hplace
  placed := by
    by_cases hne : path = []
    · simpa [FCompoundWrite.childCompoundWriteAtPath, hne] using hself.placed
    · unfold FCompoundWrite.childCompoundWriteAtPath
      rw [if_neg (by simpa using hne)]
      cases hcomplete : self.completeNodeAtPath path with
      | some shadowingNode =>
          intro place node hcovering above habove
          have hroot : node = shadowingNode ∧ place = [] := by
            simpa [rootWriteOf, initWithValue, eq_comm] using hcovering
          rw [hroot.2] at habove
          exact absurd habove (above_nil above)
      | none =>
          intro place node hcovering above habove
          dsimp only at hcovering
          rw [FImmutableTree.covering_subtreeAtPath
            (reading_of_incomplete hcomplete)] at hcovering
          exact hself.placed (path ++ place) node hcovering (path ++ above)
            (habove.append_left path)

/-! ## The application to a node -/

/-- No plain name stands for the priority. -/
theorem applyPriorityWrite_eq (path : FPath κ)
    (children : List (κ × FImmutableTree κ (FNode κ α))) (node : FNode κ α) :
    applyPriorityWrite path children node = node := by
  have hnone : priorityWrite children = none := by
    rw [priorityWrite, List.findSome?_eq_none_iff]
    simp
  rw [applyPriorityWrite, hnone]

theorem applyChildWrites_cons (path : FPath κ) (key : κ)
    (child : FImmutableTree κ (FNode κ α))
    (children : List (κ × FImmutableTree κ (FNode κ α))) (node : FNode κ α) :
    applyChildWrites path ((key, child) :: children) node =
      applyChildWrites path children
        (applySubtreeWrite (path ++ [key]) child node) := by
  rw [applyChildWrites, isPriority_eq_false, if_neg Bool.false_ne_true]

/-- What a tree says below a path is laid over the data of a node. -/
def overlay (path : FPath κ) (tree : FImmutableTree κ (FNode κ α))
    (node : FNode κ α) (place : FPath κ) : Option α :=
  match relativePathFrom path place with
  | some rest => (tree.reading rest).getD (node.valueAt place)
  | none => node.valueAt place

theorem overlay_inner {inner : FPath κ → Prop} {path : FPath κ}
    {tree : FImmutableTree κ (FNode κ α)} (htree : tree.Respects inner path)
    {node : FNode κ α} (hnode : node.Respects inner) {place : FPath κ}
    (hplace : inner place) : overlay path tree node place = none := by
  unfold overlay
  cases hrelative : relativePathFrom path place with
  | none => exact hnode place hplace
  | some rest =>
      rw [relativePathFrom_eq_some_iff.mp hrelative] at hplace ⊢
      have hquiet := htree.quiet rest hplace
      rw [hnode _ hplace]
      exact hquiet

/-- The children are applied one after the other; the keys differ, so each
shows below its own key only. -/
theorem valueAt_applyChildWrites {inner : FPath κ → Prop} {path : FPath κ}
    {children : List (κ × FImmutableTree κ (FNode κ α))}
    (hkeys : KeyedList.Distinct children)
    (htree : FImmutableTree.Respects (.node none children) inner path)
    (hchildren : ∀ child ∈ children, ∀ (below : FPath κ) (target : FNode κ α),
      child.2.Respects inner below → target.Respects inner → ∀ place,
        (applySubtreeWrite below child.2 target).valueAt place =
          overlay below child.2 target place)
    {node : FNode κ α} (hnode : node.Respects inner) (place : FPath κ) :
    (applyChildWrites path children node).valueAt place =
      overlay path (.node none children) node place := by
  induction children generalizing node with
  | nil =>
      rw [applyChildWrites, overlay]
      cases relativePathFrom path place with
      | none => simp
      | some rest =>
          cases rest <;>
            simp [FImmutableTree.reading_node_none_cons]
  | cons entry children ih =>
      obtain ⟨key, child⟩ := entry
      have hchild := hchildren (key, child) List.mem_cons_self (path ++ [key])
        node htree.child hnode
      have hafter : (applySubtreeWrite (path ++ [key]) child node).Respects
          inner := by
        intro other hother
        rw [hchild other]
        exact overlay_inner htree.child hnode hother
      have hrest := ih hkeys.tail (htree.tail hkeys)
        (fun other hother => hchildren other (List.mem_cons_of_mem _ hother))
        hafter
      rw [applyChildWrites_cons, hrest]
      unfold overlay at hchild ⊢
      rw [hchild place, relativePathFrom_append_left]
      cases hrelative : relativePathFrom path place with
      | none => simp
      | some below =>
          cases below with
          | nil => simp
          | cons front below =>
              simp only [Option.bind_some, FImmutableTree.reading_node_none_cons,
                KeyedList.lookup_cons_entry, relativePathFrom_cons_cons,
                relativePathFrom_nil]
              by_cases hfront : front = key
              · subst hfront
                have hlookup := hkeys.lookup_tail
                simp [hlookup]
              · simp [hfront, Ne.symm hfront]

theorem valueAt_applySubtreeWrite {inner : FPath κ → Prop}
    {tree : FImmutableTree κ (FNode κ α)} (hdistinct : tree.Distinct)
    {path : FPath κ} (htree : tree.Respects inner path) {node : FNode κ α}
    (hnode : node.Respects inner) (place : FPath κ) :
    (applySubtreeWrite path tree node).valueAt place =
      overlay path tree node place := by
  induction hdistinct generalizing path node place with
  | @node value children hkeys hchildren ih =>
      cases value with
      | none =>
          rw [applySubtreeWrite, applyPriorityWrite_eq]
          exact valueAt_applyChildWrites hkeys htree
            (fun child hchild below target htarget hrespects other =>
              ih child hchild htarget hrespects other) hnode place
      | some value =>
          have hopen : node.OpenAbove path :=
            hnode.openAbove fun above habove =>
              htree.placed [] value (by simp) above (by simpa using habove)
          rw [applySubtreeWrite, FNode.valueAt_updateChild hopen, overlay]
          cases relativePathFrom path place <;> simp

/-- The application overlays the compound write on the data of the node. -/
theorem valueAt_applyToNode {self : FCompoundWrite κ α}
    {inner : FPath κ → Prop} (hself : self.Respects inner) {node : FNode κ α}
    (hnode : node.Respects inner) (place : FPath κ) :
    (self.applyToNode node).valueAt place =
      (self.reading place).getD (node.valueAt place) :=
  valueAt_applySubtreeWrite self.distinct hself hnode place

end FCompoundWrite

end FirebaseDatabase
