import Stockly.FCompoundWrite

/-!
# The tree of pending writes

The writes of the user which the server has not acknowledged yet are kept in
the order in which they were made, together with a compound write which is
updated as they come and go.  The data shown at a path is the data known of
the server with this compound write laid over it.  The order of the writes is
used again when some of them are excluded, as transactions do.
-/

universe u v

namespace FirebaseDatabase

open FPath

variable {κ : Type u} {α : Type v}

inductive FWriteData (κ : Type u) (α : Type v) where
  | overwrite (node : FNode κ α)
  | merge (children : FCompoundWrite κ α)

structure FWriteRecord (κ : Type u) (α : Type v) where
  writeId : ℤ
  path : FPath κ
  data : FWriteData κ α
  visible : Bool

namespace FWriteRecord

/-- The nodes which the record writes, with their paths from the root. -/
def writes (record : FWriteRecord κ α) : List (PathWrite κ α) :=
  match record.data with
  | .overwrite node => [(record.path, node)]
  | .merge children => children.writesAt record.path

/-- `record:containsPath:` of the tree. -/
def containsPath [ChildName κ] (record : FWriteRecord κ α)
    (path : FPath κ) : Bool :=
  match record.data with
  | .overwrite _ => record.path.contains path
  | .merge children =>
      children.enumerateWrites.any fun write =>
        (record.path ++ write.1).contains path

/-- A merge writes children of the node at its path, and nothing deeper. -/
def Shallow (record : FWriteRecord κ α) : Prop :=
  ∀ children, record.data = .merge children →
    ∀ write ∈ children.enumerateWrites, ∃ key, write.1 = [key]

theorem containsPath_iff [ChildName κ] (record : FWriteRecord κ α)
    (path : FPath κ) :
    record.containsPath path ↔
      ∃ write ∈ record.writes, write.1 <+: path := by
  unfold containsPath writes
  cases record.data with
  | overwrite node => simp
  | merge children =>
      rw [List.any_eq_true]
      constructor
      · rintro ⟨write, hwrite, hcontains⟩
        exact ⟨_, List.mem_map_of_mem hwrite, contains_iff.mp hcontains⟩
      · rintro ⟨write, hwrite, hbegins⟩
        obtain ⟨inside, hinside, hsame⟩ := List.mem_map.mp hwrite
        rw [← hsame] at hbegins
        exact ⟨inside, hinside, contains_iff.mpr hbegins⟩

/-- Either the record overwrites its path, or it writes children of it. -/
theorem Shallow.writes_path {record : FWriteRecord κ α}
    (hshallow : record.Shallow) :
    (∀ write ∈ record.writes, write.1 = record.path) ∨
      ∀ write ∈ record.writes, ∃ key, write.1 = record.path ++ [key] := by
  unfold writes
  cases hdata : record.data with
  | overwrite node => simp
  | merge children =>
      right
      intro write hwrite
      obtain ⟨inside, hinside, hsame⟩ := List.mem_map.mp hwrite
      obtain ⟨key, hkey⟩ := hshallow children hdata inside hinside
      exact ⟨key, by rw [← hsame, hkey]⟩

theorem path_prefix_of_mem_writes {record : FWriteRecord κ α}
    {write : PathWrite κ α} (hwrite : write ∈ record.writes) :
    record.path <+: write.1 := by
  unfold writes at hwrite
  split at hwrite
  next => simp_all
  next children hdata =>
    obtain ⟨inside, -, hsame⟩ := List.mem_map.mp hwrite
    rw [← hsame]
    exact List.prefix_append _ _

end FWriteRecord

/-- What the cache of the server holds of a node, and whether it is all of
it. -/
structure FCacheNode (κ : Type u) (α : Type v) where
  node : FNode κ α
  isFullyInitialized : Bool
  isFiltered : Bool

def FCacheNode.isCompleteForChild [ChildName κ] (cache : FCacheNode κ α)
    (childKey : κ) : Bool :=
  (cache.isFullyInitialized && !cache.isFiltered) ||
    cache.node.hasChild childKey

structure FWriteTree (κ : Type u) (α : Type v) where
  visibleWrites : FCompoundWrite κ α
  allWrites : List (FWriteRecord κ α)
  lastWriteId : ℤ

namespace FWriteTree

section Operations

variable [ChildName κ]

def init : FWriteTree κ α := ⟨.emptyWrite, [], -1⟩

/-- The source asserts that the identifier is higher than the last one. -/
def addOverwriteAtPath (self : FWriteTree κ α) (path : FPath κ)
    (newData : FNode κ α) (writeId : ℤ) (visible : Bool) : FWriteTree κ α where
  visibleWrites :=
    if visible then self.visibleWrites.addWrite newData path
    else self.visibleWrites
  allWrites := self.allWrites ++ [⟨writeId, path, .overwrite newData, visible⟩]
  lastWriteId := writeId

def addMergeAtPath (self : FWriteTree κ α) (path : FPath κ)
    (changedChildren : FCompoundWrite κ α) (writeId : ℤ) : FWriteTree κ α where
  visibleWrites := self.visibleWrites.addCompoundWrite changedChildren path
  allWrites := self.allWrites ++ [⟨writeId, path, .merge changedChildren, true⟩]
  lastWriteId := writeId

/-- One record layered over the ones before it, seen from the tree root. -/
def layerRecord (treeRoot : FPath κ) (compoundWrite : FCompoundWrite κ α)
    (record : FWriteRecord κ α) : FCompoundWrite κ α :=
  let writePath := record.path
  match record.data with
  | .overwrite overwrite =>
      if treeRoot.contains writePath then
        compoundWrite.addWrite overwrite (relativePath treeRoot writePath)
      else if writePath.contains treeRoot then
        let child := overwrite.getChild (relativePath writePath treeRoot)
        compoundWrite.addWrite child []
      else compoundWrite
  | .merge merge =>
      if treeRoot.contains writePath then
        compoundWrite.addCompoundWrite merge (relativePath treeRoot writePath)
      else if writePath.contains treeRoot then
        let relativePath := relativePath writePath treeRoot
        if relativePath.isEmpty then compoundWrite.addCompoundWrite merge []
        else
          match merge.completeNodeAtPath relativePath with
          | some child =>
              -- the node found at the relative path is followed down once
              -- more, by the same path without its first key
              let deepNode := child.getChild relativePath.tail
              compoundWrite.addWrite deepNode []
          | none => compoundWrite
      else compoundWrite

def layerTreeFromWrites (writes : List (FWriteRecord κ α))
    (filter : FWriteRecord κ α → Bool) (treeRoot : FPath κ) : FCompoundWrite κ α :=
  (writes.filter filter).foldl (layerRecord treeRoot) .emptyWrite

/-- The source keeps every record here, whether it is visible or not. -/
def defaultFilter (_ : FWriteRecord κ α) : Bool := true

def resetTree (self : FWriteTree κ α) : FWriteTree κ α where
  visibleWrites := layerTreeFromWrites self.allWrites defaultFilter []
  allWrites := self.allWrites
  lastWriteId :=
    match self.allWrites.getLast? with
    | some lastRecord => lastRecord.writeId
    | none => -1

/-- One round of the loop over the other writes, which runs from the last one
to the first while the removed write still counts as visible. -/
def overlapStep (writeToRemove : FWriteRecord κ α) (index : ℕ)
    (currentWrite : FWriteRecord κ α × ℕ) (flags : Bool × Bool) : Bool × Bool :=
  if flags.1 ∧ currentWrite.1.visible then
    if index ≤ currentWrite.2 ∧
        currentWrite.1.containsPath writeToRemove.path then
      (false, flags.2)
    else if writeToRemove.path.contains currentWrite.1.path then (true, true)
    else flags
  else flags

/-- Whether the removed write may have been visible, and whether it overlaps
with other writes. -/
def overlapLoop (writeToRemove : FWriteRecord κ α) (index : ℕ)
    (allWrites : List (FWriteRecord κ α)) : Bool × Bool :=
  allWrites.zipIdx.foldr (overlapStep writeToRemove index)
    (writeToRemove.visible, false)

/-- The loop which takes the removed record out of the visible writes. -/
def forgetRecord (visibleWrites : FCompoundWrite κ α)
    (writeToRemove : FWriteRecord κ α) : FCompoundWrite κ α :=
  match writeToRemove.data with
  | .overwrite _ => visibleWrites.removeWriteAtPath writeToRemove.path
  | .merge children =>
      children.enumerateWrites.foldl
        (fun visibleWrites write =>
          visibleWrites.removeWriteAtPath (writeToRemove.path ++ write.1))
        visibleWrites

/-- Whether views have to be evaluated anew, and the tree without the write;
`none` when there is no such write, which is an exception. -/
def removeWriteId (self : FWriteTree κ α) (writeId : ℤ) :
    Option (Bool × FWriteTree κ α) :=
  match self.allWrites.findIdx? fun record => record.writeId == writeId with
  | none => none
  | some index =>
      match self.allWrites[index]? with
      | none => none
      | some writeToRemove =>
          let remaining := { self with allWrites := self.allWrites.eraseIdx index }
          let flags := overlapLoop writeToRemove index remaining.allWrites
          if ¬ flags.1 then some (false, remaining)
          else if flags.2 then some (true, remaining.resetTree)
          else
            some (true,
              { remaining with
                visibleWrites :=
                  forgetRecord remaining.visibleWrites writeToRemove })

def completeWriteDataAtPath (self : FWriteTree κ α) (path : FPath κ) :
    Option (FNode κ α) :=
  self.visibleWrites.completeNodeAtPath path

/-- The records which are layered when some are excluded. -/
def cacheFilter (treePath : FPath κ) (writeIdsToExclude : List ℤ)
    (includeHiddenWrites : Bool) (record : FWriteRecord κ α) : Bool :=
  (record.visible || includeHiddenWrites) &&
    !writeIdsToExclude.contains record.writeId &&
      (record.path.contains treePath || treePath.contains record.path)

def calculateCompleteEventCacheAtPath (self : FWriteTree κ α)
    (treePath : FPath κ) (completeServerCache : Option (FNode κ α))
    (writeIdsToExclude : Option (List ℤ)) (includeHiddenWrites : Bool) :
    Option (FNode κ α) :=
  if writeIdsToExclude.isNone ∧ ¬ includeHiddenWrites then
    match self.visibleWrites.completeNodeAtPath treePath with
    | some shadowingNode => some shadowingNode
    | none =>
        let subMerge := self.visibleWrites.childCompoundWriteAtPath treePath
        if subMerge.isEmpty then completeServerCache
        else if completeServerCache.isNone ∧
            ¬ subMerge.hasCompleteWriteAtPath [] then none
        else
          some (subMerge.applyToNode
            (completeServerCache.getD FNode.emptyNode))
  else
    let merge := self.visibleWrites.childCompoundWriteAtPath treePath
    if ¬ includeHiddenWrites ∧ merge.isEmpty then completeServerCache
    else if ¬ includeHiddenWrites ∧ completeServerCache.isNone ∧
        ¬ merge.hasCompleteWriteAtPath [] then none
    else
      let mergeAtPath :=
        layerTreeFromWrites self.allWrites
          (cacheFilter treePath (writeIdsToExclude.getD [])
            includeHiddenWrites)
          treePath
      some (mergeAtPath.applyToNode
        (completeServerCache.getD FNode.emptyNode))

def calculateCompleteChildAtPath (self : FWriteTree κ α) (treePath : FPath κ)
    (childKey : κ) (existingServerCache : FCacheNode κ α) :
    Option (FNode κ α) :=
  let path := treePath ++ [childKey]
  match self.visibleWrites.completeNodeAtPath path with
  | some shadowingNode => some shadowingNode
  | none =>
      if existingServerCache.isCompleteForChild childKey then
        let childMerge := self.visibleWrites.childCompoundWriteAtPath path
        some (childMerge.applyToNode
          (existingServerCache.node.getImmediateChild childKey))
      else none

/-- What a change of the server's data at a child path shows; `none` when the
change is shadowed. -/
def calculateEventCacheAfterServerOverwriteAtPath (self : FWriteTree κ α)
    (treePath childPath : FPath κ) (existingServerSnap : FNode κ α) :
    Option (FNode κ α) :=
  let path := treePath ++ childPath
  if self.visibleWrites.hasCompleteWriteAtPath path then none
  else
    let childMerge := self.visibleWrites.childCompoundWriteAtPath path
    if childMerge.isEmpty then some (existingServerSnap.getChild childPath)
    else some (childMerge.applyToNode (existingServerSnap.getChild childPath))

/-- The nodes written by the pending records, in the order of the writes. -/
def pendingWrites (self : FWriteTree κ α) : List (PathWrite κ α) :=
  self.allWrites.flatMap FWriteRecord.writes

end Operations

variable [PlainName κ]

/-! ## Layering the records -/

/-- A merge stands at most one level above the root: from further above, the
layering does not read it correctly. -/
def NotFarAbove (treeRoot : FPath κ) (record : FWriteRecord κ α) : Prop :=
  ∀ children, record.data = .merge children →
    ∀ rest, treeRoot = record.path ++ rest → rest.length ≤ 1

/-- A single key reads as the write of this key. -/
theorem reading_cons_of_shallow {children : FCompoundWrite κ α}
    (hshallow : ∀ write ∈ children.enumerateWrites, ∃ key, write.1 = [key])
    {key : κ} (hnone : children.completeNodeAtPath [key] = none)
    (place : FPath κ) : children.reading (key :: place) = none := by
  rw [← children.lastWrite_enumerateWrites, lastWrite_eq_none_iff]
  intro write hwrite
  obtain ⟨other, hother⟩ := hshallow write hwrite
  have hne : other ≠ key := by
    rintro rfl
    have hsome :
        (lastWrite (covers [other]) children.enumerateWrites).isSome :=
      lastWrite_isSome hwrite (by simp [covers, hother])
    rw [children.lastWrite_enumerateWrites,
      ← children.isSome_completeNodeAtPath, hnone] at hsome
    contradiction
  simp [covers, hother, hne]

/-- Writes which say below the root what a record says there. -/
structure LayeredAs (inner : FPath κ → Prop) (treeRoot : FPath κ)
    (record : FWriteRecord κ α) (writes : List (PathWrite κ α)) : Prop where
  fits : ∀ write ∈ writes, Fits (fun place => inner (treeRoot ++ place)) write
  reads : ∀ place, lastWrite (covers place) writes =
    lastWrite (covers (treeRoot ++ place)) record.writes

/-- A record at or below the root is layered at its path from the root. -/
theorem layeredAs_below {inner : FPath κ → Prop} {treeRoot : FPath κ}
    {record : FWriteRecord κ α} {writes : List (PathWrite κ α)}
    (hwrites : record.writes =
      writes.map fun write => (treeRoot ++ write.1, write.2))
    (hfits : ∀ write ∈ record.writes, Fits inner write) :
    LayeredAs inner treeRoot record writes where
  fits := by
    intro write hwrite
    apply Fits.below
    apply hfits
    rw [hwrites]
    exact List.mem_map.mpr ⟨write, hwrite, rfl⟩
  reads := by
    intro place
    rw [hwrites]
    simp only [lastWrite, List.filterMap_map, Function.comp_def,
      covers_append_append]

/-- A record above the root is layered as the node which it leaves at the
root. -/
theorem layeredAs_root {inner : FPath κ → Prop} {treeRoot : FPath κ}
    {record : FWriteRecord κ α} {node : FNode κ α}
    (hreads : ∀ place,
      lastWrite (covers (treeRoot ++ place)) record.writes =
        some (node.valueAt place))
    (hfits : ∀ write ∈ record.writes, Fits inner write) :
    LayeredAs inner treeRoot record [([], node)] where
  fits := by
    intro write hwrite
    rw [List.mem_singleton.mp hwrite]
    constructor
    · intro above hnil
      exact absurd hnil (above_nil above)
    · intro place hplace
      have hquiet := lastWrite_covers_inner hfits hplace
      rw [hreads] at hquiet
      simpa [covers] using hquiet
  reads := by
    intro place
    rw [hreads]
    simp [lastWrite, covers]

/-- A record which says nothing at or below the root is not layered. -/
theorem layeredAs_nil {inner : FPath κ → Prop} {treeRoot : FPath κ}
    {record : FWriteRecord κ α}
    (hreads : ∀ place,
      lastWrite (covers (treeRoot ++ place)) record.writes = none) :
    LayeredAs inner treeRoot record [] where
  fits := by simp
  reads := by
    intro place
    rw [hreads]
    rfl

/-- Records neither above nor below the root say nothing there. -/
theorem covers_eq_none_of_aside {treeRoot : FPath κ}
    {record : FWriteRecord κ α} (hbelow : ¬ treeRoot <+: record.path)
    (habove : ¬ record.path <+: treeRoot) (place : FPath κ) :
    lastWrite (covers (treeRoot ++ place)) record.writes = none := by
  rw [lastWrite_eq_none_iff]
  intro write hwrite
  have hpath := FWriteRecord.path_prefix_of_mem_writes hwrite
  rw [covers, Option.map_eq_none_iff, relativePathFrom_eq_none_iff]
  intro hcovers
  rcases List.prefix_or_prefix_of_prefix (hpath.trans hcovers)
    (List.prefix_append treeRoot place) with hbefore | hafter
  · exact habove hbefore
  · exact hbelow hafter

/-- The layering of an overwrite. -/
theorem layerRecord_overwrite {inner : FPath κ → Prop} {treeRoot : FPath κ}
    {record : FWriteRecord κ α} {node : FNode κ α}
    (hdata : record.data = .overwrite node)
    (hfits : ∀ write ∈ record.writes, Fits inner write)
    (compoundWrite : FCompoundWrite κ α) :
    ∃ writes, LayeredAs inner treeRoot record writes ∧
      layerRecord treeRoot compoundWrite record =
        writes.foldl (fun newWrite write => newWrite.addWrite write.2 write.1)
          compoundWrite := by
  have hwrites : record.writes = [(record.path, node)] := by
    simp [FWriteRecord.writes, hdata]
  by_cases hbelow : treeRoot <+: record.path
  · obtain ⟨rest, hrest⟩ := hbelow
    have hlayered : LayeredAs inner treeRoot record [(rest, node)] :=
      layeredAs_below (by simp [hwrites, hrest]) hfits
    exact ⟨_, hlayered, by simp [layerRecord, hdata, ← hrest]⟩
  · by_cases habove : record.path <+: treeRoot
    · obtain ⟨rest, rfl⟩ := habove
      have hreads : ∀ place,
          lastWrite (covers (record.path ++ rest ++ place)) record.writes =
            some ((node.getChild rest).valueAt place) := by
        intro place
        rw [hwrites, List.append_assoc]
        simp [lastWrite, covers]
      exact ⟨_, layeredAs_root hreads hfits, by
        simp [layerRecord, hdata, hbelow]⟩
    · exact ⟨[], layeredAs_nil (covers_eq_none_of_aside hbelow habove), by
        simp [layerRecord, hdata, hbelow, habove]⟩

/-- The layering of a merge which is not far above the root. -/
theorem layerRecord_merge {inner : FPath κ → Prop} {treeRoot : FPath κ}
    {record : FWriteRecord κ α} {children : FCompoundWrite κ α}
    (hdata : record.data = .merge children) (hshallow : record.Shallow)
    (hfar : NotFarAbove treeRoot record)
    (hfits : ∀ write ∈ record.writes, Fits inner write)
    (compoundWrite : FCompoundWrite κ α) :
    ∃ writes, LayeredAs inner treeRoot record writes ∧
      layerRecord treeRoot compoundWrite record =
        writes.foldl (fun newWrite write => newWrite.addWrite write.2 write.1)
          compoundWrite := by
  have hwrites : record.writes = children.writesAt record.path := by
    simp [FWriteRecord.writes, hdata]
  by_cases hbelow : treeRoot <+: record.path
  · obtain ⟨rest, hrest⟩ := hbelow
    have hlayered : LayeredAs inner treeRoot record
        (children.writesAt rest) := by
      apply layeredAs_below _ hfits
      simp [hwrites, ← hrest, FCompoundWrite.writesAt]
    exact ⟨_, hlayered, by
      simp [layerRecord, hdata, ← hrest,
        FCompoundWrite.addCompoundWrite_eq_foldl]⟩
  · by_cases habove : record.path <+: treeRoot
    · obtain ⟨rest, rfl⟩ := habove
      have hle := hfar children hdata rest rfl
      cases rest with
      | nil => exact absurd (by simp) hbelow
      | cons key further =>
          obtain rfl : further = [] := by simpa using hle
          have hread : ∀ place,
              lastWrite (covers (record.path ++ [key] ++ place))
                record.writes = children.reading (key :: place) := by
            intro place
            rw [hwrites, List.append_assoc, children.lastWrite_writesAt,
              children.lastWrite_enumerateWrites]
            rfl
          cases hcomplete : children.completeNodeAtPath [key] with
          | some child =>
              have hreads : ∀ place,
                  lastWrite (covers (record.path ++ [key] ++ place))
                    record.writes = some (child.valueAt place) := by
                intro place
                rw [hread]
                exact FCompoundWrite.reading_append_of_complete hcomplete place
              exact ⟨_, layeredAs_root hreads hfits, by
                simp [layerRecord, hdata, hbelow, hcomplete]⟩
          | none =>
              have hreads : ∀ place,
                  lastWrite (covers (record.path ++ [key] ++ place))
                    record.writes = none := by
                intro place
                rw [hread]
                exact reading_cons_of_shallow (hshallow children hdata)
                  hcomplete place
              exact ⟨[], layeredAs_nil hreads, by
                simp [layerRecord, hdata, hbelow, hcomplete]⟩
    · exact ⟨[], layeredAs_nil (covers_eq_none_of_aside hbelow habove), by
        simp [layerRecord, hdata, hbelow, habove]⟩

/-- A layered record is a list of added writes. -/
theorem layerRecord_eq_foldl {inner : FPath κ → Prop} {treeRoot : FPath κ}
    {record : FWriteRecord κ α} (hshallow : record.Shallow)
    (hfar : NotFarAbove treeRoot record)
    (hfits : ∀ write ∈ record.writes, Fits inner write)
    (compoundWrite : FCompoundWrite κ α) :
    ∃ writes, LayeredAs inner treeRoot record writes ∧
      layerRecord treeRoot compoundWrite record =
        writes.foldl (fun newWrite write => newWrite.addWrite write.2 write.1)
          compoundWrite := by
  cases hdata : record.data with
  | overwrite node => exact layerRecord_overwrite hdata hfits compoundWrite
  | merge children =>
      exact layerRecord_merge hdata hshallow hfar hfits compoundWrite

theorem layerRecords_spec (inner : FPath κ → Prop) (treeRoot : FPath κ)
    {records : List (FWriteRecord κ α)}
    (hrecords : ∀ record ∈ records, record.Shallow ∧
      NotFarAbove treeRoot record ∧ ∀ write ∈ record.writes, Fits inner write)
    {compoundWrite : FCompoundWrite κ α}
    (hcompound : compoundWrite.Respects fun place =>
      inner (treeRoot ++ place)) :
    (records.foldl (layerRecord treeRoot) compoundWrite).Respects
        (fun place => inner (treeRoot ++ place)) ∧
      ∀ place,
        (records.foldl (layerRecord treeRoot) compoundWrite).reading place =
          (lastWrite (covers (treeRoot ++ place))
            (records.flatMap FWriteRecord.writes)).or
              (compoundWrite.reading place) := by
  induction records generalizing compoundWrite with
  | nil => exact ⟨hcompound, fun place => rfl⟩
  | cons record records ih =>
      obtain ⟨hshallow, hfar, hfits⟩ := hrecords record List.mem_cons_self
      obtain ⟨writes, hlayered, hlayer⟩ :=
        layerRecord_eq_foldl hshallow hfar hfits compoundWrite
      have hadded := FCompoundWrite.foldl_addWrite hcompound hlayered.fits
      rw [← hlayer] at hadded
      have hrest := ih (fun other hother =>
        hrecords other (List.mem_cons_of_mem record hother)) hadded.1
      constructor
      · exact hrest.1
      · intro place
        rw [List.foldl_cons, hrest.2 place, hadded.2 place,
          hlayered.reads,
          List.flatMap_cons, lastWrite_append, Option.or_assoc]

end FWriteTree

end FirebaseDatabase
