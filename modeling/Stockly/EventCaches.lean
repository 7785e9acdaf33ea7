import Stockly.PendingWrites

/-!
# Other ways to the data shown

The tree of pending writes answers several questions besides the one for a
complete snapshot: for a snapshot without some of the writes, for a snapshot
when nothing is known of the server, for a single child, and for what a change
of the server's data shows.  All of them agree with the data of the server on
which the pending writes are made.  A write which is removed too early, while
an older write covers it, stays visible.
-/

universe u v

namespace FirebaseDatabase

open FPath

variable {κ : Type u} {α : Type v} [PlainName κ]

namespace FWriteTree

/-! ## Without some of the writes -/

/-- The records which are not excluded. -/
def pendingWithout (tree : FWriteTree κ α) (excluded : List ℤ) :
    List (FWriteRecord κ α) :=
  tree.allWrites.filter fun record => !excluded.contains record.writeId

/-- Only the records above or below the tree root are layered, and the others
say nothing there. -/
theorem lastWrite_cacheFilter {records : List (FWriteRecord κ α)}
    (hvisible : ∀ record ∈ records, record.visible) (treePath place : FPath κ)
    (excluded : List ℤ) (includeHiddenWrites : Bool) :
    lastWrite (covers (treePath ++ place))
        ((records.filter (cacheFilter treePath excluded
          includeHiddenWrites)).flatMap FWriteRecord.writes) =
      lastWrite (covers (treePath ++ place))
        ((records.filter fun record =>
          !excluded.contains record.writeId).flatMap FWriteRecord.writes) := by
  induction records with
  | nil => rfl
  | cons record records ih =>
      have hrest := ih fun other hother =>
        hvisible other (List.mem_cons_of_mem record hother)
      have hfilter :
          cacheFilter treePath excluded includeHiddenWrites record =
            (!excluded.contains record.writeId &&
              (record.path.contains treePath ||
                treePath.contains record.path)) := by
        rw [cacheFilter, hvisible record List.mem_cons_self, Bool.true_or,
          Bool.true_and]
      rw [List.filter_cons, List.filter_cons, hfilter]
      cases excluded.contains record.writeId with
      | true => exact hrest
      | false =>
          cases hrelated : record.path.contains treePath ||
            treePath.contains record.path with
          | true =>
              simp only [Bool.not_false, Bool.and_self, if_true,
                List.flatMap_cons, lastWrite_append, hrest]
          | false =>
              rw [Bool.or_eq_false_iff] at hrelated
              have habove : ¬ record.path <+: treePath := by
                rw [← contains_iff, hrelated.1]
                simp
              have hbelow : ¬ treePath <+: record.path := by
                rw [← contains_iff, hrelated.2]
                simp
              simp only [Bool.not_false, Bool.and_false, Bool.false_eq_true,
                if_true, if_false, List.flatMap_cons, lastWrite_append,
                covers_eq_none_of_aside hbelow habove, Option.or_none]
              exact hrest

theorem lastWrite_pendingWithout_of_none {tree : FWriteTree κ α}
    {place : FPath κ} (hnone : lastWrite (covers place) tree.pendingWrites = none)
    (excluded : List ℤ) :
    lastWrite (covers place)
      ((tree.pendingWithout excluded).flatMap FWriteRecord.writes) = none := by
  rw [lastWrite_eq_none_iff] at hnone ⊢
  intro write hwrite
  obtain ⟨record, hrecord, hmem⟩ := List.mem_flatMap.mp hwrite
  exact hnone write
    (List.mem_flatMap.mpr ⟨record, List.mem_of_mem_filter hrecord, hmem⟩)

/-- The layered records, applied to the data which the server has at the tree
root. -/
theorem Sound.valueAt_layered {inner : FPath κ → Prop} {tree : FWriteTree κ α}
    (hsound : tree.Sound inner) {server : FNode κ α}
    (hserver : server.Respects inner) {treePath : FPath κ}
    (hfar : ∀ record ∈ tree.allWrites, NotFarAbove treePath record)
    (excluded : List ℤ) (includeHiddenWrites : Bool) (place : FPath κ) :
    ((layerTreeFromWrites tree.allWrites
        (cacheFilter treePath excluded includeHiddenWrites)
        treePath).applyToNode (server.getChild treePath)).valueAt place =
      (lastWrite (covers (treePath ++ place))
        ((tree.pendingWithout excluded).flatMap FWriteRecord.writes)).getD
          (server.valueAt (treePath ++ place)) := by
  have hrecords : ∀ record ∈ tree.allWrites.filter
      (cacheFilter treePath excluded includeHiddenWrites), record.Shallow ∧
        NotFarAbove treePath record ∧
          ∀ write ∈ record.writes, Fits inner write := by
    intro record hrecord
    have hmem := List.mem_of_mem_filter hrecord
    exact ⟨hsound.shallow record hmem, hfar record hmem,
      hsound.fits record hmem⟩
  have hlayers := layerRecords_spec inner treePath hrecords
    (FCompoundWrite.respects_emptyWrite _)
  unfold layerTreeFromWrites
  rw [FCompoundWrite.valueAt_applyToNode hlayers.1
    (respects_getChild hserver treePath), hlayers.2 place,
    lastWrite_cacheFilter hsound.visible, FNode.valueAt_getChild,
    FCompoundWrite.reading_emptyWrite, Option.or_none]
  rfl

theorem Sound.fits_pendingWithout {inner : FPath κ → Prop}
    {tree : FWriteTree κ α} (hsound : tree.Sound inner) (excluded : List ℤ) :
    ∀ write ∈ (tree.pendingWithout excluded).flatMap FWriteRecord.writes,
      Fits inner write := by
  intro write hwrite
  obtain ⟨record, hrecord, hmem⟩ := List.mem_flatMap.mp hwrite
  exact hsound.fits record (List.mem_of_mem_filter hrecord) write hmem

/-- Without the excluded writes, the data shown is the data of the server with
the other pending writes made on it, unless a merge was made two or more
levels above the path. -/
theorem eventCache_excluding {inner : FPath κ → Prop} {tree : FWriteTree κ α}
    (htree : Reachable inner tree) {server : FNode κ α}
    (hserver : server.Respects inner) {treePath : FPath κ}
    (hfar : ∀ record ∈ tree.allWrites, NotFarAbove treePath record)
    (excluded : List ℤ) (includeHiddenWrites : Bool) :
    ∃ node,
      tree.calculateCompleteEventCacheAtPath treePath
          (some (server.getChild treePath)) (some excluded)
          includeHiddenWrites = some node ∧
        ∀ place, node.valueAt place =
          (((tree.pendingWithout excluded).flatMap
            FWriteRecord.writes).foldl applyWrite server).valueAt
              (treePath ++ place) := by
  have hsound := htree.sound
  have hvalue := fun place => valueAt_foldl_applyWrite
    (hsound.fits_pendingWithout excluded) hserver (treePath ++ place)
  unfold calculateCompleteEventCacheAtPath
  rw [if_neg (by simp)]
  dsimp only
  split
  next hempty =>
    have hread : ∀ place,
        lastWrite (covers (treePath ++ place)) tree.pendingWrites = none := by
      intro place
      rw [← hsound.reading, ← FCompoundWrite.reading_childCompoundWriteAtPath]
      exact FCompoundWrite.reading_of_isEmpty hempty.2 place
    exact ⟨_, rfl, fun place => by
      rw [hvalue, lastWrite_pendingWithout_of_none (hread place),
        FNode.valueAt_getChild]
      rfl⟩
  next =>
    rw [if_neg (by simp), Option.getD_some, Option.getD_some]
    exact ⟨_, rfl, fun place => by
      rw [hvalue, hsound.valueAt_layered hserver hfar]⟩

theorem eventCache_excluding_overlapping :
    ∃ node,
      overlapping.calculateCompleteEventCacheAtPath [keyA, keyB]
          (some ((FNode.emptyNode : FNode PlainKey ℕ).getChild [keyA, keyB]))
          (some [0, 2]) false = some node ∧
        ∀ place, node.valueAt place =
          (((overlapping.pendingWithout [0, 2]).flatMap
            FWriteRecord.writes).foldl applyWrite FNode.emptyNode).valueAt
              ([keyA, keyB] ++ place) := by
  have hfar : ∀ record ∈ overlapping.allWrites,
      NotFarAbove [keyA, keyB] record := by
    intro record hrecord children hdata rest hrest
    have hpath : record.path = [keyA] ∨ record.path = [keyA, keyC] := by
      simp only [overlapping, addOverwriteAtPath, addMergeAtPath, init,
        List.nil_append, List.cons_append, List.mem_cons, List.not_mem_nil,
        or_false] at hrecord
      rcases hrecord with rfl | rfl | rfl <;> simp
    have hlength : 2 = record.path.length + rest.length := by
      rw [← List.length_append, ← hrest]
      rfl
    have hone : 1 ≤ record.path.length := by
      rcases hpath with hpath | hpath <;> simp [hpath]
    omega
  exact eventCache_excluding reachable_overlapping
    (fun place _ => FNode.valueAt_emptyNode place) hfar [0, 2] false

/-! ## With nothing known of the server -/

theorem calculateCompleteEventCacheAtPath_none (tree : FWriteTree κ α)
    (treePath : FPath κ) :
    tree.calculateCompleteEventCacheAtPath treePath none none false =
      tree.visibleWrites.completeNodeAtPath treePath := by
  unfold calculateCompleteEventCacheAtPath
  rw [if_pos (by simp)]
  cases hcomplete : tree.visibleWrites.completeNodeAtPath treePath with
  | some shadowingNode => rfl
  | none =>
      dsimp only
      split
      next => rfl
      next =>
        have hnone := FCompoundWrite.isSome_completeNodeAtPath
          (tree.visibleWrites.childCompoundWriteAtPath treePath) []
        rw [FCompoundWrite.reading_childCompoundWriteAtPath,
          List.append_nil, ← FCompoundWrite.isSome_completeNodeAtPath,
          hcomplete] at hnone
        rw [if_pos (by
          simpa [FCompoundWrite.hasCompleteWriteAtPath] using hnone)]

theorem isSome_lastWrite_covers_iff {writes : List (PathWrite κ α)}
    {place : FPath κ} :
    (lastWrite (covers place) writes).isSome ↔
      ∃ write ∈ writes, write.1 <+: place := by
  rw [Option.isSome_iff_ne_none, ne_eq, lastWrite_eq_none_iff]
  simp only [covers, Option.map_eq_none_iff, relativePathFrom_eq_none_iff]
  push Not
  rfl

/-- A snapshot is given without the server exactly when a pending write covers
the path, and then it is what the user is shown, whatever the server has. -/
theorem eventCache_without_server {inner : FPath κ → Prop}
    {tree : FWriteTree κ α} (htree : Reachable inner tree) (treePath : FPath κ) :
    ((tree.calculateCompleteEventCacheAtPath treePath none none false).isSome ↔
      ∃ write ∈ tree.pendingWrites, write.1 <+: treePath) ∧
      ∀ node,
        tree.calculateCompleteEventCacheAtPath treePath none none false =
            some node →
          ∀ server : FNode κ α, server.Respects inner → ∀ place,
            node.valueAt place =
              (tree.shownData server).valueAt (treePath ++ place) := by
  have hsound := htree.sound
  rw [calculateCompleteEventCacheAtPath_none]
  constructor
  · rw [FCompoundWrite.isSome_completeNodeAtPath, hsound.reading,
      isSome_lastWrite_covers_iff]
  · intro node hnode server hserver place
    rw [hsound.valueAt_shownData hserver,
      FCompoundWrite.reading_append_of_complete hnode]
    rfl

theorem eventCache_without_server_overlapping :
    ((overlappingAnswered.calculateCompleteEventCacheAtPath [keyA, keyB] none
          none false).isSome ↔
        ∃ write ∈ overlappingAnswered.pendingWrites,
          write.1 <+: [keyA, keyB]) ∧
      ∀ node,
        overlappingAnswered.calculateCompleteEventCacheAtPath [keyA, keyB]
            none none false = some node →
          ∀ server : FNode PlainKey ℕ, server.Respects aboveA → ∀ place,
            node.valueAt place =
              (overlappingAnswered.shownData server).valueAt
                ([keyA, keyB] ++ place) :=
  eventCache_without_server reachable_overlappingAnswered [keyA, keyB]

/-! ## A child, and a change of the server's data -/

/-- The child of a complete cache with the writes is the child shown. -/
theorem completeChild_eq_shownData {inner : FPath κ → Prop}
    {tree : FWriteTree κ α} (htree : Reachable inner tree) {server : FNode κ α}
    (hserver : server.Respects inner) (treePath : FPath κ)
    (childKey : κ) {cache : FCacheNode κ α}
    (hnode : cache.node = server.getChild treePath)
    (hcomplete : cache.isFullyInitialized ∧ ¬ cache.isFiltered) :
    ∃ node,
      tree.calculateCompleteChildAtPath treePath childKey cache = some node ∧
        ∀ place, node.valueAt place =
          (tree.shownData server).valueAt (treePath ++ childKey :: place) := by
  have hsound := htree.sound
  simp only [hsound.valueAt_shownData hserver]
  unfold calculateCompleteChildAtPath
  dsimp only
  cases hshadow :
      tree.visibleWrites.completeNodeAtPath (treePath ++ [childKey]) with
  | some shadowingNode =>
      have hread := FCompoundWrite.reading_append_of_complete hshadow
      exact ⟨shadowingNode, rfl, fun place => by
        have hplace := hread place
        rw [List.append_assoc] at hplace
        rw [show childKey :: place = [childKey] ++ place from rfl, hplace]
        rfl⟩
  | none =>
      have hchild : cache.node.getImmediateChild childKey =
          server.getChild (treePath ++ [childKey]) := by
        rw [hnode, FNode.getChild_append]
        simp
      have hknown : cache.isCompleteForChild childKey := by
        simp [FCacheNode.isCompleteForChild, hcomplete.1, hcomplete.2]
      rw [if_pos hknown, hchild]
      exact ⟨_, rfl, fun place => by
        rw [valueAt_applyToNode_child hsound.respects hserver,
          List.append_assoc]
        rfl⟩

/-- A change of the server's data shows nothing when a pending write covers
its path; else the data shown there is what the user is shown. -/
theorem afterServerOverwrite_eq_shownData {inner : FPath κ → Prop}
    {tree : FWriteTree κ α} (htree : Reachable inner tree) {server : FNode κ α}
    (hserver : server.Respects inner) (treePath childPath : FPath κ) :
    match tree.calculateEventCacheAfterServerOverwriteAtPath treePath
      childPath (server.getChild treePath) with
    | none => ∃ write ∈ tree.pendingWrites, write.1 <+: treePath ++ childPath
    | some node => ∀ place, node.valueAt place =
        (tree.shownData server).valueAt (treePath ++ childPath ++ place) := by
  have hsound := htree.sound
  simp only [hsound.valueAt_shownData hserver]
  unfold calculateEventCacheAfterServerOverwriteAtPath
  dsimp only
  rw [← FNode.getChild_append]
  split
  next hresult =>
    split at hresult
    next hcomplete =>
      rw [FCompoundWrite.hasCompleteWriteAtPath,
        FCompoundWrite.isSome_completeNodeAtPath, hsound.reading,
        isSome_lastWrite_covers_iff] at hcomplete
      exact hcomplete
    next => split at hresult <;> contradiction
  next node hresult =>
    split at hresult
    next => contradiction
    next =>
      split at hresult
      next hempty =>
        cases hresult
        intro place
        have hread : tree.visibleWrites.reading
            (treePath ++ childPath ++ place) = none := by
          rw [← FCompoundWrite.reading_childCompoundWriteAtPath]
          exact FCompoundWrite.reading_of_isEmpty hempty place
        rw [hread, FNode.valueAt_getChild]
        rfl
      next =>
        cases hresult
        exact valueAt_applyToNode_child hsound.respects hserver
          (treePath ++ childPath)

theorem afterServerOverwrite_overlapping :
    match overlappingAnswered.calculateEventCacheAfterServerOverwriteAtPath []
        [keyA] ((FNode.emptyNode.updateChild [keyA] nodeB).getChild []) with
    | none => ∃ write ∈ overlappingAnswered.pendingWrites,
        write.1 <+: [] ++ [keyA]
    | some node => ∀ place, node.valueAt place =
        (overlappingAnswered.shownData
          (FNode.emptyNode.updateChild [keyA] nodeB)).valueAt
            ([] ++ [keyA] ++ place) :=
  afterServerOverwrite_eq_shownData reachable_overlappingAnswered
    respects_nodeB [] [keyA]

/-! ## A write removed under an older one -/

/-- The older write which covers the path of a removed one is not noticed, and
the visible writes still read as before. -/
theorem covering_removeWriteId_under {inner : FPath κ → Prop}
    {tree next : FWriteTree κ α} (hsound : tree.Sound inner)
    {before after : List (FWriteRecord κ α)} {record : FWriteRecord κ α}
    {node : FNode κ α} (hdata : record.data = .overwrite node)
    (hsplit : tree.allWrites = before ++ record :: after)
    (holder : ∃ older ∈ before, ∃ write ∈ older.writes,
      Above write.1 record.path)
    (hlater : ∀ later ∈ after, ¬ later.containsPath record.path)
    (hother : ∀ other ∈ before ++ after, ¬ record.path <+: other.path)
    {reevaluate : Bool}
    (hremove : tree.removeWriteId record.writeId = some (reevaluate, next))
    (place : FPath κ) :
    next.visibleWrites.writeTree.covering place =
      tree.visibleWrites.writeTree.covering place := by
  have hmem : ∀ other ∈ before ++ after, other ∈ tree.allWrites := by
    intro other hother
    rw [hsplit]
    rcases List.mem_append.mp hother with hearlier | hafter
    · exact List.mem_append_left _ hearlier
    · exact List.mem_append_right _ (List.mem_cons_of_mem record hafter)
  have hvisible := hsound.visible record (by rw [hsplit]; simp)
  have hnotShadowed : ¬ ∃ current ∈ (before ++ after).zipIdx,
      Shadows record before.length current := by
    rw [exists_shadows_iff fun other hafter => hsound.visible other
      (hmem other (List.mem_append_right before hafter))]
    rintro ⟨later, hafter, hcontains⟩
    exact hlater later hafter hcontains
  have hany : ¬ ((before ++ after).zipIdx.any fun current =>
      record.path.contains current.1.path) := by
    rw [any_zipIdx_iff]
    rintro ⟨other, hmember, hbegins⟩
    exact hother other hmember hbegins
  have hloop : overlapLoop record before.length (before ++ after) =
      (true, false) := by
    unfold overlapLoop
    rw [hvisible, overlapLoop_of_not_shadowed hnotShadowed
      (fun current hcurrent => hsound.visible current.1 (hmem current.1
        (List.fst_mem_of_mem_zipIdx hcurrent)))]
    simpa using hany
  rw [removeWriteId_eq hsplit hsound.ascending] at hremove
  dsimp only at hremove
  rw [hloop, if_neg (by simp), if_neg (by simp)] at hremove
  cases hremove
  obtain ⟨older, holderMem, write, hwrite, habove⟩ := holder
  have hcovered : tree.visibleWrites.writeTree.covering write.1 ≠ none := by
    have hsome : (tree.visibleWrites.reading write.1).isSome := by
      rw [hsound.reading, isSome_lastWrite_covers_iff]
      exact ⟨write, List.mem_flatMap.mpr
        ⟨older, hmem older (List.mem_append_left after holderMem), hwrite⟩,
        List.prefix_rfl⟩
    intro hnone
    simp [FCompoundWrite.reading, FImmutableTree.reading, hnone] at hsome
  rw [forgetRecord, hdata]
  exact FCompoundWrite.covering_removeWriteAtPath_of_above habove hcovered place

/-- A write which is removed while an older write stands above it is still
shown, at every path and whatever the server has, as though it were still
pending. -/
theorem eventCache_removed_under_older {inner : FPath κ → Prop}
    {tree next : FWriteTree κ α} (htree : Reachable inner tree)
    {before after : List (FWriteRecord κ α)} {record : FWriteRecord κ α}
    {node : FNode κ α} (hdata : record.data = .overwrite node)
    (hsplit : tree.allWrites = before ++ record :: after)
    (holder : ∃ older ∈ before, ∃ write ∈ older.writes,
      Above write.1 record.path)
    (hlater : ∀ later ∈ after, ¬ later.containsPath record.path)
    (hother : ∀ other ∈ before ++ after, ¬ record.path <+: other.path)
    {reevaluate : Bool}
    (hremove : tree.removeWriteId record.writeId = some (reevaluate, next))
    {server : FNode κ α} (hserver : server.Respects inner) (treePath : FPath κ) :
    ∃ shown,
      next.calculateCompleteEventCacheAtPath treePath
          (some (server.getChild treePath)) none false = some shown ∧
        ∀ place, shown.valueAt place =
          (tree.shownData server).valueAt (treePath ++ place) := by
  have hsound := htree.sound
  have hsame := covering_removeWriteId_under hsound hdata hsplit holder hlater
    hother hremove
  have hrespects := hsound.respects.congr hsame
  obtain ⟨shown, hshown, hvalues⟩ := eventCache_reads hrespects hserver treePath
  exact ⟨shown, hshown, fun place => by
    rw [hvalues, hsound.valueAt_shownData hserver]
    simp only [FCompoundWrite.reading, FImmutableTree.reading, hsame]⟩

/-- A node at a key, and then a leaf below it. -/
def underOlder : FWriteTree PlainKey ℕ :=
  (init.addOverwriteAtPath [keyA] nodeB 0 true).addOverwriteAtPath
    [keyA, keyB] (.leafOf 2) 1 true

/-- The same tree once the leaf is removed. -/
def underOlderRemoved : FWriteTree PlainKey ℕ where
  visibleWrites := underOlder.visibleWrites.removeWriteAtPath [keyA, keyB]
  allWrites := [⟨0, [keyA], .overwrite nodeB, true⟩]
  lastWriteId := 1

theorem reachable_underOlder : Reachable aboveA underOlder :=
  .overwrite (.overwrite .init (by decide) fits_nodeB) (by decide)
    (fits_leaf keyB 2)

theorem eventCache_removed_underOlder :
    ∃ shown,
      underOlderRemoved.calculateCompleteEventCacheAtPath []
          (some ((FNode.emptyNode : FNode PlainKey ℕ).getChild [])) none
            false = some shown ∧
        ∀ place, shown.valueAt place =
          (underOlder.shownData FNode.emptyNode).valueAt ([] ++ place) := by
  have hsplit : underOlder.allWrites =
      [⟨0, [keyA], .overwrite nodeB, true⟩] ++
        ⟨1, [keyA, keyB], .overwrite (.leafOf 2), true⟩ :: [] := rfl
  have hremove : underOlder.removeWriteId 1 =
      some (true, underOlderRemoved) := rfl
  exact eventCache_removed_under_older reachable_underOlder rfl hsplit
    (by simp [FWriteRecord.writes, above_cons_iff, above_nil]) (by simp)
    (by simp) hremove (fun place _ => FNode.valueAt_emptyNode place) []

end FWriteTree

end FirebaseDatabase
