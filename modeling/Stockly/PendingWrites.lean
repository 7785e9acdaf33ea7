import Stockly.FWriteTree

/-!
# What the user sees while writes are pending

In every run of the tree of pending writes, the data shown at a path is the
data of the server with the pending writes made on it, in their order.  The
writes come and go: a write is removed when the server has answered, and the
order of the answers may differ from the order of the writes as long as no
older pending write covers what the removed one wrote.  Keys are plain names,
merges write single keys, and no location above a written one ever holds a
leaf.
-/

universe u v

namespace FirebaseDatabase

open FPath

variable {κ : Type u} {α : Type v} [PlainName κ]

namespace FWriteTree

/-- What holds of the tree between two steps. -/
structure Sound (inner : FPath κ → Prop) (tree : FWriteTree κ α) : Prop where
  visible : ∀ record ∈ tree.allWrites, record.visible
  shallow : ∀ record ∈ tree.allWrites, record.Shallow
  fits : ∀ record ∈ tree.allWrites, ∀ write ∈ record.writes, Fits inner write
  ascending : (tree.allWrites.map FWriteRecord.writeId).Pairwise (· < ·)
  last : ∀ record ∈ tree.allWrites, record.writeId ≤ tree.lastWriteId
  respects : tree.visibleWrites.Respects inner
  reading : ∀ place, tree.visibleWrites.reading place =
    lastWrite (covers place) tree.pendingWrites

theorem Sound.fits_pendingWrites {inner : FPath κ → Prop}
    {tree : FWriteTree κ α} (hsound : tree.Sound inner) :
    ∀ write ∈ tree.pendingWrites, Fits inner write := by
  intro write hwrite
  obtain ⟨record, hrecord, hmem⟩ := List.mem_flatMap.mp hwrite
  exact hsound.fits record hrecord write hmem

theorem sound_init (inner : FPath κ → Prop) :
    (init : FWriteTree κ α).Sound inner where
  visible := by simp [init]
  shallow := by simp [init]
  fits := by simp [init]
  ascending := by simp [init]
  last := by simp [init]
  respects := FCompoundWrite.respects_emptyWrite inner
  reading := fun place => FCompoundWrite.reading_emptyWrite place

/-! ## Adding a write -/

/-- A record joins the others, and its writes join the visible ones. -/
theorem Sound.append {inner : FPath κ → Prop} {tree next : FWriteTree κ α}
    (hsound : tree.Sound inner) (record : FWriteRecord κ α)
    (hid : tree.lastWriteId < record.writeId) (hvisible : record.visible)
    (hshallow : record.Shallow)
    (hfits : ∀ write ∈ record.writes, Fits inner write)
    (hwrites : next.allWrites = tree.allWrites ++ [record])
    (hlast : next.lastWriteId = record.writeId)
    (hvisibleWrites : next.visibleWrites =
      record.writes.foldl
        (fun newWrite write => newWrite.addWrite write.2 write.1)
        tree.visibleWrites) : next.Sound inner := by
  have hadded := FCompoundWrite.foldl_addWrite hsound.respects hfits
  rw [← hvisibleWrites] at hadded
  have hcases : ∀ other ∈ next.allWrites,
      other ∈ tree.allWrites ∨ other = record := by
    intro other hother
    simpa [hwrites] using hother
  constructor
  · intro other hother
    rcases hcases other hother with hold | rfl
    · exact hsound.visible other hold
    · exact hvisible
  · intro other hother
    rcases hcases other hother with hold | rfl
    · exact hsound.shallow other hold
    · exact hshallow
  · intro other hother
    rcases hcases other hother with hold | rfl
    · exact hsound.fits other hold
    · exact hfits
  · rw [hwrites, List.map_append, List.pairwise_append]
    have hbefore : ∀ first ∈ tree.allWrites.map FWriteRecord.writeId,
        ∀ second ∈ [record].map FWriteRecord.writeId, first < second := by
      intro first hfirst second hsecond
      obtain ⟨other, hother, rfl⟩ := List.mem_map.mp hfirst
      have hle := hsound.last other hother
      have heq : second = record.writeId := by simpa using hsecond
      omega
    exact ⟨hsound.ascending, by simp, hbefore⟩
  · intro other hother
    rcases hcases other hother with hold | rfl
    · have hle := hsound.last other hold
      omega
    · exact hlast.ge
  · exact hadded.1
  · intro place
    rw [hadded.2 place, hsound.reading, pendingWrites, pendingWrites, hwrites,
      List.flatMap_append, List.flatMap_singleton, lastWrite_append]

theorem Sound.addOverwriteAtPath {inner : FPath κ → Prop}
    {tree : FWriteTree κ α} (hsound : tree.Sound inner) {path : FPath κ}
    {newData : FNode κ α} {writeId : ℤ} (hid : tree.lastWriteId < writeId)
    (hfits : Fits inner (path, newData)) :
    (tree.addOverwriteAtPath path newData writeId true).Sound inner := by
  apply hsound.append ⟨writeId, path, .overwrite newData, true⟩ hid
  · rfl
  · intro children hdata
    contradiction
  · intro write hwrite
    rw [List.mem_singleton.mp hwrite]
    exact hfits
  · rfl
  · rfl
  · rfl

theorem Sound.addMergeAtPath {inner : FPath κ → Prop} {tree : FWriteTree κ α}
    (hsound : tree.Sound inner) {path : FPath κ}
    {changedChildren : FCompoundWrite κ α} {writeId : ℤ}
    (hid : tree.lastWriteId < writeId)
    (hshallow : ∀ write ∈ changedChildren.enumerateWrites,
      ∃ key, write.1 = [key])
    (hfits : ∀ write ∈ changedChildren.writesAt path, Fits inner write) :
    (tree.addMergeAtPath path changedChildren writeId).Sound inner := by
  apply hsound.append ⟨writeId, path, .merge changedChildren, true⟩ hid
  · rfl
  · intro children hdata
    cases hdata
    exact hshallow
  · exact hfits
  · rfl
  · rfl
  · exact FCompoundWrite.addCompoundWrite_eq_foldl _ _ _

/-! ## Removing a write -/

/-- Whether the loop finds the removed write shadowed by this one. -/
def Shadows (writeToRemove : FWriteRecord κ α) (index : ℕ)
    (current : FWriteRecord κ α × ℕ) : Prop :=
  current.1.visible ∧ index ≤ current.2 ∧
    current.1.containsPath writeToRemove.path

theorem overlapLoop_of_shadowed {writeToRemove : FWriteRecord κ α}
    {index : ℕ} {others : List (FWriteRecord κ α × ℕ)} {flags : Bool × Bool}
    (hshadowed : ∃ current ∈ others, Shadows writeToRemove index current) :
    (others.foldr (overlapStep writeToRemove index) flags).1 = false := by
  induction others with
  | nil => simp at hshadowed
  | cons current others ih =>
      rw [List.foldr_cons]
      generalize hflags :
        others.foldr (overlapStep writeToRemove index) flags = after at ih ⊢
      unfold overlapStep
      rcases hshadowed with ⟨found, hfound, hshadows⟩
      rcases List.mem_cons.mp hfound with rfl | hrest
      · obtain ⟨hvisible, hle, hcontains⟩ := hshadows
        cases after with
        | mk wasVisible overlaps =>
            cases wasVisible <;> simp [hvisible, hle, hcontains]
      · have hfalse := ih ⟨found, hrest, hshadows⟩
        simp [hfalse]

theorem overlapLoop_of_not_shadowed {writeToRemove : FWriteRecord κ α}
    {index : ℕ} {others : List (FWriteRecord κ α × ℕ)}
    (hshadowed : ¬ ∃ current ∈ others, Shadows writeToRemove index current)
    (hvisible : ∀ current ∈ others, current.1.visible) (overlaps : Bool) :
    others.foldr (overlapStep writeToRemove index) (true, overlaps) =
      (true, overlaps || others.any fun current =>
        writeToRemove.path.contains current.1.path) := by
  induction others with
  | nil => simp
  | cons current others ih =>
      have hthis : current.1.visible := hvisible current List.mem_cons_self
      have hnot : ¬ (index ≤ current.2 ∧
          current.1.containsPath writeToRemove.path) := by
        intro hboth
        exact hshadowed ⟨current, List.mem_cons_self, hthis, hboth⟩
      have hrest : ¬ ∃ found ∈ others, Shadows writeToRemove index found := by
        rintro ⟨found, hfound, hshadows⟩
        exact hshadowed
          ⟨found, List.mem_cons_of_mem current hfound, hshadows⟩
      rw [List.foldr_cons, ih hrest
        (fun other hother => hvisible other (List.mem_cons_of_mem _ hother)),
        overlapStep, if_pos ⟨rfl, hthis⟩, if_neg hnot, List.any_cons]
      cases hcontains : writeToRemove.path.contains current.1.path <;>
        cases overlaps <;> simp

theorem any_zipIdx_iff (writeToRemove : FWriteRecord κ α)
    (others : List (FWriteRecord κ α)) :
    (others.zipIdx.any fun current =>
        writeToRemove.path.contains current.1.path) ↔
      ∃ other ∈ others, writeToRemove.path <+: other.path := by
  rw [List.any_eq_true]
  constructor
  · rintro ⟨current, hcurrent, hcontains⟩
    exact ⟨current.1, List.fst_mem_of_mem_zipIdx hcurrent,
      contains_iff.mp hcontains⟩
  · rintro ⟨other, hother, hbegins⟩
    obtain ⟨index, hindex⟩ := List.mem_iff_getElem?.mp hother
    exact ⟨(other, index), List.mem_zipIdx_iff_getElem?.mpr hindex,
      contains_iff.mpr hbegins⟩

theorem exists_shadows_iff {writeToRemove : FWriteRecord κ α}
    {before after : List (FWriteRecord κ α)}
    (hvisible : ∀ record ∈ after, record.visible) :
    (∃ current ∈ (before ++ after).zipIdx,
        Shadows writeToRemove before.length current) ↔
      ∃ other ∈ after, other.containsPath writeToRemove.path := by
  constructor
  · rintro ⟨⟨other, index⟩, hmem, -, hle, hcontains⟩
    rw [List.mem_zipIdx_iff_getElem?,
      List.getElem?_append_right hle] at hmem
    exact ⟨other, List.mem_of_getElem? hmem, hcontains⟩
  · rintro ⟨other, hother, hcontains⟩
    obtain ⟨index, hindex⟩ := List.mem_iff_getElem?.mp hother
    have hle : before.length ≤ before.length + index := Nat.le_add_right _ _
    have hmem : (other, before.length + index) ∈ (before ++ after).zipIdx := by
      rw [List.mem_zipIdx_iff_getElem?, List.getElem?_append_right hle,
        Nat.add_sub_cancel_left]
      exact hindex
    exact ⟨_, hmem, hvisible other hother, hle, hcontains⟩

omit [PlainName κ] in
theorem findIdx?_of_split {before after : List (FWriteRecord κ α)}
    {record : FWriteRecord κ α}
    (hascending : ((before ++ record :: after).map
      FWriteRecord.writeId).Pairwise (· < ·)) :
    (before ++ record :: after).findIdx?
        (fun other => other.writeId == record.writeId) =
      some before.length := by
  induction before with
  | nil => simp [List.findIdx?_cons]
  | cons first before ih =>
      rw [List.cons_append, List.map_cons, List.pairwise_cons] at hascending
      have hlt := hascending.1 record.writeId (by simp)
      rw [List.cons_append, List.findIdx?_cons, ih hascending.2]
      simp [hlt.ne]

/-- The three outcomes of a removal. -/
theorem removeWriteId_eq {tree : FWriteTree κ α}
    {before after : List (FWriteRecord κ α)} {record : FWriteRecord κ α}
    (hsplit : tree.allWrites = before ++ record :: after)
    (hascending : (tree.allWrites.map FWriteRecord.writeId).Pairwise (· < ·)) :
    tree.removeWriteId record.writeId =
      let remaining := { tree with allWrites := before ++ after }
      let flags := overlapLoop record before.length (before ++ after)
      if ¬ flags.1 then some (false, remaining)
      else if flags.2 then some (true, remaining.resetTree)
      else
        some (true,
          { remaining with
            visibleWrites := forgetRecord tree.visibleWrites record }) := by
  rw [hsplit] at hascending
  unfold removeWriteId
  rw [hsplit, findIdx?_of_split hascending]
  simp only [List.getElem?_append_right (Nat.le_refl _), Nat.sub_self,
    List.getElem?_cons_zero]
  rw [List.eraseIdx_append_of_length_le (Nat.le_refl _)]
  simp

/-- What is left is sound again as soon as the visible writes read as the
remaining ones. -/
theorem Sound.remaining {inner : FPath κ → Prop} {tree next : FWriteTree κ α}
    (hsound : tree.Sound inner) {before after : List (FWriteRecord κ α)}
    {record : FWriteRecord κ α}
    (hsplit : tree.allWrites = before ++ record :: after)
    (hwrites : next.allWrites = before ++ after)
    (hlast : ∀ other ∈ next.allWrites, other.writeId ≤ next.lastWriteId)
    (hrespects : next.visibleWrites.Respects inner)
    (hreading : ∀ place, next.visibleWrites.reading place =
      lastWrite (covers place) next.pendingWrites) : next.Sound inner := by
  have hsublist : next.allWrites.Sublist tree.allWrites := by
    rw [hwrites, hsplit]
    exact List.Sublist.append_left (List.sublist_cons_self record after) before
  have hmem : ∀ other ∈ next.allWrites, other ∈ tree.allWrites :=
    fun other hother => hsublist.subset hother
  exact {
    visible := fun other hother => hsound.visible other (hmem other hother)
    shallow := fun other hother => hsound.shallow other (hmem other hother)
    fits := fun other hother => hsound.fits other (hmem other hother)
    ascending := hsound.ascending.sublist
      (hsublist.map FWriteRecord.writeId)
    last := hlast
    respects := hrespects
    reading := hreading }

/-! ### A shadowed write -/

theorem pendingWrites_split {tree : FWriteTree κ α}
    {before after : List (FWriteRecord κ α)} {record : FWriteRecord κ α}
    (hsplit : tree.allWrites = before ++ record :: after) (place : FPath κ) :
    lastWrite (covers place) tree.pendingWrites =
      (lastWrite (covers place) (after.flatMap FWriteRecord.writes)).or
        ((lastWrite (covers place) record.writes).or
          (lastWrite (covers place)
            (before.flatMap FWriteRecord.writes))) := by
  rw [pendingWrites, hsplit, List.flatMap_append, List.flatMap_cons,
    lastWrite_append, lastWrite_append, Option.or_assoc]

theorem lastWrite_remaining {before after : List (FWriteRecord κ α)}
    (place : FPath κ) :
    lastWrite (covers place)
        ((before ++ after).flatMap FWriteRecord.writes) =
      (lastWrite (covers place) (after.flatMap FWriteRecord.writes)).or
        (lastWrite (covers place)
          (before.flatMap FWriteRecord.writes)) := by
  rw [List.flatMap_append, lastWrite_append]

/-- Where a later write contains the whole path of a record, the record does
not show. -/
theorem lastWrite_of_shadowed {record other : FWriteRecord κ α}
    {after : List (FWriteRecord κ α)} (hother : other ∈ after)
    (hcontains : other.containsPath record.path) {place : FPath κ}
    (hcovered : (lastWrite (covers place) record.writes).isSome) :
    (lastWrite (covers place)
      (after.flatMap FWriteRecord.writes)).isSome := by
  obtain ⟨write, hwrite, hbegins⟩ :=
    (other.containsPath_iff record.path).mp hcontains
  have hplace : record.path <+: place := by
    by_contra hnot
    rw [Option.isSome_iff_ne_none] at hcovered
    apply hcovered
    rw [lastWrite_eq_none_iff]
    intro inside hinside
    rw [covers, Option.map_eq_none_iff, relativePathFrom_eq_none_iff]
    intro hcovers
    exact hnot ((FWriteRecord.path_prefix_of_mem_writes hinside).trans hcovers)
  obtain ⟨rest, hrest⟩ := hbegins.trans hplace
  apply lastWrite_isSome (List.mem_flatMap.mpr ⟨other, hother, hwrite⟩)
  rw [covers, ← hrest, relativePathFrom_append]
  rfl

/-! ### A write apart from the others -/

/-- No write of the one record covers, or is covered by, a write of the
other. -/
def ApartFrom (record other : FWriteRecord κ α) : Prop :=
  ∀ write ∈ record.writes, ∀ second ∈ other.writes,
    ¬ second.1 <+: write.1 ∧ ¬ write.1 <+: second.1

omit [PlainName κ] in
/-- A record whose path is not within the other one's is apart from it, once
none of its writes is covered. -/
theorem apartFrom_of_not_covered {record other : FWriteRecord κ α}
    (hother : other.Shallow) (hpath : ¬ record.path <+: other.path)
    (hcovered : ∀ write ∈ record.writes, ∀ second ∈ other.writes,
      ¬ second.1 <+: write.1) : ApartFrom record other := by
  intro write hwrite second hsecond
  have hnot := hcovered write hwrite second hsecond
  have hrecord := FWriteRecord.path_prefix_of_mem_writes hwrite
  constructor
  · exact hnot
  · intro hcovers
    rcases hother.writes_path with hsame | hchild
    · rw [hsame second hsecond] at hcovers
      exact hpath (hrecord.trans hcovers)
    · obtain ⟨key, hkey⟩ := hchild second hsecond
      rw [hkey] at hcovers hnot
      rcases List.prefix_concat_iff.mp hcovers with heq | habove
      · exact hnot (by rw [heq])
      · exact hpath (hrecord.trans habove)

/-- A later record which does not contain the path of a record covers none of
its writes, unless the loop notices it. -/
theorem not_covered_of_not_contains {record other : FWriteRecord κ α}
    (hrecord : record.Shallow) (hother : other.Shallow)
    (hpath : ¬ record.path <+: other.path)
    (hcontains : ¬ other.containsPath record.path) :
    ∀ write ∈ record.writes, ∀ second ∈ other.writes,
      ¬ second.1 <+: write.1 := by
  intro write hwrite second hsecond hcovers
  have hnot : ¬ second.1 <+: record.path := fun hbegins =>
    hcontains ((other.containsPath_iff record.path).mpr
      ⟨second, hsecond, hbegins⟩)
  rcases hrecord.writes_path with hsame | hchild
  · rw [hsame write hwrite] at hcovers
    exact hnot hcovers
  · obtain ⟨key, hkey⟩ := hchild write hwrite
    rw [hkey] at hcovers
    rcases List.prefix_concat_iff.mp hcovers with heq | habove
    · -- both write the same key: then the parents are the same
      rcases hother.writes_path with hsameOther | hchildOther
      · rw [hsameOther second hsecond] at heq
        exact hpath (by rw [heq]; exact List.prefix_append _ _)
      · obtain ⟨otherKey, hotherKey⟩ := hchildOther second hsecond
        rw [hotherKey] at heq
        have hparents := (List.append_inj' heq rfl).1
        exact hpath (by rw [hparents])
    · exact hnot habove

theorem forgetRecord_eq_foldl (visibleWrites : FCompoundWrite κ α)
    (record : FWriteRecord κ α) :
    forgetRecord visibleWrites record =
      (record.writes.map Prod.fst).foldl FCompoundWrite.removeWriteAtPath
        visibleWrites := by
  unfold forgetRecord FWriteRecord.writes
  cases record.data with
  | overwrite node => simp
  | merge children =>
      simp [FCompoundWrite.writesAt, List.foldl_map, List.map_map]

theorem openAbove_iff_reading {visibleWrites : FCompoundWrite κ α}
    {path : FPath κ} :
    visibleWrites.writeTree.OpenAbove path ↔
      ∀ above, Above above path → visibleWrites.reading above = none := by
  unfold FImmutableTree.OpenAbove FCompoundWrite.reading FImmutableTree.reading
  simp

theorem foldl_removeWriteAtPath {inner : FPath κ → Prop}
    {visibleWrites : FCompoundWrite κ α} (hrespects : visibleWrites.Respects inner)
    {paths : List (FPath κ)}
    (hopen : ∀ path ∈ paths, visibleWrites.writeTree.OpenAbove path) :
    (paths.foldl FCompoundWrite.removeWriteAtPath visibleWrites).Respects
        inner ∧
      ∀ place,
        (paths.foldl FCompoundWrite.removeWriteAtPath visibleWrites).reading
            place =
          if ∃ path ∈ paths, path <+: place then none
          else visibleWrites.reading place := by
  induction paths generalizing visibleWrites with
  | nil => exact ⟨hrespects, fun place => by simp⟩
  | cons path paths ih =>
      have hthis := hopen path List.mem_cons_self
      have hread := FCompoundWrite.reading_removeWriteAtPath hthis
      have hstill : ∀ other ∈ paths,
          (visibleWrites.removeWriteAtPath path).writeTree.OpenAbove other := by
        intro other hother
        have hbefore := openAbove_iff_reading.mp
          (hopen other (List.mem_cons_of_mem path hother))
        rw [openAbove_iff_reading]
        intro above habove
        rw [hread, hbefore above habove]
        simp
      have hrest := ih (hrespects.removeWriteAtPath hthis) hstill
      constructor
      · exact hrest.1
      · intro place
        rw [List.foldl_cons, hrest.2 place, hread]
        have hbegins : (relativePathFrom path place).isSome = true ↔
            path <+: place := by
          rw [Option.isSome_iff_ne_none, ne_eq, relativePathFrom_eq_none_iff,
            not_not]
        by_cases hcovers : path <+: place
        · simp [hbegins.mpr hcovers, hcovers]
        · have hnone : (relativePathFrom path place).isSome = false := by
            simpa using mt hbegins.mp hcovers
          simp [hnone, hcovers]

/-- Nothing pending stands strictly above a write which is apart from all
others. -/
theorem Sound.openAbove_of_apart {inner : FPath κ → Prop}
    {tree : FWriteTree κ α} (hsound : tree.Sound inner)
    {before after : List (FWriteRecord κ α)} {record : FWriteRecord κ α}
    (hsplit : tree.allWrites = before ++ record :: after)
    (hapart : ∀ other ∈ before ++ after, ApartFrom record other)
    {write : PathWrite κ α} (hwrite : write ∈ record.writes) :
    tree.visibleWrites.writeTree.OpenAbove write.1 := by
  have hshallow := hsound.shallow record (by rw [hsplit]; simp)
  rw [openAbove_iff_reading]
  intro above habove
  rw [hsound.reading, lastWrite_eq_none_iff]
  intro second hsecond
  rw [covers, Option.map_eq_none_iff, relativePathFrom_eq_none_iff]
  intro hcovers
  obtain ⟨key, rest, hpath⟩ := habove
  have hlonger : above.length < write.1.length := by
    rw [hpath]
    simp
  have hbegins : second.1 <+: write.1 := hcovers.trans ⟨key :: rest, hpath.symm⟩
  obtain ⟨other, hother, hmem⟩ := List.mem_flatMap.mp hsecond
  rw [hsplit] at hother
  rcases List.mem_append.mp hother with hearlier | hlater
  · exact (hapart other (List.mem_append_left _ hearlier) write hwrite second
      hmem).1 hbegins
  · rcases List.mem_cons.mp hlater with rfl | hafter
    · -- the writes of one record have the same length
      have hle := hcovers.length_le
      rcases hshallow.writes_path with hsame | hchild
      · rw [hsame second hmem] at hle
        rw [hsame write hwrite] at hlonger
        omega
      · obtain ⟨firstKey, hfirst⟩ := hchild write hwrite
        obtain ⟨secondKey, hsecondKey⟩ := hchild second hmem
        rw [hsecondKey, List.length_append] at hle
        rw [hfirst, List.length_append] at hlonger
        simp at hle hlonger
        omega
    · exact (hapart other (List.mem_append_right _ hafter) write hwrite second
        hmem).1 hbegins

/-- A write apart from the others is taken out of the visible writes. -/
theorem Sound.forgetRecord {inner : FPath κ → Prop} {tree : FWriteTree κ α}
    (hsound : tree.Sound inner) {before after : List (FWriteRecord κ α)}
    {record : FWriteRecord κ α}
    (hsplit : tree.allWrites = before ++ record :: after)
    (hapart : ∀ other ∈ before ++ after, ApartFrom record other) :
    (forgetRecord tree.visibleWrites record).Respects inner ∧
      ∀ place, (forgetRecord tree.visibleWrites record).reading place =
        lastWrite (covers place)
          ((before ++ after).flatMap FWriteRecord.writes) := by
  rw [forgetRecord_eq_foldl]
  have hopen : ∀ path ∈ record.writes.map Prod.fst,
      tree.visibleWrites.writeTree.OpenAbove path := by
    intro path hpath
    obtain ⟨write, hwrite, rfl⟩ := List.mem_map.mp hpath
    exact hsound.openAbove_of_apart hsplit hapart hwrite
  have hremoved := foldl_removeWriteAtPath hsound.respects hopen
  constructor
  · exact hremoved.1
  · intro place
    rw [hremoved.2 place]
    split
    next hcovered =>
      -- the record was the only one to cover this place
      obtain ⟨path, hpath, hplace⟩ := hcovered
      obtain ⟨write, hwrite, rfl⟩ := List.mem_map.mp hpath
      symm
      rw [lastWrite_eq_none_iff]
      intro second hsecond
      obtain ⟨other, hother, hmem⟩ := List.mem_flatMap.mp hsecond
      have hnot := hapart other hother write hwrite second hmem
      rw [covers, Option.map_eq_none_iff, relativePathFrom_eq_none_iff]
      intro hcovers
      rcases List.prefix_or_prefix_of_prefix hcovers hplace with hbefore | hafter
      · exact hnot.1 hbefore
      · exact hnot.2 hafter
    next hcovered =>
      have hnone : lastWrite (covers place) record.writes = none := by
        rw [lastWrite_eq_none_iff]
        intro write hwrite
        rw [covers, Option.map_eq_none_iff, relativePathFrom_eq_none_iff]
        intro hcovers
        exact hcovered ⟨write.1, List.mem_map_of_mem hwrite, hcovers⟩
      rw [hsound.reading, pendingWrites_split hsplit, lastWrite_remaining,
        hnone, Option.none_or]

/-! ### Every removal -/

theorem resetTree_spec (inner : FPath κ → Prop) (tree : FWriteTree κ α)
    (hshallow : ∀ record ∈ tree.allWrites, record.Shallow)
    (hfits : ∀ record ∈ tree.allWrites, ∀ write ∈ record.writes,
      Fits inner write) :
    tree.resetTree.visibleWrites.Respects inner ∧
      ∀ place, tree.resetTree.visibleWrites.reading place =
        lastWrite (covers place) tree.pendingWrites := by
  have hfar : ∀ record : FWriteRecord κ α, NotFarAbove [] record := by
    intro record children hdata rest hrest
    have hnil := (List.append_eq_nil_iff.mp hrest.symm).2
    simp [hnil]
  have hlayers := layerRecords_spec inner []
    (fun record hrecord =>
      ⟨hshallow record hrecord, hfar record, hfits record hrecord⟩)
    (FCompoundWrite.respects_emptyWrite _)
  have hreset : tree.resetTree.visibleWrites =
      tree.allWrites.foldl (layerRecord []) .emptyWrite := by
    have hall : tree.allWrites.filter defaultFilter = tree.allWrites :=
      List.filter_eq_self.mpr fun record _ => rfl
    simp [resetTree, layerTreeFromWrites, hall]
  rw [hreset]
  constructor
  · exact hlayers.1
  · intro place
    rw [hlayers.2 place]
    simp [pendingWrites]

theorem resetTree_last (tree : FWriteTree κ α)
    (hascending : (tree.allWrites.map FWriteRecord.writeId).Pairwise (· < ·)) :
    ∀ record ∈ tree.allWrites,
      record.writeId ≤ tree.resetTree.lastWriteId := by
  intro record hrecord
  rcases List.eq_nil_or_concat tree.allWrites with hnil | ⟨init, final, hall⟩
  · rw [hnil] at hrecord
    contradiction
  · have hlast : tree.resetTree.lastWriteId = final.writeId := by
      simp [resetTree, hall]
    rw [hlast]
    rw [hall, List.concat_eq_append] at hrecord hascending
    rw [List.map_append, List.pairwise_append] at hascending
    rcases List.mem_append.mp hrecord with hinit | hfinal
    · exact (hascending.2.2 _ (List.mem_map_of_mem hinit) _ (by simp)).le
    · rw [List.mem_singleton.mp hfinal]

/-- The removal of a write which no older pending write covers leaves the
other writes visible, each as it was. -/
theorem Sound.removeWriteId {inner : FPath κ → Prop}
    {tree next : FWriteTree κ α} (hsound : tree.Sound inner)
    {before after : List (FWriteRecord κ α)} {record : FWriteRecord κ α}
    (hsplit : tree.allWrites = before ++ record :: after)
    (hbefore : ∀ earlier ∈ before, ∀ write ∈ record.writes,
      ¬ earlier.containsPath write.1) {reevaluate : Bool}
    (hremove : tree.removeWriteId record.writeId = some (reevaluate, next)) :
    next.Sound inner ∧ next.allWrites = before ++ after := by
  have hmem : ∀ other ∈ before ++ after, other ∈ tree.allWrites := by
    intro other hother
    rw [hsplit]
    rcases List.mem_append.mp hother with hearlier | hlater
    · exact List.mem_append_left _ hearlier
    · exact List.mem_append_right _ (List.mem_cons_of_mem record hlater)
  have hvisible := hsound.visible record (by rw [hsplit]; simp)
  rw [removeWriteId_eq hsplit hsound.ascending] at hremove
  dsimp only at hremove
  by_cases hshadowed : ∃ other ∈ after, other.containsPath record.path
  · -- the record is shadowed: the visible writes stay as they are
    have hflag : (overlapLoop record before.length (before ++ after)).1 =
        false :=
      overlapLoop_of_shadowed ((exists_shadows_iff fun other hother =>
        hsound.visible other (hmem other
          (List.mem_append_right before hother))).mpr hshadowed)
    rw [hflag, if_pos (by simp)] at hremove
    cases hremove
    have hreading : ∀ place, tree.visibleWrites.reading place =
        lastWrite (covers place)
          ((before ++ after).flatMap FWriteRecord.writes) := by
      intro place
      obtain ⟨other, hother, hcontains⟩ := hshadowed
      rw [hsound.reading, pendingWrites_split hsplit, lastWrite_remaining]
      cases hcovered : lastWrite (covers place) record.writes with
      | none => simp
      | some value =>
          have hcovers : (lastWrite (covers place) record.writes).isSome := by
            rw [hcovered]
            rfl
          have hsome := lastWrite_of_shadowed hother hcontains hcovers
          obtain ⟨shown, hshown⟩ := Option.isSome_iff_exists.mp hsome
          rw [hshown]
          rfl
    exact ⟨hsound.remaining hsplit rfl
      (fun other hother => hsound.last other (hmem other hother))
      hsound.respects hreading, rfl⟩
  · have hnotShadowed : ¬ ∃ current ∈ (before ++ after).zipIdx,
        Shadows record before.length current := by
      rw [exists_shadows_iff fun other hother => hsound.visible other
        (hmem other (List.mem_append_right before hother))]
      exact hshadowed
    have hloop : overlapLoop record before.length (before ++ after) =
        (true, (before ++ after).zipIdx.any fun current =>
          record.path.contains current.1.path) := by
      unfold overlapLoop
      rw [hvisible, overlapLoop_of_not_shadowed hnotShadowed
        (fun current hcurrent => hsound.visible current.1 (hmem current.1
          (List.fst_mem_of_mem_zipIdx hcurrent)))]
      simp
    rw [hloop, if_neg (by simp)] at hremove
    by_cases hoverlaps : ∃ other ∈ before ++ after,
        record.path <+: other.path
    · -- the visible writes are layered from scratch
      rw [if_pos (by simpa using (any_zipIdx_iff record _).mpr hoverlaps)]
        at hremove
      cases hremove
      have hreset := resetTree_spec inner
        { tree with allWrites := before ++ after }
        (fun other hother => hsound.shallow other (hmem other hother))
        (fun other hother => hsound.fits other (hmem other hother))
      have hlast := resetTree_last
        { tree with allWrites := before ++ after }
        (hsound.ascending.sublist (by
          rw [hsplit]
          exact (List.Sublist.append_left
            (List.sublist_cons_self record after) before).map _))
      exact ⟨hsound.remaining hsplit rfl hlast hreset.1 hreset.2, rfl⟩
    · -- the record is apart from all others
      rw [if_neg (by
        simpa using mt (any_zipIdx_iff record _).mp hoverlaps)] at hremove
      cases hremove
      have hapart : ∀ other ∈ before ++ after, ApartFrom record other := by
        intro other hother
        have hpath : ¬ record.path <+: other.path := fun hbegins =>
          hoverlaps ⟨other, hother, hbegins⟩
        have hshallow := hsound.shallow other (hmem other hother)
        apply apartFrom_of_not_covered hshallow hpath
        rcases List.mem_append.mp hother with hearlier | hlater
        · intro write hwrite second hsecond hcovers
          exact hbefore other hearlier write hwrite
            ((other.containsPath_iff write.1).mpr ⟨second, hsecond, hcovers⟩)
        · exact not_covered_of_not_contains
            (hsound.shallow record (by rw [hsplit]; simp)) hshallow hpath
            fun hcontains => hshadowed ⟨other, hlater, hcontains⟩
      have hforgotten := hsound.forgetRecord hsplit hapart
      exact ⟨hsound.remaining hsplit rfl
        (fun other hother => hsound.last other (hmem other hother))
        hforgotten.1 hforgotten.2, rfl⟩

/-! ## Every run -/

/-- The trees which runs reach.  A write is added with an identifier higher
than the last one, as the assertions of the source demand; it is removed
when it is answered, where no older pending write covers what it wrote. -/
inductive Reachable (inner : FPath κ → Prop) : FWriteTree κ α → Prop where
  | init : Reachable inner .init
  | overwrite {tree : FWriteTree κ α} (htree : Reachable inner tree)
      {path : FPath κ} {newData : FNode κ α} {writeId : ℤ}
      (hid : tree.lastWriteId < writeId)
      (hfits : Fits inner (path, newData)) :
      Reachable inner (tree.addOverwriteAtPath path newData writeId true)
  | merge {tree : FWriteTree κ α} (htree : Reachable inner tree)
      {path : FPath κ} {changedChildren : FCompoundWrite κ α} {writeId : ℤ}
      (hid : tree.lastWriteId < writeId)
      (hshallow : ∀ write ∈ changedChildren.enumerateWrites,
        ∃ key, write.1 = [key])
      (hfits : ∀ write ∈ changedChildren.writesAt path, Fits inner write) :
      Reachable inner (tree.addMergeAtPath path changedChildren writeId)
  | answered {tree next : FWriteTree κ α} (htree : Reachable inner tree)
      {before after : List (FWriteRecord κ α)} {record : FWriteRecord κ α}
      (hsplit : tree.allWrites = before ++ record :: after)
      (hbefore : ∀ earlier ∈ before, ∀ write ∈ record.writes,
        ¬ earlier.containsPath write.1) {reevaluate : Bool}
      (hremove : tree.removeWriteId record.writeId =
        some (reevaluate, next)) : Reachable inner next

theorem Reachable.sound {inner : FPath κ → Prop} {tree : FWriteTree κ α}
    (htree : Reachable inner tree) : tree.Sound inner := by
  induction htree with
  | init => exact sound_init inner
  | overwrite _ hid hfits ih => exact ih.addOverwriteAtPath hid hfits
  | merge _ hid hshallow hfits ih => exact ih.addMergeAtPath hid hshallow hfits
  | answered _ hsplit hbefore hremove ih =>
      exact (ih.removeWriteId hsplit hbefore hremove).1

/-- The data of the server with the pending writes made on it. -/
def shownData (tree : FWriteTree κ α) (server : FNode κ α) : FNode κ α :=
  tree.pendingWrites.foldl applyWrite server

theorem Sound.valueAt_shownData {inner : FPath κ → Prop}
    {tree : FWriteTree κ α} (hsound : tree.Sound inner) {server : FNode κ α}
    (hserver : server.Respects inner) (place : FPath κ) :
    (tree.shownData server).valueAt place =
      (tree.visibleWrites.reading place).getD (server.valueAt place) := by
  rw [hsound.reading]
  exact valueAt_foldl_applyWrite hsound.fits_pendingWrites hserver place

theorem respects_getChild {inner : FPath κ → Prop} {server : FNode κ α}
    (hserver : server.Respects inner) (treePath : FPath κ) :
    (server.getChild treePath).Respects
      fun place => inner (treePath ++ place) := by
  intro place hplace
  rw [FNode.valueAt_getChild]
  exact hserver _ hplace

/-- The part of a compound write below a path, laid over the data which the
server has there. -/
theorem valueAt_applyToNode_child {inner : FPath κ → Prop}
    {visibleWrites : FCompoundWrite κ α}
    (hrespects : visibleWrites.Respects inner) {server : FNode κ α}
    (hserver : server.Respects inner) (treePath place : FPath κ) :
    ((visibleWrites.childCompoundWriteAtPath treePath).applyToNode
        (server.getChild treePath)).valueAt place =
      (visibleWrites.reading (treePath ++ place)).getD
        (server.valueAt (treePath ++ place)) := by
  rw [FCompoundWrite.valueAt_applyToNode
    (hrespects.childCompoundWriteAtPath treePath)
    (respects_getChild hserver treePath),
    FCompoundWrite.reading_childCompoundWriteAtPath, FNode.valueAt_getChild]

/-- A snapshot over known data has the values which the visible writes give,
and the values of the server elsewhere. -/
theorem eventCache_reads {inner : FPath κ → Prop} {tree : FWriteTree κ α}
    (hrespects : tree.visibleWrites.Respects inner) {server : FNode κ α}
    (hserver : server.Respects inner) (treePath : FPath κ) :
    ∃ node,
      tree.calculateCompleteEventCacheAtPath treePath
          (some (server.getChild treePath)) none false = some node ∧
        ∀ place, node.valueAt place =
          (tree.visibleWrites.reading (treePath ++ place)).getD
            (server.valueAt (treePath ++ place)) := by
  unfold calculateCompleteEventCacheAtPath
  rw [if_pos (by simp)]
  cases hcomplete : tree.visibleWrites.completeNodeAtPath treePath with
  | some shadowingNode =>
      have hread := FCompoundWrite.reading_append_of_complete hcomplete
      exact ⟨shadowingNode, rfl, fun place => by rw [hread place]; rfl⟩
  | none =>
      dsimp only
      split
      next hempty =>
        have hread : ∀ place,
            tree.visibleWrites.reading (treePath ++ place) = none := by
          intro place
          rw [← FCompoundWrite.reading_childCompoundWriteAtPath]
          exact FCompoundWrite.reading_of_isEmpty hempty place
        exact ⟨server.getChild treePath, rfl, fun place => by
          rw [hread, FNode.valueAt_getChild]
          rfl⟩
      next =>
        rw [if_neg (by simp), Option.getD_some]
        exact ⟨_, rfl, valueAt_applyToNode_child hrespects hserver treePath⟩

/-- In every run, at every path, the data shown is the data of the server with
the pending writes made on it. -/
theorem eventCache_eq_shownData {inner : FPath κ → Prop}
    {tree : FWriteTree κ α} (htree : Reachable inner tree)
    {server : FNode κ α} (hserver : server.Respects inner)
    (treePath : FPath κ) :
    ∃ node,
      tree.calculateCompleteEventCacheAtPath treePath
          (some (server.getChild treePath)) none false = some node ∧
        ∀ place, node.valueAt place =
          (tree.shownData server).valueAt (treePath ++ place) := by
  have hsound := htree.sound
  simp only [hsound.valueAt_shownData hserver]
  exact eventCache_reads hsound.respects hserver treePath

section Overlapping

def keyA : PlainKey := ⟨[97], by decide, by decide⟩

def keyB : PlainKey := ⟨[98], by decide, by decide⟩

def keyC : PlainKey := ⟨[99], by decide, by decide⟩

/-- `{b: 1}` -/
def nodeB : FNode PlainKey ℕ :=
  FNode.emptyNode.updateChild [keyB] (.leafOf 1)

def updateBC : FCompoundWrite PlainKey ℕ :=
  .compoundWriteFromDictionary [([keyB], .leafOf 2), ([keyC], .leafOf 3)]

/-- A node at a key, an update of its children, and a leaf over one of them. -/
def overlapping : FWriteTree PlainKey ℕ :=
  ((init.addOverwriteAtPath [keyA] nodeB 0 true).addMergeAtPath [keyA] updateBC
    1).addOverwriteAtPath [keyA, keyC] (.leafOf 4) 2 true

/-- The same writes once the oldest one is answered. -/
def overlappingAnswered : FWriteTree PlainKey ℕ :=
  resetTree { overlapping with allWrites := overlapping.allWrites.tail }

def aboveA (place : FPath PlainKey) : Prop := place = [] ∨ place = [keyA]

theorem fits_nodeB : Fits aboveA ([keyA], nodeB) where
  above := by
    intro above hplace
    left
    simpa [above_cons_iff, above_nil] using hplace
  quiet := by rintro place (rfl | rfl) <;> rfl

theorem fits_leaf (key : PlainKey) (value : ℕ) :
    Fits aboveA ([keyA, key], .leafOf value) where
  above := by
    intro above hplace
    simpa [aboveA, above_cons_iff, above_nil] using hplace
  quiet := by rintro place (rfl | rfl) <;> simp [covers]

theorem reachable_overlapping : Reachable aboveA overlapping := by
  have hupdate : updateBC.enumerateWrites =
      [([keyC], .leafOf 3), ([keyB], .leafOf 2)] := rfl
  have hnode : Reachable aboveA (init.addOverwriteAtPath [keyA] nodeB 0 true) :=
    .overwrite .init (by decide) fits_nodeB
  have hmerge : Reachable aboveA
      ((init.addOverwriteAtPath [keyA] nodeB 0 true).addMergeAtPath [keyA]
        updateBC 1) := by
    apply Reachable.merge hnode (by decide)
    · rw [hupdate]
      simp
    · intro write hwrite
      rw [FCompoundWrite.writesAt, hupdate] at hwrite
      rcases List.mem_cons.mp hwrite with rfl | hrest
      · exact fits_leaf keyC 3
      · rw [List.mem_singleton.mp hrest]
        exact fits_leaf keyB 2
  exact .overwrite hmerge (by decide) (fits_leaf keyC 4)

theorem removeWriteId_overlapping :
    overlapping.removeWriteId 0 = some (true, overlappingAnswered) := rfl

theorem reachable_overlappingAnswered :
    Reachable aboveA overlappingAnswered := by
  have hsplit : overlapping.allWrites =
      [] ++ ⟨0, [keyA], .overwrite nodeB, true⟩ ::
        overlapping.allWrites.tail := rfl
  exact .answered reachable_overlapping hsplit (by simp)
    removeWriteId_overlapping

theorem respects_nodeB :
    (FNode.emptyNode.updateChild [keyA] nodeB).Respects aboveA := by
  rintro place (rfl | rfl) <;> rfl

end Overlapping

theorem eventCache_eq_shownData_overlapping :
    ∃ node,
      overlappingAnswered.calculateCompleteEventCacheAtPath [keyA]
          (some ((FNode.emptyNode.updateChild [keyA] nodeB).getChild [keyA]))
          none false = some node ∧
        ∀ place, node.valueAt place =
          (overlappingAnswered.shownData
            (FNode.emptyNode.updateChild [keyA] nodeB)).valueAt
              ([keyA] ++ place) :=
  eventCache_eq_shownData reachable_overlappingAnswered respects_nodeB [keyA]

/-! ## An answer changes nothing -/

end FWriteTree

end FirebaseDatabase
