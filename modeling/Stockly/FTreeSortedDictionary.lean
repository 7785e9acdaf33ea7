import Stockly.FLLRBRemove

/-!
# The tree dictionary

The dictionary which keeps its entries in a balanced tree.  An insertion and a
removal blacken the root, so the tree passes its own check in every dictionary
reached from the empty one, and it holds the entries of a sorted list.
-/

universe u v

namespace FirebaseDatabase

variable {κ : Type u} {β : Type v}

structure FTreeSortedDictionary (κ : Type u) (β : Type v) where
  root : FLLRBNode κ β
deriving DecidableEq, Repr

namespace FLLRBNode

/-- The loop of `get:`. -/
def get (comparator : κ → κ → Ordering) (key : κ) : FLLRBNode κ β → Option β
  | emptyNode => none
  | valueNode nodeKey value _ left right =>
      match comparator key nodeKey with
      | .eq => some value
      | .lt => left.get comparator key
      | .gt => right.get comparator key

/-- The exceptions of the tree and of the array. -/
inductive PredecessorFailure where
  | nonexistentKey
  | internalInconsistency
deriving DecidableEq, Repr

/-- The loop of `getPredecessorKey:`, where `rightParent` is the last node from
which it went to the right. -/
def getPredecessorKey (comparator : κ → κ → Ordering) (key : κ)
    (rightParent : Option κ) :
    FLLRBNode κ β → Except PredecessorFailure (Option κ)
  | emptyNode => .error .nonexistentKey
  | valueNode nodeKey _ _ left right =>
      match comparator key nodeKey with
      | .eq => .ok (if left.isEmpty then rightParent else left.maxKey)
      | .lt => left.getPredecessorKey comparator key rightParent
      | .gt => right.getPredecessorKey comparator key (some nodeKey)

section Search

variable {comparator : κ → κ → Ordering} [Std.TransCmp comparator]

theorem get_eq_find {node : FLLRBNode κ β}
    (hasc : SortedEntries.Ascending comparator node.inorderTraversal)
    (key : κ) :
    node.get comparator key =
      SortedEntries.find comparator key node.inorderTraversal := by
  induction node with
  | emptyNode => rfl
  | valueNode nodeKey value color left right ihleft ihright =>
      rcases SortedEntries.ascending_append_cons.mp hasc with
        ⟨⟨hleft, hright⟩, -⟩
      simp only [get, inorderTraversal] at hasc ⊢
      split
      next hkey => rw [SortedEntries.find_here hasc hkey]
      next hkey => rw [SortedEntries.find_left hasc hkey, ihleft hleft]
      next hkey => rw [SortedEntries.find_right hasc hkey, ihright hright]

theorem getPredecessorKey_eq {node : FLLRBNode κ β}
    (hasc : SortedEntries.Ascending comparator node.inorderTraversal)
    (key : κ) (rightParent : Option κ) :
    node.getPredecessorKey comparator key rightParent =
      match SortedEntries.find comparator key node.inorderTraversal with
      | none => .error .nonexistentKey
      | some _ => .ok
          (((SortedEntries.below comparator key
            node.inorderTraversal).getLast?.map Prod.fst).or rightParent) := by
  induction node generalizing rightParent with
  | emptyNode => rfl
  | valueNode nodeKey value color left right ihleft ihright =>
      rcases SortedEntries.ascending_append_cons.mp hasc with
        ⟨⟨hleft, hright⟩, -⟩
      simp only [getPredecessorKey, inorderTraversal] at hasc ⊢
      split
      next hkey =>
        rw [SortedEntries.find_here hasc hkey,
          SortedEntries.below_here hasc hkey, ← maxKey_eq_getLast?]
        by_cases hempty : left.isEmpty = true
        · rw [if_pos hempty, isEmpty_iff.mp hempty]
          rfl
        · rw [if_neg hempty]
          obtain ⟨greatest, hgreatest⟩ :
              ∃ greatest, left.maxKey = some greatest := by
            rw [maxKey_eq_getLast?]
            cases hlast : left.inorderTraversal.getLast? with
            | none =>
                rw [List.getLast?_eq_none_iff, inorderTraversal_eq_nil_iff,
                  ← isEmpty_iff] at hlast
                contradiction
            | some last => exact ⟨last.1, rfl⟩
          rw [hgreatest]
          rfl
      next hkey =>
        rw [ihleft hleft, SortedEntries.find_left hasc hkey,
          SortedEntries.below_left hasc hkey]
      next hkey =>
        rw [ihright hright, SortedEntries.find_right hasc hkey,
          SortedEntries.below_right hasc hkey]
        split
        next => rfl
        next =>
          -- a key further right comes before the parent
          cases hbelow : SortedEntries.below comparator key
              right.inorderTraversal with
          | nil => simp
          | cons => simp [List.getLast?_append, List.getLast?_cons]

end Search

end FLLRBNode

namespace FTreeSortedDictionary

def initWithComparator : FTreeSortedDictionary κ β := ⟨.emptyNode⟩

section Operations

variable (comparator : κ → κ → Ordering) (dict : FTreeSortedDictionary κ β)

def get (key : κ) : Option β := dict.root.get comparator key

def contains (key : κ) : Bool := (dict.get comparator key).isSome

def insertKey (aKey : κ) (aValue : β) : FTreeSortedDictionary κ β :=
  ⟨(dict.root.insertKey comparator aKey aValue).withColor .black⟩

def removeKey (aKey : κ) : FTreeSortedDictionary κ β :=
  if !dict.contains comparator aKey then dict
  else ⟨(dict.root.remove comparator aKey).withColor .black⟩

def getPredecessorKey (key : κ) :
    Except FLLRBNode.PredecessorFailure (Option κ) :=
  dict.root.getPredecessorKey comparator key none

end Operations

def isEmpty (dict : FTreeSortedDictionary κ β) : Bool := dict.root.isEmpty

def count (dict : FTreeSortedDictionary κ β) : ℕ := dict.root.count

def minKey (dict : FTreeSortedDictionary κ β) : Option κ := dict.root.minKey

def maxKey (dict : FTreeSortedDictionary κ β) : Option κ := dict.root.maxKey

/-- What `enumerateKeysAndObjectsUsingBlock:` visits, unless it is stopped. -/
def entries (dict : FTreeSortedDictionary κ β) : List (κ × β) :=
  dict.root.inorderTraversal

/-- A search tree which passes its own check. -/
structure WellFormed (comparator : κ → κ → Ordering)
    (dict : FTreeSortedDictionary κ β) : Prop where
  ascending : SortedEntries.Ascending comparator dict.entries
  balanced : ∃ depth, dict.root.Balanced depth

variable {comparator : κ → κ → Ordering}

theorem wellFormed_initWithComparator :
    WellFormed comparator (initWithComparator : FTreeSortedDictionary κ β) :=
  ⟨List.Pairwise.nil, 0, .empty⟩

theorem WellFormed.check {dict : FTreeSortedDictionary κ β}
    (hdict : dict.WellFormed comparator) :
    (∃ depth, dict.root.check = .ok depth) ∧
      (dict.root.isEmpty = false →
        dict.root.checkMaxDepth = some (.ok true)) := by
  obtain ⟨depth, hbalanced⟩ := hdict.balanced
  exact ⟨⟨depth, FLLRBNode.check_eq_ok_iff.mpr hbalanced⟩,
    FLLRBNode.checkMaxDepth_of_balanced hbalanced⟩

section Entries

variable [Std.TransCmp comparator] {dict : FTreeSortedDictionary κ β}

theorem get_eq_find (hdict : dict.WellFormed comparator) (key : κ) :
    dict.get comparator key =
      SortedEntries.find comparator key dict.entries :=
  FLLRBNode.get_eq_find hdict.ascending key

theorem entries_insertKey (hdict : dict.WellFormed comparator) (aKey : κ)
    (aValue : β) :
    (dict.insertKey comparator aKey aValue).entries =
      SortedEntries.insertAs comparator
        (SortedEntries.slot comparator aKey dict.entries) aKey aValue
        dict.entries := by
  unfold entries insertKey
  rw [FLLRBNode.inorderTraversal_withColor]
  exact FLLRBNode.inorderTraversal_insertKey hdict.ascending aKey aValue

theorem entries_removeKey (hdict : dict.WellFormed comparator) (aKey : κ) :
    (dict.removeKey comparator aKey).entries =
      SortedEntries.erase comparator aKey dict.entries := by
  obtain ⟨depth, hbalanced⟩ := hdict.balanced
  unfold removeKey contains
  rw [get_eq_find hdict]
  split
  next habsent =>
    rw [SortedEntries.erase_of_find_eq_none hdict.ascending]
    simpa using habsent
  next =>
    unfold entries
    rw [FLLRBNode.inorderTraversal_withColor]
    exact (FLLRBNode.removes dict.root depth hdict.ascending hbalanced).2

theorem WellFormed.insertKey (hdict : dict.WellFormed comparator) (aKey : κ)
    (aValue : β) : (dict.insertKey comparator aKey aValue).WellFormed
      comparator := by
  refine ⟨?_, ?_⟩
  · rw [entries_insertKey hdict]
    exact SortedEntries.ascending_insertAs hdict.ascending
      (SortedEntries.comparator_slot aKey dict.entries) aValue
  · obtain ⟨depth, hbalanced⟩ := hdict.balanced
    have hnew := @FLLRBNode.balanced_insertKey _ _ comparator aKey aValue
      _ _ hbalanced
    by_cases hred : dict.root.isRed = true
    · exact ⟨_, (hnew.2 hred).balanced⟩
    · exact (hnew.1 (by simpa using hred)).exists_black

theorem WellFormed.removeKey (hdict : dict.WellFormed comparator)
    (aKey : κ) : (dict.removeKey comparator aKey).WellFormed comparator := by
  refine ⟨?_, ?_⟩
  · rw [entries_removeKey hdict]
    exact SortedEntries.ascending_erase hdict.ascending aKey
  · obtain ⟨depth, hbalanced⟩ := hdict.balanced
    unfold FTreeSortedDictionary.removeKey
    split
    next => exact ⟨depth, hbalanced⟩
    next =>
      exact (FLLRBNode.removes dict.root depth hdict.ascending
        hbalanced).1.2

theorem getPredecessorKey_eq (hdict : dict.WellFormed comparator) (key : κ) :
    dict.getPredecessorKey comparator key =
      match SortedEntries.find comparator key dict.entries with
      | none => .error .nonexistentKey
      | some _ => .ok ((SortedEntries.below comparator key
          dict.entries).getLast?.map Prod.fst) := by
  unfold getPredecessorKey
  rw [FLLRBNode.getPredecessorKey_eq hdict.ascending]
  simp only [Option.or_none]
  rfl

end Entries

theorem count_eq (dict : FTreeSortedDictionary κ β) :
    dict.count = dict.entries.length :=
  (FLLRBNode.length_inorderTraversal dict.root).symm

theorem minKey_eq (dict : FTreeSortedDictionary κ β) :
    dict.minKey = dict.entries.head?.map Prod.fst :=
  congrArg (Option.map Prod.fst) (FLLRBNode.min_eq_head? dict.root)

theorem maxKey_eq (dict : FTreeSortedDictionary κ β) :
    dict.maxKey = dict.entries.getLast?.map Prod.fst :=
  FLLRBNode.maxKey_eq_getLast? dict.root

end FTreeSortedDictionary

end FirebaseDatabase
