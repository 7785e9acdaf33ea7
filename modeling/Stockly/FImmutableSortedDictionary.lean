import Stockly.FArraySortedDictionary
import Stockly.LastWrite

/-!
# The sorted dictionary

A dictionary starts as an array and turns into a tree with its twenty-sixth
entry; it never turns back.  Which of the two it is does not show in what it
holds: after every history of insertions and removals a key has the value last
written to it.
-/

universe u v

namespace FirebaseDatabase

variable {κ : Type u} {β : Type v}

def SORTED_DICTIONARY_ARRAY_TO_RB_TREE_SIZE_THRESHOLD : ℕ := 25

inductive FImmutableSortedDictionary (κ : Type u) (β : Type v) where
  | array (dict : FArraySortedDictionary κ β)
  | tree (dict : FTreeSortedDictionary κ β)
deriving DecidableEq, Repr

/-- The dictionary under construction in which the array collects its entries;
its keys are told apart by their equality. -/
def setObject [DecidableEq κ] (dictionary : List (κ × β))
    (entry : κ × β) : List (κ × β) :=
  entry :: dictionary.filter fun other => other.1 ≠ entry.1

namespace FImmutableSortedDictionary

abbrev BuildFailure := FTreeSortedDictionary.BuildFailure

abbrev PredecessorFailure := FLLRBNode.PredecessorFailure

def dictionaryWithComparator : FImmutableSortedDictionary κ β :=
  .array .initWithComparator

def fromDictionary (comparator : κ → κ → Ordering)
    (dictionary : List (κ × β)) :
    Except BuildFailure (FImmutableSortedDictionary κ β) :=
  if dictionary.length ≤ SORTED_DICTIONARY_ARRAY_TO_RB_TREE_SIZE_THRESHOLD then
    (FArraySortedDictionary.fromDictionary comparator dictionary).map .array
  else
    (FTreeSortedDictionary.fromDictionary comparator dictionary).map .tree

section Operations

variable [DecidableEq κ] (comparator : κ → κ → Ordering)

def insertKey (aKey : κ) (aValue : β) :
    FImmutableSortedDictionary κ β →
      Except BuildFailure (FImmutableSortedDictionary κ β)
  | .array dict =>
      match FArraySortedDictionary.findKey comparator aKey dict.keys with
      | none =>
          if SORTED_DICTIONARY_ARRAY_TO_RB_TREE_SIZE_THRESHOLD ≤
              dict.count then
            (FTreeSortedDictionary.fromDictionary comparator
              (setObject (dict.entries.foldl setObject [])
                (aKey, aValue))).map .tree
          else .ok (.array (dict.insertObject comparator aKey aValue))
      | some pos => .ok (.array (dict.replaceObject pos aKey aValue))
  | .tree dict => .ok (.tree (dict.insertKey comparator aKey aValue))

end Operations

section Reading

variable (comparator : κ → κ → Ordering)

def removeKey (aKey : κ) :
    FImmutableSortedDictionary κ β → FImmutableSortedDictionary κ β
  | .array dict => .array (dict.removeKey comparator aKey)
  | .tree dict => .tree (dict.removeKey comparator aKey)

def get (key : κ) : FImmutableSortedDictionary κ β → Option β
  | .array dict => dict.get comparator key
  | .tree dict => dict.get comparator key

def contains (key : κ) : FImmutableSortedDictionary κ β → Bool
  | .array dict => dict.contains comparator key
  | .tree dict => dict.contains comparator key

def getPredecessorKey (key : κ) :
    FImmutableSortedDictionary κ β → Except PredecessorFailure (Option κ)
  | .array dict => dict.getPredecessorKey comparator key
  | .tree dict => dict.getPredecessorKey comparator key

end Reading

def isEmpty : FImmutableSortedDictionary κ β → Bool
  | .array dict => dict.isEmpty
  | .tree dict => dict.isEmpty

def count : FImmutableSortedDictionary κ β → ℕ
  | .array dict => dict.count
  | .tree dict => dict.count

def minKey : FImmutableSortedDictionary κ β → Option κ
  | .array dict => dict.minKey
  | .tree dict => dict.minKey

def maxKey : FImmutableSortedDictionary κ β → Option κ
  | .array dict => dict.maxKey
  | .tree dict => dict.maxKey

/-- What `enumerateKeysAndObjectsUsingBlock:` visits, unless it is stopped. -/
def entries : FImmutableSortedDictionary κ β → List (κ × β)
  | .array dict => dict.entries
  | .tree dict => dict.entries

def isEqual [DecidableEq β] (comparator : κ → κ → Ordering)
    (dict other : FImmutableSortedDictionary κ β) : Bool :=
  dict.count = other.count ∧
    dict.entries.all fun entry => other.get comparator entry.1 = some entry.2

structure WellFormed (comparator : κ → κ → Ordering)
    (dict : FImmutableSortedDictionary κ β) : Prop where
  ascending : SortedEntries.Ascending comparator dict.entries
  /-- A tree passes its check. -/
  balanced : ∀ tree, dict = .tree tree → ∃ depth, tree.root.Balanced depth
  /-- An array stays small. -/
  small : ∀ array, dict = .array array →
    array.count ≤ SORTED_DICTIONARY_ARRAY_TO_RB_TREE_SIZE_THRESHOLD

variable {comparator : κ → κ → Ordering}

theorem wellFormed_tree {dict : FTreeSortedDictionary κ β} :
    (tree dict).WellFormed comparator ↔ dict.WellFormed comparator := by
  constructor
  · intro hdict
    exact ⟨hdict.ascending, hdict.balanced dict rfl⟩
  · intro hdict
    refine ⟨hdict.ascending, ?_, fun _ harray => by contradiction⟩
    rintro tree ⟨⟩
    exact hdict.balanced

theorem wellFormed_array {dict : FArraySortedDictionary κ β} :
    (array dict).WellFormed comparator ↔
      SortedEntries.Ascending comparator dict.entries ∧
        dict.count ≤ SORTED_DICTIONARY_ARRAY_TO_RB_TREE_SIZE_THRESHOLD := by
  constructor
  · intro hdict
    exact ⟨hdict.ascending, hdict.small dict rfl⟩
  · rintro ⟨hasc, hsmall⟩
    refine ⟨hasc, fun _ htree => by contradiction, ?_⟩
    rintro array ⟨⟩
    exact hsmall

theorem wellFormed_dictionaryWithComparator :
    (dictionaryWithComparator :
      FImmutableSortedDictionary κ β).WellFormed comparator :=
  wellFormed_array.mpr ⟨List.Pairwise.nil, Nat.zero_le _⟩

theorem count_eq (dict : FImmutableSortedDictionary κ β) :
    dict.count = dict.entries.length := by
  cases dict with
  | array dict =>
      change dict.keys.length = dict.entries.length
      rw [← FArraySortedDictionary.map_fst_entries, List.length_map]
  | tree dict => exact dict.count_eq

/-! ## Collecting the entries -/

theorem setObject_eq_cons [DecidableEq κ] {dictionary : List (κ × β)}
    {entry : κ × β}
    (hfresh : ∀ other ∈ dictionary, other.1 ≠ entry.1) :
    setObject dictionary entry = entry :: dictionary := by
  unfold setObject
  rw [List.filter_eq_self.mpr]
  simpa using hfresh

theorem foldl_setObject [DecidableEq κ] {entries dictionary : List (κ × β)}
    (hentries : entries.Pairwise fun first second => first.1 ≠ second.1)
    (hfresh : ∀ entry ∈ entries, ∀ other ∈ dictionary, other.1 ≠ entry.1) :
    entries.foldl setObject dictionary = entries.reverse ++ dictionary := by
  induction entries generalizing dictionary with
  | nil => rfl
  | cons entry rest ih =>
      rw [List.pairwise_cons] at hentries
      rw [List.forall_mem_cons] at hfresh
      rw [List.foldl_cons, setObject_eq_cons hfresh.1, ih hentries.2]
      · simp
      · intro other hother
        rw [List.forall_mem_cons]
        exact ⟨hentries.1 other hother, hfresh.2 other hother⟩

/-! ## Building from a dictionary -/

/-- Building throws exactly when two keys have the same order.  Otherwise the
result holds the entries, and the order in which they are enumerated does not
show. -/
theorem fromDictionary_holds_entries (comparator : κ → κ → Ordering)
    [Std.TransCmp comparator] (dictionary : List (κ × β)) :
    (∀ other : List (κ × β), other.Perm dictionary →
        fromDictionary comparator other =
          fromDictionary comparator dictionary) ∧
      ((dictionary.Pairwise fun first second =>
          comparator first.1 second.1 ≠ .eq) ∧
          (∃ dict, fromDictionary comparator dictionary = .ok dict ∧
            dict.WellFormed comparator ∧ dict.entries.Perm dictionary) ∨
        ¬ (dictionary.Pairwise fun first second =>
          comparator first.1 second.1 ≠ .eq) ∧
          fromDictionary comparator dictionary = .error .sameOrdering) := by
  refine ⟨fun other hother => ?_, ?_⟩
  · unfold fromDictionary
    rw [hother.length_eq, FArraySortedDictionary.fromDictionary_eq_of_perm
      hother, FTreeSortedDictionary.fromDictionary_eq_of_perm hother]
  · unfold fromDictionary
    split
    next hsmall =>
      rcases FArraySortedDictionary.fromDictionary_cases comparator
          dictionary with
        ⟨hdistinct, dict, hdict, hasc, hperm⟩ | ⟨hsame, hfail⟩
      · rw [hdict]
        refine Or.inl ⟨hdistinct, .array dict, rfl,
          wellFormed_array.mpr ⟨hasc, ?_⟩, hperm⟩
        have hcount := count_eq (.array dict)
        rw [show (array dict).entries = dict.entries from rfl,
          hperm.length_eq] at hcount
        exact hcount.trans_le hsmall
      · rw [hfail]
        exact Or.inr ⟨hsame, rfl⟩
    next =>
      rcases FTreeSortedDictionary.fromDictionary_cases comparator
          dictionary with
        ⟨hdistinct, dict, hdict, hwell, hperm⟩ | ⟨hsame, hfail⟩
      · rw [hdict]
        exact Or.inl ⟨hdistinct, .tree dict, rfl, wellFormed_tree.mpr hwell,
          hperm⟩
      · rw [hfail]
        exact Or.inr ⟨hsame, rfl⟩

theorem fromDictionary_holds_entries_two :
    (∀ other : List (ℕ × ℕ), other.Perm [(2, 4), (1, 2)] →
        fromDictionary compare other =
          fromDictionary compare [(2, 4), (1, 2)]) ∧
      (([(2, 4), (1, 2)].Pairwise fun first second : ℕ × ℕ =>
          compare first.1 second.1 ≠ .eq) ∧
          (∃ dict, fromDictionary compare [(2, 4), (1, 2)] = .ok dict ∧
            dict.WellFormed compare ∧ dict.entries.Perm [(2, 4), (1, 2)]) ∨
        ¬ ([(2, 4), (1, 2)].Pairwise fun first second : ℕ × ℕ =>
          compare first.1 second.1 ≠ .eq) ∧
          fromDictionary compare [(2, 4), (1, 2)] = .error .sameOrdering) :=
  fromDictionary_holds_entries compare [(2, 4), (1, 2)]

/-! ## What an operation leaves -/

section Entries

variable [Std.TransCmp comparator] {dict : FImmutableSortedDictionary κ β}

theorem get_eq_find (hdict : dict.WellFormed comparator) (key : κ) :
    dict.get comparator key =
      SortedEntries.find comparator key dict.entries := by
  cases dict with
  | array dict => exact FArraySortedDictionary.get_eq_find hdict.ascending key
  | tree dict =>
      exact FTreeSortedDictionary.get_eq_find (wellFormed_tree.mp hdict) key

theorem contains_eq (hdict : dict.WellFormed comparator) (key : κ) :
    dict.contains comparator key = (dict.get comparator key).isSome := by
  cases dict with
  | array dict => exact FArraySortedDictionary.contains_eq hdict.ascending key
  | tree dict => rfl

/-- The array is handed over to a tree together with its new entry. -/
theorem exists_converted [DecidableEq κ] {entries : List (κ × β)}
    (hasc : SortedEntries.Ascending comparator entries) {aKey : κ}
    (habsent : SortedEntries.find comparator aKey entries = none)
    (aValue : β) :
    ∃ dict, FTreeSortedDictionary.fromDictionary comparator
        (setObject (entries.foldl setObject []) (aKey, aValue)) = .ok dict ∧
      dict.WellFormed comparator ∧
      dict.entries =
        SortedEntries.insertAs comparator aKey aKey aValue entries := by
  have happart {first second : κ} (hne : comparator first second ≠ .eq) :
      first ≠ second := by
    rintro rfl
    exact hne Std.ReflCmp.compare_self
  have hdistinct : entries.Pairwise fun first second =>
      comparator first.1 second.1 ≠ .eq := by
    refine hasc.imp ?_
    intro first second hlt
    rw [hlt]
    decide
  have hnew : ∀ entry ∈ entries, comparator aKey entry.1 ≠ .eq := by
    simpa [SortedEntries.find] using habsent
  have hdictionary : setObject (entries.foldl setObject []) (aKey, aValue) =
      (aKey, aValue) :: entries.reverse := by
    rw [foldl_setObject (hdistinct.imp happart) (by simp), List.append_nil,
      setObject_eq_cons]
    intro other hother
    exact (happart (hnew other (List.mem_reverse.mp hother))).symm
  have hperm : ((aKey, aValue) :: entries.reverse).Perm
      (SortedEntries.insertAs comparator aKey aKey aValue entries) := by
    have herase := SortedEntries.erase_of_find_eq_none hasc habsent
    refine ((List.reverse_perm entries).cons _).trans ?_
    conv_lhs => rw [← herase]
    exact List.perm_middle.symm
  rw [hdictionary]
  rcases FTreeSortedDictionary.fromDictionary_cases comparator
      ((aKey, aValue) :: entries.reverse) with
    ⟨-, dict, hdict, hwell, hentries⟩ | ⟨hfail, -⟩
  · refine ⟨dict, hdict, hwell, SortedEntries.eq_of_perm hwell.ascending ?_
      (hentries.trans hperm)⟩
    exact SortedEntries.ascending_insertAs hasc Std.ReflCmp.compare_self
      aValue
  · refine absurd (List.pairwise_cons.mpr ⟨?_, ?_⟩) hfail
    · intro other hother
      exact hnew other (List.mem_reverse.mp hother)
    · rw [List.pairwise_reverse]
      exact hdistinct.imp fun hne heq =>
        hne (Std.OrientedCmp.eq_symm heq)

/-- An insertion never throws; an array files the slot under the new key, a
tree keeps the old one. -/
theorem exists_insertKey [DecidableEq κ] (hdict : dict.WellFormed comparator)
    (aKey : κ) (aValue : β) :
    ∃ next name, dict.insertKey comparator aKey aValue = .ok next ∧
      next.WellFormed comparator ∧
      (comparator name aKey = .eq ∧
        (SortedEntries.find comparator aKey dict.entries = none →
          name = aKey)) ∧
      next.entries =
        SortedEntries.insertAs comparator name aKey aValue dict.entries := by
  have hself : comparator aKey aKey = .eq := Std.ReflCmp.compare_self
  cases dict with
  | tree dict =>
      have hwell := wellFormed_tree.mp hdict
      exact ⟨_, _, rfl, wellFormed_tree.mpr (hwell.insertKey aKey aValue),
        ⟨SortedEntries.comparator_slot aKey dict.entries,
          SortedEntries.slot_of_find_eq_none⟩,
        FTreeSortedDictionary.entries_insertKey hwell aKey aValue⟩
  | array dict =>
      obtain ⟨hasc, hsmall⟩ := wellFormed_array.mp hdict
      have hnewAsc := SortedEntries.ascending_insertAs hasc hself aValue
      cases hpos : FArraySortedDictionary.findKey comparator aKey dict.keys with
      | some pos =>
          have hentries := FArraySortedDictionary.entries_replaceObject hasc
            hpos aValue
          refine ⟨.array (dict.replaceObject pos aKey aValue), aKey,
            by rw [insertKey, hpos],
            wellFormed_array.mpr ⟨hentries ▸ hnewAsc, ?_⟩,
            ⟨hself, fun _ => rfl⟩, hentries⟩
          have hcount : (dict.replaceObject pos aKey aValue).count =
              dict.count :=
            List.length_set
          rw [hcount]
          exact hsmall
      | none =>
          have hentries := FArraySortedDictionary.entries_insertObject hasc
            hpos aValue
          by_cases hfull :
              SORTED_DICTIONARY_ARRAY_TO_RB_TREE_SIZE_THRESHOLD ≤ dict.count
          · have habsent := FArraySortedDictionary.get_eq_find hasc aKey
            unfold FArraySortedDictionary.get at habsent
            rw [hpos] at habsent
            obtain ⟨new, hnew, hwell, hconverted⟩ :=
              exists_converted hasc habsent.symm aValue
            refine ⟨.tree new, aKey, ?_, wellFormed_tree.mpr hwell,
              ⟨hself, fun _ => rfl⟩, hconverted⟩
            rw [insertKey, hpos]
            dsimp only
            rw [if_pos hfull, hnew]
            rfl
          · refine ⟨.array (dict.insertObject comparator aKey aValue), aKey,
              by rw [insertKey, hpos]; exact if_neg hfull,
              wellFormed_array.mpr ⟨hentries ▸ hnewAsc, ?_⟩,
            ⟨hself, fun _ => rfl⟩, hentries⟩
            have hcount : (dict.insertObject comparator aKey aValue).count ≤
                dict.count + 1 := by
              unfold FArraySortedDictionary.count
                FArraySortedDictionary.insertObject
              dsimp only
              rw [List.length_insertIdx]
              split <;> omega
            omega

theorem entries_removeKey (hdict : dict.WellFormed comparator) (aKey : κ) :
    (dict.removeKey comparator aKey).entries =
      SortedEntries.erase comparator aKey dict.entries := by
  cases dict with
  | array dict =>
      exact FArraySortedDictionary.entries_removeKey hdict.ascending aKey
  | tree dict =>
      exact FTreeSortedDictionary.entries_removeKey (wellFormed_tree.mp hdict)
        aKey

theorem WellFormed.removeKey (hdict : dict.WellFormed comparator)
    (aKey : κ) : (dict.removeKey comparator aKey).WellFormed comparator := by
  cases dict with
  | tree dict =>
      exact wellFormed_tree.mpr ((wellFormed_tree.mp hdict).removeKey aKey)
  | array dict =>
      obtain ⟨hasc, hsmall⟩ := wellFormed_array.mp hdict
      refine wellFormed_array.mpr ⟨?_, ?_⟩
      · rw [FArraySortedDictionary.entries_removeKey hasc]
        exact SortedEntries.ascending_erase hasc aKey
      · unfold FArraySortedDictionary.removeKey
        split
        next => exact hsmall
        next pos hpos =>
          have hcount : (dict.removeObjectAtIndex pos).count ≤ dict.count :=
            List.length_eraseIdx_le dict.keys pos
          omega

/-- The key before a key which is there, whichever way it is kept. -/
theorem getPredecessorKey_eq (hdict : dict.WellFormed comparator)
    {key : κ} (hkey : dict.contains comparator key = true) :
    dict.getPredecessorKey comparator key =
      .ok ((SortedEntries.below comparator key
        dict.entries).getLast?.map Prod.fst) := by
  obtain ⟨value, hvalue⟩ : ∃ value,
      SortedEntries.find comparator key dict.entries = some value := by
    rw [contains_eq hdict, get_eq_find hdict] at hkey
    exact Option.isSome_iff_exists.mp hkey
  cases dict with
  | array dict =>
      have hpredecessor := FArraySortedDictionary.getPredecessorKey_eq
        hdict.ascending key
      rw [show SortedEntries.find comparator key dict.entries = some value
        from hvalue] at hpredecessor
      exact hpredecessor
  | tree dict =>
      have hpredecessor := FTreeSortedDictionary.getPredecessorKey_eq
        (wellFormed_tree.mp hdict) key
      rw [show SortedEntries.find comparator key dict.entries = some value
        from hvalue] at hpredecessor
      exact hpredecessor

/-- Two dictionaries are equal when every key has the same value in both,
however either is kept. -/
theorem isEqual_iff [DecidableEq β] {other : FImmutableSortedDictionary κ β}
    (hdict : dict.WellFormed comparator)
    (hother : other.WellFormed comparator) :
    dict.isEqual comparator other = true ↔
      ∀ key, dict.get comparator key = other.get comparator key := by
  have hlookups := SortedEntries.length_eq_and_found_iff hdict.ascending
    hother.ascending
  simp only [isEqual, count_eq, get_eq_find hdict, get_eq_find hother,
    List.all_eq_true, decide_eq_true_eq]
  exact hlookups

end Entries

/-! ## Histories -/

inductive Edit (κ : Type u) (β : Type v) where
  | insertKey (aKey : κ) (aValue : β)
  | removeKey (aKey : κ)
deriving DecidableEq, Repr

/-- What an edit writes to the slot of a key; a removal writes its absence. -/
def Edit.writes (comparator : κ → κ → Ordering) (key : κ) :
    Edit κ β → Option (Option β)
  | .insertKey aKey aValue =>
      if comparator key aKey = .eq then some (some aValue) else none
  | .removeKey aKey => if comparator key aKey = .eq then some none else none

section Histories

variable [DecidableEq κ]

def edit (comparator : κ → κ → Ordering)
    (dict : FImmutableSortedDictionary κ β) :
    Edit κ β → Except BuildFailure (FImmutableSortedDictionary κ β)
  | .insertKey aKey aValue => dict.insertKey comparator aKey aValue
  | .removeKey aKey => .ok (dict.removeKey comparator aKey)

def run (comparator : κ → κ → Ordering)
    (dict : FImmutableSortedDictionary κ β) :
    List (Edit κ β) → Except BuildFailure (FImmutableSortedDictionary κ β)
  | [] => .ok dict
  | next :: edits =>
      match dict.edit comparator next with
      | .error failure => .error failure
      | .ok dict => dict.run comparator edits

variable [Std.TransCmp comparator] {dict : FImmutableSortedDictionary κ β}

theorem exists_edit (hdict : dict.WellFormed comparator)
    (change : Edit κ β) :
    ∃ next, dict.edit comparator change = .ok next ∧
      next.WellFormed comparator ∧
      ∀ key, next.get comparator key =
        (change.writes comparator key).getD (dict.get comparator key) := by
  cases change with
  | insertKey aKey aValue =>
      obtain ⟨next, name, hnext, hwell, ⟨hname, -⟩, hentries⟩ :=
        exists_insertKey hdict aKey aValue
      refine ⟨next, hnext, hwell, fun key => ?_⟩
      rw [get_eq_find hwell, get_eq_find hdict, hentries,
        SortedEntries.find_insertAs hdict.ascending hname, Edit.writes]
      split <;> rfl
  | removeKey aKey =>
      have hwell := hdict.removeKey aKey
      refine ⟨_, rfl, hwell, fun key => ?_⟩
      rw [get_eq_find hwell, get_eq_find hdict, entries_removeKey hdict,
        SortedEntries.find_erase hdict.ascending, Edit.writes]
      split <;> rfl

theorem exists_run (hdict : dict.WellFormed comparator)
    (edits : List (Edit κ β)) :
    ∃ result, dict.run comparator edits = .ok result ∧
      result.WellFormed comparator ∧
      ∀ key, result.get comparator key =
        (lastWrite (Edit.writes comparator key) edits).getD
          (dict.get comparator key) := by
  induction edits generalizing dict with
  | nil => exact ⟨dict, rfl, hdict, fun _ => rfl⟩
  | cons change edits ih =>
      obtain ⟨next, hnext, hwell, hget⟩ := exists_edit hdict change
      obtain ⟨result, hresult, hdone, hread⟩ := ih hwell
      refine ⟨result, ?_, hdone, fun key => ?_⟩
      · rw [run, hnext]
        exact hresult
      · rw [hread, hget, lastWrite_cons]
        cases lastWrite (Edit.writes comparator key) edits <;> rfl

/-- After any history a dictionary holds for each key what was last written to
it, in the order of the keys, and a tree passes its own check. -/
theorem run_holds_lastWrite (edits : List (Edit κ β)) :
    ∃ result, dictionaryWithComparator.run comparator edits = .ok result ∧
      (∀ key, result.get comparator key =
        (lastWrite (Edit.writes comparator key) edits).getD none) ∧
      SortedEntries.Ascending comparator result.entries ∧
      (∀ entry ∈ result.entries,
        result.get comparator entry.1 = some entry.2) ∧
      (∀ dict, result = .tree dict →
        (∃ depth, dict.root.check = .ok depth) ∧
          (dict.root.isEmpty = false →
            dict.root.checkMaxDepth = some (.ok true))) := by
  obtain ⟨result, hresult, hwell, hread⟩ :=
    exists_run (wellFormed_dictionaryWithComparator : WellFormed comparator
      (dictionaryWithComparator : FImmutableSortedDictionary κ β)) edits
  refine ⟨result, hresult, fun key => ?_, hwell.ascending,
    fun entry hentry => ?_, ?_⟩
  · rw [hread]
    rfl
  · rw [get_eq_find hwell]
    exact SortedEntries.find_of_mem hwell.ascending hentry
  · rintro dict rfl
    exact (wellFormed_tree.mp hwell).check

/-- Enough keys for a tree, and the removal of one of them. -/
def thirtyKeys : List (Edit ℕ ℕ) :=
  (List.range 30).map (fun key => .insertKey key (2 * key)) ++
    [.insertKey 7 1, .removeKey 3]

def isFilledTree : FImmutableSortedDictionary ℕ ℕ → Bool
  | .array _ => false
  | .tree dict => !dict.root.isEmpty

theorem run_holds_lastWrite_thirtyKeys :
    ∃ dict : FTreeSortedDictionary ℕ ℕ,
      dictionaryWithComparator.run compare thirtyKeys = .ok (.tree dict) ∧
      (∀ key, dict.get compare key =
        (lastWrite (Edit.writes compare key) thirtyKeys).getD none) ∧
      SortedEntries.Ascending compare dict.entries ∧
      (∀ entry ∈ dict.entries, dict.get compare entry.1 = some entry.2) ∧
      (∃ depth, dict.root.check = .ok depth) ∧
      dict.root.checkMaxDepth = some (.ok true) := by
  obtain ⟨result, hresult, hread, hasc, hfound, hcheck⟩ :=
    @run_holds_lastWrite ℕ ℕ compare _ _ thirtyKeys
  have hconverted : (dictionaryWithComparator.run compare
      thirtyKeys).toOption.all isFilledTree = true := by decide +kernel
  rw [hresult] at hconverted
  cases result with
  | array dict => contradiction
  | tree dict =>
      have hnonempty : dict.root.isEmpty = false := by
        simpa [Except.toOption, isFilledTree] using hconverted
      obtain ⟨hbalanced, hdepth⟩ := hcheck dict rfl
      exact ⟨dict, hresult, hread, hasc, hfound, hbalanced, hdepth hnonempty⟩

/-- Whether two histories end in equal dictionaries depends only on what they
wrote last to each key. -/
theorem isEqual_run_iff [DecidableEq β] (edits others : List (Edit κ β)) :
    ∃ result other,
      dictionaryWithComparator.run comparator edits = .ok result ∧
      dictionaryWithComparator.run comparator others = .ok other ∧
      (result.isEqual comparator other = true ↔
        ∀ key, (lastWrite (Edit.writes comparator key) edits).getD none =
          (lastWrite (Edit.writes comparator key) others).getD none) := by
  have hempty : WellFormed comparator
      (dictionaryWithComparator : FImmutableSortedDictionary κ β) :=
    wellFormed_dictionaryWithComparator
  obtain ⟨result, hresult, hwell, hread⟩ := exists_run hempty edits
  obtain ⟨other, hother, hotherWell, hotherRead⟩ := exists_run hempty others
  refine ⟨result, other, hresult, hother, ?_⟩
  rw [isEqual_iff hwell hotherWell]
  simp only [hread, hotherRead]
  rfl

theorem isEqual_run_iff_reordered :
    ∃ result other : FImmutableSortedDictionary ℕ ℕ,
      dictionaryWithComparator.run compare
          [.insertKey 1 2, .insertKey 2 4] = .ok result ∧
      dictionaryWithComparator.run compare
          [.insertKey 2 4, .insertKey 1 2] = .ok other ∧
      (result.isEqual compare other = true ↔
        ∀ key, (lastWrite (Edit.writes compare key)
            [.insertKey 1 2, .insertKey 2 4]).getD none =
          (lastWrite (Edit.writes compare key)
            [.insertKey 2 4, .insertKey 1 2]).getD none) :=
  isEqual_run_iff [.insertKey 1 2, .insertKey 2 4]
    [.insertKey 2 4, .insertKey 1 2]

end Histories

end FImmutableSortedDictionary

namespace FTreeSortedDictionary

open FImmutableSortedDictionary

def edit (comparator : κ → κ → Ordering) (dict : FTreeSortedDictionary κ β) :
    Edit κ β → FTreeSortedDictionary κ β
  | .insertKey aKey aValue => dict.insertKey comparator aKey aValue
  | .removeKey aKey => dict.removeKey comparator aKey

variable {comparator : κ → κ → Ordering} [Std.TransCmp comparator]

theorem WellFormed.foldl {dict : FTreeSortedDictionary κ β}
    (hdict : dict.WellFormed comparator) (edits : List (Edit κ β)) :
    (edits.foldl (edit comparator) dict).WellFormed comparator := by
  induction edits generalizing dict with
  | nil => exact hdict
  | cons change edits ih =>
      cases change with
      | insertKey aKey aValue => exact ih (hdict.insertKey aKey aValue)
      | removeKey aKey => exact ih (hdict.removeKey aKey)

/-- A tree never fails its own check, in whatever history, started empty or
built at once.  The test of its depth is answered unless it is empty. -/
theorem check_foldl {dict : FTreeSortedDictionary κ β}
    (hstart : dict = initWithComparator ∨
      ∃ dictionary, fromDictionary comparator dictionary = .ok dict)
    (edits : List (Edit κ β)) :
    (∃ depth, (edits.foldl (edit comparator) dict).root.check = .ok depth) ∧
      ((edits.foldl (edit comparator) dict).root.isEmpty = false →
        (edits.foldl (edit comparator) dict).root.checkMaxDepth =
          some (.ok true)) := by
  have hdict : dict.WellFormed comparator := by
    rcases hstart with rfl | ⟨dictionary, hbuilt⟩
    · exact wellFormed_initWithComparator
    · rcases fromDictionary_cases comparator dictionary with
        ⟨-, other, hother, hwell, -⟩ | ⟨-, hfail⟩
      · rw [hbuilt, Except.ok.injEq] at hother
        rw [hother]
        exact hwell
      · rw [hbuilt] at hfail
        contradiction
  exact (hdict.foldl edits).check

def threeKeys : List (Edit ℕ ℕ) :=
  [.insertKey 1 2, .insertKey 2 4, .insertKey 3 6, .removeKey 2]

theorem check_foldl_threeKeys :
    (∃ depth, (threeKeys.foldl (edit compare)
        initWithComparator).root.check = .ok depth) ∧
      (threeKeys.foldl (edit compare) initWithComparator).root.checkMaxDepth =
        some (.ok true) := by
  obtain ⟨hcheck, hdepth⟩ :=
    @check_foldl ℕ ℕ compare _ initWithComparator (Or.inl rfl) threeKeys
  exact ⟨hcheck, hdepth (by decide +kernel)⟩

end FTreeSortedDictionary

end FirebaseDatabase
