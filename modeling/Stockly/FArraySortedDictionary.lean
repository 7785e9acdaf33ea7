import Stockly.FTreeBuilder

/-!
# The array dictionary

The dictionary which keeps the keys and the values in two arrays of one
length.  Positions are found by a walk from the front, and every change is
made at one position of both arrays.
-/

universe u v

namespace FirebaseDatabase

variable {κ : Type u} {β : Type v}

structure FArraySortedDictionary (κ : Type u) (β : Type v) where
  keys : List κ
  values : List β
  aligned : keys.length = values.length
deriving DecidableEq, Repr

namespace FArraySortedDictionary

def initWithComparator : FArraySortedDictionary κ β := ⟨[], [], rfl⟩

/-- The position in the keys from the one on at which the walk stands. -/
def findKey (comparator : κ → κ → Ordering) (key : κ) : List κ → Option ℕ
  | [] => none
  | candidate :: rest =>
      match comparator key candidate with
      | .eq => some 0
      | .lt => none
      | .gt => (findKey comparator key rest).map (· + 1)

def findInsertPosition (comparator : κ → κ → Ordering) (key : κ) :
    List κ → ℕ
  | [] => 0
  | candidate :: rest =>
      if comparator candidate key = .lt then
        findInsertPosition comparator key rest + 1
      else 0

section Operations

variable (comparator : κ → κ → Ordering) (dict : FArraySortedDictionary κ β)

def get (key : κ) : Option β :=
  match findKey comparator key dict.keys with
  | none => none
  | some pos => dict.values[pos]?

def contains (key : κ) : Bool :=
  (findKey comparator key dict.keys).isSome

def getPredecessorKey (key : κ) :
    Except FLLRBNode.PredecessorFailure (Option κ) :=
  match findKey comparator key dict.keys with
  | none => .error .internalInconsistency
  | some 0 => .ok none
  | some (pos + 1) => .ok dict.keys[pos]?

/-- The copy with the key and the value at a new position. -/
def insertObject (key : κ) (value : β) : FArraySortedDictionary κ β where
  keys := dict.keys.insertIdx (findInsertPosition comparator key dict.keys) key
  values :=
    dict.values.insertIdx (findInsertPosition comparator key dict.keys) value
  aligned := by
    simp only [List.length_insertIdx, dict.aligned]

def replaceObject (pos : ℕ) (key : κ) (value : β) :
    FArraySortedDictionary κ β where
  keys := dict.keys.set pos key
  values := dict.values.set pos value
  aligned := by
    simp only [List.length_set, dict.aligned]

def removeObjectAtIndex (pos : ℕ) : FArraySortedDictionary κ β where
  keys := dict.keys.eraseIdx pos
  values := dict.values.eraseIdx pos
  aligned := by
    simp only [List.length_eraseIdx, dict.aligned]

def removeKey (key : κ) : FArraySortedDictionary κ β :=
  match findKey comparator key dict.keys with
  | none => dict
  | some pos => dict.removeObjectAtIndex pos

end Operations

def isEmpty (dict : FArraySortedDictionary κ β) : Bool := dict.keys.isEmpty

def count (dict : FArraySortedDictionary κ β) : ℕ := dict.keys.length

def minKey (dict : FArraySortedDictionary κ β) : Option κ := dict.keys.head?

def maxKey (dict : FArraySortedDictionary κ β) : Option κ :=
  dict.keys.getLast?

def entries (dict : FArraySortedDictionary κ β) : List (κ × β) :=
  dict.keys.zip dict.values

def ofEntries (entries : List (κ × β)) : FArraySortedDictionary κ β :=
  ⟨entries.map Prod.fst, entries.map Prod.snd, by simp⟩

def fromDictionary (comparator : κ → κ → Ordering)
    (dictionary : List (κ × β)) :
    Except FTreeSortedDictionary.BuildFailure (FArraySortedDictionary κ β) :=
  let entries := FTreeSortedDictionary.sortUsingComparator comparator dictionary
  if entries.IsChain fun first second =>
      comparator first.1 second.1 = .lt then
    .ok (ofEntries entries)
  else .error .sameOrdering

/-! ## Two arrays as one list of entries -/

@[simp] theorem map_fst_entries (dict : FArraySortedDictionary κ β) :
    dict.entries.map Prod.fst = dict.keys :=
  List.map_fst_zip dict.aligned.le

@[simp] theorem map_snd_entries (dict : FArraySortedDictionary κ β) :
    dict.entries.map Prod.snd = dict.values :=
  List.map_snd_zip dict.aligned.ge

@[simp] theorem entries_ofEntries (entries : List (κ × β)) :
    (ofEntries entries).entries = entries := by
  unfold FArraySortedDictionary.entries ofEntries
  simp only [List.zip_map', List.map_id']

theorem ofEntries_entries (dict : FArraySortedDictionary κ β) :
    ofEntries dict.entries = dict := by
  unfold ofEntries
  simp

/-! ## Positions -/

section Positions

variable {comparator : κ → κ → Ordering} {key : κ}

theorem findKey_append_cons {left right : List κ} {found : κ}
    (hleft : ∀ other ∈ left, comparator key other = .gt)
    (hfound : comparator key found = .eq) :
    findKey comparator key (left ++ found :: right) = some left.length := by
  induction left with
  | nil => simp [findKey, hfound]
  | cons other left ih =>
      rw [List.forall_mem_cons] at hleft
      simp [findKey, hleft.1, ih hleft.2]

theorem findKey_append {left right : List κ}
    (hleft : ∀ other ∈ left, comparator key other = .gt)
    (hright : ∀ other ∈ right, comparator key other = .lt) :
    findKey comparator key (left ++ right) = none := by
  induction left with
  | nil =>
      cases right with
      | nil => rfl
      | cons other right =>
          rw [List.forall_mem_cons] at hright
          simp [findKey, hright.1]
  | cons other left ih =>
      rw [List.forall_mem_cons] at hleft
      simp [findKey, hleft.1, ih hleft.2]

theorem findInsertPosition_append {left right : List κ}
    (hleft : ∀ other ∈ left, comparator other key = .lt)
    (hright : ∀ other ∈ right, comparator other key ≠ .lt) :
    findInsertPosition comparator key (left ++ right) = left.length := by
  induction left with
  | nil =>
      cases right with
      | nil => rfl
      | cons other right =>
          rw [List.forall_mem_cons] at hright
          simp [findInsertPosition, hright.1]
  | cons other left ih =>
      rw [List.forall_mem_cons] at hleft
      simp [findInsertPosition, hleft.1, ih hleft.2]

theorem insertIdx_append {α : Type u} (left right : List α) (new : α) :
    (left ++ right).insertIdx left.length new = left ++ new :: right := by
  induction left with
  | nil => rfl
  | cons other left ih => simp [ih]

/-- Where a key is found, or else where it belongs. -/
theorem position_cases [Std.TransCmp comparator] {entries : List (κ × β)}
    (hasc : SortedEntries.Ascending comparator entries) (key : κ) :
    (∃ lower entry upper, entries = lower ++ entry :: upper ∧
        comparator key entry.1 = .eq ∧
        findKey comparator key (entries.map Prod.fst) = some lower.length ∧
        findInsertPosition comparator key (entries.map Prod.fst) =
          lower.length) ∨
      ∃ lower upper, entries = lower ++ upper ∧
        (SortedEntries.below comparator key entries = lower ∧
          SortedEntries.above comparator key entries = upper) ∧
        SortedEntries.find comparator key entries = none ∧
        findKey comparator key (entries.map Prod.fst) = none ∧
        findInsertPosition comparator key (entries.map Prod.fst) =
          lower.length := by
  have hbelow : ∀ other ∈ (SortedEntries.below comparator key entries).map
      Prod.fst, comparator other key = .lt := by
    intro other hother
    obtain ⟨entry, hentry, rfl⟩ := List.mem_map.mp hother
    exact (SortedEntries.mem_below.mp hentry).2
  have hafter : ∀ other ∈ (SortedEntries.below comparator key entries).map
      Prod.fst, comparator key other = .gt :=
    fun other hother => Std.OrientedCmp.gt_of_lt (hbelow other hother)
  have habove : ∀ other ∈ (SortedEntries.above comparator key entries).map
      Prod.fst, comparator key other = .lt := by
    intro other hother
    obtain ⟨entry, hentry, rfl⟩ := List.mem_map.mp hother
    exact (SortedEntries.mem_above.mp hentry).2
  have hnotBelow : ∀ other ∈ (SortedEntries.above comparator key entries).map
      Prod.fst, comparator other key ≠ .lt := by
    intro other hother
    rw [Std.OrientedCmp.gt_of_lt (habove other hother)]
    decide
  rcases SortedEntries.split_at hasc key with
    ⟨entry, hentry, hsplit⟩ | ⟨hnone, hsplit⟩
  · refine Or.inl ⟨_, entry, _, hsplit, hentry, ?_, ?_⟩
    · conv_lhs => rw [hsplit]
      rw [List.map_append, List.map_cons, findKey_append_cons hafter hentry,
        List.length_map]
    · conv_lhs => rw [hsplit]
      rw [List.map_append, findInsertPosition_append hbelow, List.length_map]
      rw [List.map_cons, List.forall_mem_cons]
      refine ⟨?_, hnotBelow⟩
      rw [Std.OrientedCmp.eq_symm hentry]
      decide
  · refine Or.inr ⟨_, _, hsplit, ⟨rfl, rfl⟩, ?_, ?_, ?_⟩
    · unfold SortedEntries.find
      rw [SortedEntries.find?_eq_none hnone, Option.map_none]
    · conv_lhs => rw [hsplit]
      rw [List.map_append, findKey_append hafter habove]
    · conv_lhs => rw [hsplit]
      rw [List.map_append, findInsertPosition_append hbelow hnotBelow,
        List.length_map]

end Positions

/-! ## The entries after a change -/

section Entries

variable {comparator : κ → κ → Ordering} [Std.TransCmp comparator]
  {dict : FArraySortedDictionary κ β}

theorem exists_ofEntries (dict : FArraySortedDictionary κ β) :
    ∃ entries, dict = ofEntries entries :=
  ⟨dict.entries, (ofEntries_entries dict).symm⟩

theorem get_eq_find
    (hasc : SortedEntries.Ascending comparator dict.entries) (key : κ) :
    dict.get comparator key =
      SortedEntries.find comparator key dict.entries := by
  obtain ⟨entries, rfl⟩ := exists_ofEntries dict
  rw [entries_ofEntries] at hasc ⊢
  unfold get ofEntries
  rcases position_cases hasc key with
    ⟨lower, entry, upper, rfl, hentry, hpos, -⟩ | ⟨_, _, -, -, hfind, hpos, -⟩
  · rw [SortedEntries.find_here hasc hentry]
    simp only [hpos]
    simp
  · simp only [hpos, hfind]

theorem contains_eq
    (hasc : SortedEntries.Ascending comparator dict.entries) (key : κ) :
    dict.contains comparator key = (dict.get comparator key).isSome := by
  rw [get_eq_find hasc]
  obtain ⟨entries, rfl⟩ := exists_ofEntries dict
  rw [entries_ofEntries] at hasc ⊢
  unfold contains ofEntries
  rcases position_cases hasc key with
    ⟨lower, entry, upper, rfl, hentry, hpos, -⟩ | ⟨_, _, -, -, hfind, hpos, -⟩
  · rw [SortedEntries.find_here hasc hentry, hpos]
    rfl
  · rw [hpos, hfind]
    rfl

theorem entries_insertObject
    (hasc : SortedEntries.Ascending comparator dict.entries) {key : κ}
    (habsent : findKey comparator key dict.keys = none) (value : β) :
    (dict.insertObject comparator key value).entries =
      SortedEntries.insertAs comparator key key value dict.entries := by
  obtain ⟨entries, rfl⟩ := exists_ofEntries dict
  rw [entries_ofEntries] at hasc ⊢
  unfold ofEntries at habsent
  rcases position_cases hasc key with
    ⟨lower, entry, upper, rfl, hentry, hpos, -⟩ |
    ⟨lower, upper, hsplit, ⟨hbelow, habove⟩, -, -, hpos⟩
  · rw [hpos] at habsent
    contradiction
  · have hnew : (ofEntries entries).insertObject comparator key value =
        ofEntries (lower ++ (key, value) :: upper) := by
      simp only [insertObject, ofEntries, hpos]
      have hkeys := insertIdx_append (lower.map Prod.fst)
        (upper.map Prod.fst) key
      have hvalues := insertIdx_append (lower.map Prod.snd)
        (upper.map Prod.snd) value
      rw [List.length_map] at hkeys hvalues
      simp [hsplit, hkeys, hvalues]
    rw [hnew, entries_ofEntries, SortedEntries.insertAs, hbelow, habove]

theorem entries_replaceObject
    (hasc : SortedEntries.Ascending comparator dict.entries) {key : κ}
    {pos : ℕ} (hfound : findKey comparator key dict.keys = some pos)
    (value : β) :
    (dict.replaceObject pos key value).entries =
      SortedEntries.insertAs comparator key key value dict.entries := by
  obtain ⟨entries, rfl⟩ := exists_ofEntries dict
  rw [entries_ofEntries] at hasc ⊢
  unfold ofEntries at hfound
  rcases position_cases hasc key with
    ⟨lower, entry, upper, rfl, hentry, hpos, -⟩ | ⟨_, _, -, -, -, hpos, -⟩
  · rw [hpos, Option.some.injEq] at hfound
    subst hfound
    have hnew : (ofEntries (lower ++ entry :: upper)).replaceObject
          lower.length key value =
        ofEntries (lower ++ (key, value) :: upper) := by
      simp [replaceObject, ofEntries]
    rw [hnew, entries_ofEntries, SortedEntries.insertAs_here hasc hentry]
  · rw [hpos] at hfound
    contradiction

theorem entries_removeKey
    (hasc : SortedEntries.Ascending comparator dict.entries) (key : κ) :
    (dict.removeKey comparator key).entries =
      SortedEntries.erase comparator key dict.entries := by
  obtain ⟨entries, rfl⟩ := exists_ofEntries dict
  rw [entries_ofEntries] at hasc ⊢
  rcases position_cases hasc key with
    ⟨lower, entry, upper, rfl, hentry, hpos, -⟩ | ⟨_, _, -, -, hfind, hpos, -⟩
  · have hnew : (ofEntries (lower ++ entry :: upper)).removeKey
          comparator key = ofEntries (lower ++ upper) := by
      unfold removeKey
      rw [show (ofEntries (lower ++ entry :: upper)).keys =
        (lower ++ entry :: upper).map Prod.fst from rfl, hpos]
      simp [removeObjectAtIndex, ofEntries, List.eraseIdx_append_of_length_le]
    rw [hnew, entries_ofEntries, SortedEntries.erase_here hasc hentry]
  · have hsame : (ofEntries entries).removeKey comparator key =
        ofEntries entries := by
      unfold removeKey
      rw [show (ofEntries entries).keys = entries.map Prod.fst from rfl, hpos]
    rw [hsame, entries_ofEntries,
      SortedEntries.erase_of_find_eq_none hasc hfind]

theorem getPredecessorKey_eq
    (hasc : SortedEntries.Ascending comparator dict.entries) (key : κ) :
    dict.getPredecessorKey comparator key =
      match SortedEntries.find comparator key dict.entries with
      | none => .error .internalInconsistency
      | some _ => .ok ((SortedEntries.below comparator key
          dict.entries).getLast?.map Prod.fst) := by
  obtain ⟨entries, rfl⟩ := exists_ofEntries dict
  rw [entries_ofEntries] at hasc ⊢
  unfold getPredecessorKey
  rw [show (ofEntries entries).keys = entries.map Prod.fst from rfl]
  rcases position_cases hasc key with
    ⟨lower, entry, upper, rfl, hentry, hpos, -⟩ | ⟨_, _, -, -, hfind, hpos, -⟩
  · rw [hpos, SortedEntries.find_here hasc hentry,
      SortedEntries.below_here hasc hentry]
    rcases List.eq_nil_or_concat lower with rfl | ⟨front, last, rfl⟩
    · rfl
    · simp
  · rw [hpos, hfind]

end Entries

open FTreeSortedDictionary in
theorem fromDictionary_cases (comparator : κ → κ → Ordering)
    [Std.TransCmp comparator] (dictionary : List (κ × β)) :
    (dictionary.Pairwise fun first second =>
        comparator first.1 second.1 ≠ .eq) ∧
        (∃ dict, fromDictionary comparator dictionary = .ok dict ∧
          SortedEntries.Ascending comparator dict.entries ∧
          dict.entries.Perm dictionary) ∨
      ¬ (dictionary.Pairwise fun first second =>
        comparator first.1 second.1 ≠ .eq) ∧
        fromDictionary comparator dictionary = .error .sameOrdering := by
  have hperm := perm_sortUsingComparator comparator dictionary
  unfold fromDictionary
  dsimp only
  by_cases hdistinct : dictionary.Pairwise fun first second =>
      comparator first.1 second.1 ≠ .eq
  · have hasc := ascending_sortUsingComparator hdistinct
    rw [if_pos hasc.isChain]
    refine Or.inl ⟨hdistinct, _, rfl, ?_, ?_⟩
    · rw [entries_ofEntries]
      exact hasc
    · rw [entries_ofEntries]
      exact hperm
  · refine Or.inr ⟨hdistinct, if_neg fun hchain => hdistinct ?_⟩
    exact pairwise_ne_of_isChain hchain hperm

open FTreeSortedDictionary in
theorem fromDictionary_eq_of_perm {comparator : κ → κ → Ordering}
    [Std.TransCmp comparator] {first second : List (κ × β)}
    (hperm : first.Perm second) :
    fromDictionary comparator first = fromDictionary comparator second := by
  by_cases hdistinct : first.Pairwise fun entry other =>
      comparator entry.1 other.1 ≠ .eq
  · unfold fromDictionary
    rw [sortUsingComparator_eq_of_perm hdistinct hperm]
  · have hother : ¬ second.Pairwise fun entry other =>
        comparator entry.1 other.1 ≠ .eq :=
      fun hsecond => hdistinct (pairwise_ne_of_perm hperm.symm hsecond)
    rcases fromDictionary_cases comparator first with
      ⟨hfirst, -⟩ | ⟨-, hfirst⟩
    · exact absurd hfirst hdistinct
    · rcases fromDictionary_cases comparator second with
        ⟨hsecond, -⟩ | ⟨-, hsecond⟩
      · exact absurd hsecond hother
      · rw [hfirst, hsecond]

end FArraySortedDictionary

end FirebaseDatabase
