import Stockly.FTreeSortedDictionary

/-!
# Building a tree at once

A tree is built from sorted keys by the digits of their number in base {1, 2}:
every digit contributes one or two pennants, a node over a complete tree, and
the pennants hang to the left of one another from the greatest chunk of keys
down.
-/

universe u v

namespace FirebaseDatabase

variable {κ : Type u} {β : Type v}

structure Base1_2List where
  bits : ℕ
  count : ℕ
deriving DecidableEq, Repr

/-- The quotient of the logarithms is exact enough for every number of
32 bits. -/
def log_base2 (num : ℕ) : ℕ := num.log2

def bit_mask (x : ℕ) : ℕ := 2 ^ x - 1

def base1_2List_new (length : ℕ) : Base1_2List where
  bits := (length + 1) &&& bit_mask (log_base2 (length + 1))
  count := log_base2 (length + 1)

/-- What `base1_2List_next` returns when the list stands at `current`. -/
def Base1_2List.isOne (list : Base1_2List) (current : ℕ) : Bool :=
  !list.bits.testBit current

namespace FTreeSortedDictionary

open FLLRBNode

/-- The array is given with the values of its keys. -/
def buildBalancedTree (entries : List (κ × β)) (startIndex length : ℕ) :
    FLLRBNode κ β :=
  let length := min (entries.length - startIndex) length
  if length = 0 then emptyNode
  else
    match entries[startIndex + length / 2]? with
    | none => emptyNode
    | some entry =>
        if length = 1 then
          valueNode entry.1 entry.2 .black emptyNode emptyNode
        else
          valueNode entry.1 entry.2 .black
            (buildBalancedTree entries startIndex (length / 2))
            (buildBalancedTree entries (startIndex + length / 2 + 1)
              (length / 2))
termination_by length
decreasing_by all_goals omega

/-- The colors and the chunk sizes of the pennants for the digits which are
left, from the most significant one. -/
def chunks (base1_2List : Base1_2List) : ℕ → List (FLLRBColor × ℕ)
  | 0 => []
  | current + 1 =>
      let chunkSize := 2 ^ current
      if base1_2List.isOne current then
        (.black, chunkSize) :: chunks base1_2List current
      else
        (.black, chunkSize) :: (.red, chunkSize) ::
          chunks base1_2List current

/-- Each pennant takes its chunk below `index` and hangs to the left of the
pennant before it. -/
def buildPennants (entries : List (κ × β)) :
    ℕ → List (FLLRBColor × ℕ) → FLLRBNode κ β
  | _, [] => emptyNode
  | index, (color, chunkSize) :: rest =>
      let startIndex := index - chunkSize + 1
      let index := index - chunkSize
      let childTree := buildBalancedTree entries startIndex (chunkSize - 1)
      match entries[index]? with
      | none => emptyNode
      | some entry =>
          valueNode entry.1 entry.2 color (buildPennants entries index rest)
            childTree

def rootFrom12List (base1_2List : Base1_2List) (entries : List (κ × β)) :
    FLLRBNode κ β :=
  buildPennants entries entries.length
    (chunks base1_2List base1_2List.count)

inductive BuildFailure where
  | sameOrdering
deriving DecidableEq, Repr

def sortUsingComparator (comparator : κ → κ → Ordering)
    (entries : List (κ × β)) : List (κ × β) :=
  entries.insertionSort fun first second => (comparator first.1 second.1).isLE

/-- The dictionary is given by its entries, in the order in which they are
enumerated. -/
def fromDictionary (comparator : κ → κ → Ordering)
    (dictionary : List (κ × β)) :
    Except BuildFailure (FTreeSortedDictionary κ β) :=
  let sortedKeyList := sortUsingComparator comparator dictionary
  if sortedKeyList.IsChain fun first second =>
      comparator first.1 second.1 = .lt then
    .ok ⟨rootFrom12List (base1_2List_new sortedKeyList.length) sortedKeyList⟩
  else .error .sameOrdering

/-! ## Complete trees -/

theorem buildBalancedTree_zero (entries : List (κ × β)) (startIndex : ℕ) :
    buildBalancedTree entries startIndex 0 = emptyNode := by
  unfold buildBalancedTree
  simp

theorem buildBalancedTree_odd {entries : List (κ × β)}
    {startIndex middle : ℕ}
    (hroom : startIndex + (2 * middle + 1) ≤ entries.length) :
    ∃ key value, entries[startIndex + middle]? = some (key, value) ∧
      buildBalancedTree entries startIndex (2 * middle + 1) =
        valueNode key value .black
          (buildBalancedTree entries startIndex middle)
          (buildBalancedTree entries (startIndex + middle + 1) middle) := by
  have hbound : startIndex + middle < entries.length := by omega
  have hlength : min (entries.length - startIndex) (2 * middle + 1) =
      2 * middle + 1 := by
    omega
  have hhalf : (2 * middle + 1) / 2 = middle := by omega
  refine ⟨entries[startIndex + middle].1, entries[startIndex + middle].2,
    List.getElem?_eq_getElem hbound, ?_⟩
  conv_lhs => unfold buildBalancedTree
  simp only [hlength, hhalf, List.getElem?_eq_getElem hbound]
  rw [if_neg (by omega)]
  by_cases hmiddle : middle = 0
  · subst hmiddle
    simp [buildBalancedTree_zero]
  · rw [if_neg (by omega)]

theorem take_append_cons {entries : List (κ × β)} {startIndex middle : ℕ}
    {entry : κ × β} (hentry : entries[startIndex + middle]? = some entry)
    (rest : ℕ) :
    (entries.drop startIndex).take (middle + 1 + rest) =
      (entries.drop startIndex).take middle ++
        entry :: (entries.drop (startIndex + middle + 1)).take rest := by
  have hdrop : entries.drop (startIndex + middle) =
      entry :: entries.drop (startIndex + middle + 1) := by
    obtain ⟨hbound, hvalue⟩ := List.getElem?_eq_some_iff.mp hentry
    rw [List.drop_eq_getElem_cons hbound, hvalue]
  rw [Nat.add_assoc, List.take_add, List.drop_drop, hdrop, Nat.add_comm 1,
    List.take_succ_cons]

theorem buildBalancedTree_complete {entries : List (κ × β)}
    (height startIndex : ℕ)
    (hroom : startIndex + (2 ^ height - 1) ≤ entries.length) :
    (buildBalancedTree entries startIndex (2 ^ height - 1)).inorderTraversal =
        (entries.drop startIndex).take (2 ^ height - 1) ∧
      (buildBalancedTree entries startIndex (2 ^ height - 1)).Balanced
        height ∧
      (buildBalancedTree entries startIndex (2 ^ height - 1)).isRed =
        false := by
  induction height generalizing startIndex with
  | zero =>
      rw [Nat.pow_zero, Nat.sub_self, buildBalancedTree_zero]
      exact ⟨List.take_zero.symm, .empty, rfl⟩
  | succ height ih =>
      have hpos : 0 < 2 ^ height := Nat.two_pow_pos height
      have hsize : 2 ^ (height + 1) - 1 = 2 * (2 ^ height - 1) + 1 := by
        rw [Nat.pow_succ]
        omega
      rw [hsize] at hroom ⊢
      obtain ⟨key, value, hmiddle, hnode⟩ := buildBalancedTree_odd hroom
      obtain ⟨hleft, hleftBalanced, -⟩ := ih startIndex (by omega)
      obtain ⟨hright, hrightBalanced, hrightBlack⟩ :=
        ih (startIndex + (2 ^ height - 1) + 1) (by omega)
      rw [hnode]
      refine ⟨?_, .black hleftBalanced hrightBalanced hrightBlack, rfl⟩
      have hsplit : 2 * (2 ^ height - 1) + 1 =
          2 ^ height - 1 + 1 + (2 ^ height - 1) := by
        omega
      rw [inorderTraversal, hleft, hright, hsplit, take_append_cons hmiddle]

/-! ## Pennants -/

/-- The keys which the pennants of the lower digits take. -/
def below12 (base1_2List : Base1_2List) (current : ℕ) : ℕ :=
  2 ^ current - 1 + base1_2List.bits % 2 ^ current

theorem below12_succ (base1_2List : Base1_2List) (current : ℕ) :
    below12 base1_2List (current + 1) =
      below12 base1_2List current + 2 ^ current +
        if base1_2List.isOne current then 0 else 2 ^ current := by
  have hpos : 0 < 2 ^ current := Nat.two_pow_pos current
  have hdigit : base1_2List.bits / 2 ^ current % 2 =
      (base1_2List.bits.testBit current).toNat :=
    (Nat.toNat_testBit base1_2List.bits current).symm
  unfold below12 Base1_2List.isOne
  rw [Nat.mod_pow_succ, hdigit, Nat.pow_succ]
  cases base1_2List.bits.testBit current <;> simp <;> omega

/-- A pennant over the tree of the keys below it. -/
theorem buildPennants_cons {entries : List (κ × β)} {below height : ℕ}
    (hroom : below + 2 ^ height ≤ entries.length) (color : FLLRBColor)
    (rest : List (FLLRBColor × ℕ)) :
    ∃ key value childTree,
      buildPennants entries (below + 2 ^ height) ((color, 2 ^ height) :: rest) =
        valueNode key value color (buildPennants entries below rest)
          childTree ∧
      (childTree.Balanced height ∧ childTree.isRed = false) ∧
      ((buildPennants entries below rest).inorderTraversal =
          entries.take below →
        (valueNode key value color (buildPennants entries below rest)
          childTree).inorderTraversal = entries.take (below + 2 ^ height)) := by
  have hpos : 0 < 2 ^ height := Nat.two_pow_pos height
  obtain ⟨hchild, hbalanced, hblack⟩ :=
    @buildBalancedTree_complete _ _ entries height (below + 1) (by omega)
  have hbound : below < entries.length := by omega
  have hentry : entries[0 + below]? = some entries[below] := by
    rw [Nat.zero_add]
    exact List.getElem?_eq_getElem hbound
  refine ⟨entries[below].1, entries[below].2, _, ?_, ⟨hbalanced, hblack⟩,
    fun hbelow => ?_⟩
  · simp only [buildPennants, Nat.add_sub_cancel,
      List.getElem?_eq_getElem hbound]
  · have hsplit := take_append_cons hentry (2 ^ height - 1)
    have hsize : below + 1 + (2 ^ height - 1) = below + 2 ^ height := by omega
    rw [List.drop_zero, Nat.zero_add, hsize] at hsplit
    rw [inorderTraversal, hbelow, hchild, hsplit]

theorem buildPennants_chunks {base1_2List : Base1_2List}
    {entries : List (κ × β)} {current : ℕ}
    (hroom : below12 base1_2List current ≤ entries.length) :
    ((buildPennants entries (below12 base1_2List current)
          (chunks base1_2List current)).Balanced current ∧
        (buildPennants entries (below12 base1_2List current)
          (chunks base1_2List current)).isRed = false) ∧
      (buildPennants entries (below12 base1_2List current)
          (chunks base1_2List current)).inorderTraversal =
        entries.take (below12 base1_2List current) := by
  induction current with
  | zero =>
      have hnone : below12 base1_2List 0 = 0 := by simp [below12, Nat.mod_one]
      rw [hnone, chunks, buildPennants]
      exact ⟨⟨.empty, rfl⟩, List.take_zero.symm⟩
  | succ current ih =>
      have hindex := below12_succ base1_2List current
      have hpos : 0 < 2 ^ current := Nat.two_pow_pos current
      rw [hindex] at hroom ⊢
      unfold chunks
      dsimp only
      by_cases hone : base1_2List.isOne current = true
      · rw [if_pos hone, Nat.add_zero] at hroom ⊢
        obtain ⟨⟨hrest, -⟩, hentries⟩ := ih (by omega)
        obtain ⟨key, value, childTree, hnode, ⟨hchild, hchildBlack⟩,
          hinorder⟩ := buildPennants_cons hroom .black
            (chunks base1_2List current)
        rw [if_pos hone, hnode]
        exact ⟨⟨.black hrest hchild hchildBlack, rfl⟩, hinorder hentries⟩
      · rw [if_neg hone] at hroom ⊢
        obtain ⟨⟨hrest, hrestBlack⟩, hentries⟩ := ih (by omega)
        obtain ⟨redKey, redValue, redChild, hred, ⟨hredTree, hredBlack⟩,
          hredInorder⟩ := @buildPennants_cons _ _ entries
            (below12 base1_2List current) current (by omega) .red
              (chunks base1_2List current)
        obtain ⟨key, value, childTree, hnode, ⟨hchild, hchildBlack⟩,
          hinorder⟩ := buildPennants_cons hroom .black
            ((.red, 2 ^ current) :: chunks base1_2List current)
        rw [if_neg hone, hnode]
        rw [hred] at hinorder ⊢
        exact ⟨⟨.black (.red hrest hredTree hrestBlack hredBlack) hchild
          hchildBlack, rfl⟩, hinorder (hredInorder hentries)⟩

theorem below12_new (length : ℕ) :
    below12 (base1_2List_new length) (base1_2List_new length).count =
      length := by
  have hlow : 2 ^ (length + 1).log2 ≤ length + 1 :=
    Nat.log2_self_le (Nat.succ_ne_zero length)
  have hhigh : length + 1 < 2 ^ ((length + 1).log2 + 1) := Nat.lt_log2_self
  rw [Nat.pow_succ] at hhigh
  have hrest : (length + 1) % 2 ^ (length + 1).log2 =
      length + 1 - 2 ^ (length + 1).log2 := by
    rw [Nat.mod_eq_sub_mod hlow, Nat.mod_eq_of_lt (by omega)]
  unfold below12 base1_2List_new log_base2 bit_mask
  dsimp only
  rw [Nat.and_two_pow_sub_one_eq_mod, Nat.mod_mod, hrest]
  omega

theorem rootFrom12List_new (entries : List (κ × β)) :
    (∃ depth, (rootFrom12List (base1_2List_new entries.length)
        entries).Balanced depth) ∧
      (rootFrom12List (base1_2List_new entries.length)
        entries).inorderTraversal = entries := by
  have hlength := below12_new entries.length
  obtain ⟨⟨hbalanced, -⟩, hentries⟩ :=
    @buildPennants_chunks _ _ _ entries _ hlength.le
  rw [hlength] at hbalanced hentries
  exact ⟨⟨_, hbalanced⟩, hentries.trans List.take_length⟩

/-! ## Sorting -/

theorem perm_sortUsingComparator (comparator : κ → κ → Ordering)
    (dictionary : List (κ × β)) :
    (sortUsingComparator comparator dictionary).Perm dictionary :=
  List.perm_insertionSort _ dictionary

section FromDictionary

variable {comparator : κ → κ → Ordering} [Std.TransCmp comparator]

theorem ascending_of_isChain {entries : List (κ × β)}
    (hchain : entries.IsChain fun first second =>
      comparator first.1 second.1 = .lt) :
    SortedEntries.Ascending comparator entries := by
  have : IsTrans (κ × β) fun first second =>
      comparator first.1 second.1 = .lt :=
    ⟨fun _ _ _ => Std.TransCmp.lt_trans⟩
  exact List.isChain_iff_pairwise.mp hchain

theorem pairwise_ne_of_perm {first second : List (κ × β)}
    (hperm : first.Perm second)
    (hdistinct : first.Pairwise fun entry other =>
      comparator entry.1 other.1 ≠ .eq) :
    second.Pairwise fun entry other => comparator entry.1 other.1 ≠ .eq :=
  hperm.pairwise hdistinct fun hne heq => hne (Std.OrientedCmp.eq_symm heq)

theorem ascending_sortUsingComparator {dictionary : List (κ × β)}
    (hdistinct : dictionary.Pairwise fun first second =>
      comparator first.1 second.1 ≠ .eq) :
    SortedEntries.Ascending comparator
      (sortUsingComparator comparator dictionary) := by
  have : Std.Total fun first second : κ × β =>
      (comparator first.1 second.1).isLE = true := ⟨fun first second => by
    by_cases hle : (comparator first.1 second.1).isLE = true
    · exact Or.inl hle
    · exact Or.inr (Ordering.isLE_of_eq_lt
        (Std.OrientedCmp.lt_of_not_isLE hle))⟩
  have : IsTrans (κ × β) fun first second =>
      (comparator first.1 second.1).isLE = true :=
    ⟨fun _ _ _ => Std.TransCmp.isLE_trans⟩
  have hsorted : (sortUsingComparator comparator dictionary).Pairwise
      fun first second => (comparator first.1 second.1).isLE = true :=
    List.pairwise_insertionSort _ dictionary
  have hapart := (perm_sortUsingComparator comparator dictionary).symm.pairwise hdistinct
      (fun hne heq => hne (Std.OrientedCmp.eq_symm heq))
  refine (hsorted.and hapart).imp ?_
  rintro first second ⟨hle, hne⟩
  rcases Ordering.isLE_iff_eq_lt_or_eq_eq.mp hle with hlt | heq
  · exact hlt
  · exact absurd heq hne

theorem pairwise_ne_of_isChain {dictionary sorted : List (κ × β)}
    (hchain : sorted.IsChain fun first second =>
      comparator first.1 second.1 = .lt)
    (hperm : sorted.Perm dictionary) :
    dictionary.Pairwise fun first second =>
      comparator first.1 second.1 ≠ .eq := by
  refine pairwise_ne_of_perm hperm ((ascending_of_isChain hchain).imp ?_)
  intro first second hlt
  rw [hlt]
  decide

variable (comparator) in
/-- The conversion throws exactly when two keys have the same order, and
otherwise the tree holds the entries, in whatever order they were enumerated. -/
theorem fromDictionary_cases (dictionary : List (κ × β)) :
    (dictionary.Pairwise fun first second =>
        comparator first.1 second.1 ≠ .eq) ∧
        (∃ dict, fromDictionary comparator dictionary = .ok dict ∧
          dict.WellFormed comparator ∧ dict.entries.Perm dictionary) ∨
      ¬ (dictionary.Pairwise fun first second =>
        comparator first.1 second.1 ≠ .eq) ∧
        fromDictionary comparator dictionary = .error .sameOrdering := by
  have hperm := perm_sortUsingComparator comparator dictionary
  unfold fromDictionary
  dsimp only
  by_cases hdistinct : dictionary.Pairwise fun first second =>
      comparator first.1 second.1 ≠ .eq
  · have hasc := ascending_sortUsingComparator hdistinct
    obtain ⟨hbalanced, hentries⟩ :=
      rootFrom12List_new (sortUsingComparator comparator dictionary)
    have hchain : (sortUsingComparator comparator dictionary).IsChain
        fun first second => comparator first.1 second.1 = .lt :=
      hasc.isChain
    rw [if_pos hchain]
    refine Or.inl ⟨hdistinct, _, rfl, ⟨?_, hbalanced⟩, ?_⟩
    · unfold entries
      rw [hentries]
      exact hasc
    · unfold entries
      rw [hentries]
      exact hperm
  · refine Or.inr ⟨hdistinct, if_neg fun hchain => hdistinct ?_⟩
    exact pairwise_ne_of_isChain hchain hperm

theorem sortUsingComparator_eq_of_perm {first second : List (κ × β)}
    (hdistinct : first.Pairwise fun entry other =>
      comparator entry.1 other.1 ≠ .eq)
    (hperm : first.Perm second) :
    sortUsingComparator comparator first =
      sortUsingComparator comparator second :=
  SortedEntries.eq_of_perm (ascending_sortUsingComparator hdistinct)
    (ascending_sortUsingComparator (pairwise_ne_of_perm hperm hdistinct))
    ((perm_sortUsingComparator comparator first).trans
      (hperm.trans (perm_sortUsingComparator comparator second).symm))

/-- The order of the enumeration does not show. -/
theorem fromDictionary_eq_of_perm {first second : List (κ × β)}
    (hperm : first.Perm second) :
    fromDictionary comparator first = fromDictionary comparator second := by
  by_cases hdistinct : first.Pairwise fun entry other =>
      comparator entry.1 other.1 ≠ .eq
  · unfold fromDictionary
    rw [sortUsingComparator_eq_of_perm hdistinct hperm]
  · have hother : ¬ second.Pairwise fun entry other =>
        comparator entry.1 other.1 ≠ .eq :=
      fun hsecond => hdistinct (pairwise_ne_of_perm hperm.symm hsecond)
    rcases fromDictionary_cases comparator first with ⟨hfirst, -⟩ | ⟨-, hfirst⟩
    · exact absurd hfirst hdistinct
    · rcases fromDictionary_cases comparator second with ⟨hsecond, -⟩ | ⟨-, hsecond⟩
      · exact absurd hsecond hother
      · rw [hfirst, hsecond]

end FromDictionary

end FTreeSortedDictionary

end FirebaseDatabase
