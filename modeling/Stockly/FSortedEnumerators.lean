import Stockly.FImmutableSortedDictionary

/-!
# The key enumerators

An enumerator hands out one key after another until it returns nil.  The one
over a tree keeps a stack of the nodes it still has to hand out, each standing
for itself and the subtree behind it; the one over an array keeps a position.
-/

universe u v w

namespace FirebaseDatabase

variable {κ : Type u} {β : Type v}

/-- `nextObject` hands out these keys and then nil. -/
inductive Yields {σ : Type w} (nextObject : σ → Option (κ × σ)) :
    σ → List κ → Prop where
  | done {state : σ} (hnil : nextObject state = none) :
      Yields nextObject state []
  | next {state rest : σ} {key : κ} {keys : List κ}
      (hnext : nextObject state = some (key, rest))
      (hrest : Yields nextObject rest keys) :
      Yields nextObject state (key :: keys)

/-- The last object of the stack comes first. -/
structure FTreeSortedDictionaryEnumerator (κ : Type u) (β : Type v) where
  stack : List (FLLRBNode κ β)
  isReverse : Bool
deriving DecidableEq, Repr

namespace FTreeSortedDictionaryEnumerator

open FLLRBNode

/-- The loop of `initWithImmutableSortedDictionary:`; without a start key the
comparison is 1, and it is flipped in reverse all the same. -/
def descend (comparator : κ → κ → Ordering) (startKey : Option κ)
    (isReverse : Bool) :
    FLLRBNode κ β → List (FLLRBNode κ β) → List (FLLRBNode κ β)
  | emptyNode, stack => stack
  | valueNode key value color left right, stack =>
      let cmp := startKey.elim .gt fun startKey => comparator key startKey
      match if isReverse then cmp.swap else cmp with
      | .lt =>
          if isReverse then descend comparator startKey isReverse left stack
          else descend comparator startKey isReverse right stack
      | .eq => valueNode key value color left right :: stack
      | .gt =>
          let stack := valueNode key value color left right :: stack
          if isReverse then descend comparator startKey isReverse right stack
          else descend comparator startKey isReverse left stack

def initWithImmutableSortedDictionary (comparator : κ → κ → Ordering)
    (dict : FTreeSortedDictionary κ β) (startKey : Option κ)
    (isReverse : Bool) : FTreeSortedDictionaryEnumerator κ β :=
  ⟨descend comparator startKey isReverse dict.root [], isReverse⟩

/-- The loops of `nextObject`. -/
def pushAll (isReverse : Bool) :
    FLLRBNode κ β → List (FLLRBNode κ β) → List (FLLRBNode κ β)
  | emptyNode, stack => stack
  | valueNode key value color left right, stack =>
      let stack := valueNode key value color left right :: stack
      if isReverse then pushAll isReverse right stack
      else pushAll isReverse left stack

def nextObject (enumerator : FTreeSortedDictionaryEnumerator κ β) :
    Option (κ × FTreeSortedDictionaryEnumerator κ β) :=
  match enumerator.stack with
  | [] => none
  | emptyNode :: _ => none
  | valueNode key _ _ left right :: stack =>
      let node := if enumerator.isReverse then left else right
      some (key, { enumerator with
        stack := pushAll enumerator.isReverse node stack })

/-! ## What is still to come -/

def traversal (isReverse : Bool) (node : FLLRBNode κ β) : List (κ × β) :=
  if isReverse then node.inorderTraversal.reverse else node.inorderTraversal

/-- A node on the stack and the subtree behind it. -/
def pendingNode (isReverse : Bool) : FLLRBNode κ β → List (κ × β)
  | emptyNode => []
  | valueNode key value _ left right =>
      (key, value) :: traversal isReverse (if isReverse then left else right)

def pending (isReverse : Bool) (stack : List (FLLRBNode κ β)) :
    List (κ × β) :=
  stack.flatMap (pendingNode isReverse)

theorem pending_nil (isReverse : Bool) :
    pending isReverse ([] : List (FLLRBNode κ β)) = [] := rfl

theorem pending_cons (isReverse : Bool) (node : FLLRBNode κ β)
    (stack : List (FLLRBNode κ β)) :
    pending isReverse (node :: stack) =
      pendingNode isReverse node ++ pending isReverse stack :=
  List.flatMap_cons

theorem pending_pushAll (isReverse : Bool) (node : FLLRBNode κ β)
    (stack : List (FLLRBNode κ β)) :
    pending isReverse (pushAll isReverse node stack) =
      traversal isReverse node ++ pending isReverse stack := by
  induction node generalizing stack with
  | emptyNode => cases isReverse <;> rfl
  | valueNode key value color left right ihleft ihright =>
      cases isReverse with
      | false =>
          simp only [pushAll, Bool.false_eq_true, if_false, ihleft]
          simp [pending_cons, pendingNode, traversal, inorderTraversal]
      | true =>
          simp only [pushAll, if_true, ihright]
          simp [pending_cons, pendingNode, traversal, inorderTraversal]

theorem pushAll_ne_emptyNode {isReverse : Bool} {node : FLLRBNode κ β}
    {stack : List (FLLRBNode κ β)}
    (hstack : ∀ other ∈ stack, other.isEmpty = false) :
    ∀ other ∈ pushAll isReverse node stack, other.isEmpty = false := by
  induction node generalizing stack with
  | emptyNode => exact hstack
  | valueNode key value color left right ihleft ihright =>
      have hpushed : ∀ other ∈ valueNode key value color left right :: stack,
          other.isEmpty = false :=
        List.forall_mem_cons.mpr ⟨rfl, hstack⟩
      cases isReverse with
      | false => simpa [pushAll] using ihleft hpushed
      | true => simpa [pushAll] using ihright hpushed

theorem yields_pending (enumerator : FTreeSortedDictionaryEnumerator κ β)
    (hstack : ∀ node ∈ enumerator.stack, node.isEmpty = false) :
    Yields nextObject enumerator
      ((pending enumerator.isReverse enumerator.stack).map Prod.fst) := by
  induction hlength : (pending enumerator.isReverse enumerator.stack).length
    generalizing enumerator with
  | zero =>
      obtain ⟨stack, isReverse⟩ := enumerator
      cases stack with
      | nil => exact .done rfl
      | cons node stack =>
          rw [List.forall_mem_cons] at hstack
          cases node with
          | emptyNode => exact absurd hstack.1 (by simp [isEmpty])
          | valueNode => simp [pending_cons, pendingNode] at hlength
  | succ length ih =>
      obtain ⟨stack, isReverse⟩ := enumerator
      cases stack with
      | nil => simp [pending] at hlength
      | cons node stack =>
          rw [List.forall_mem_cons] at hstack
          cases node with
          | emptyNode => exact absurd hstack.1 (by simp [isEmpty])
          | valueNode key value color left right =>
              have hpending : pending isReverse (pushAll isReverse
                    (if isReverse then left else right) stack) =
                  (pending isReverse
                    (valueNode key value color left right :: stack)).tail := by
                rw [pending_pushAll]
                simp [pending_cons, pendingNode]
              have hrest := ih ⟨pushAll isReverse
                  (if isReverse then left else right) stack, isReverse⟩
                (pushAll_ne_emptyNode hstack.2)
                (by
                  dsimp only at hlength ⊢
                  rw [hpending, List.length_tail, hlength]
                  rfl)
              dsimp only at hrest
              rw [hpending] at hrest
              exact .next rfl hrest

/-! ## Where the stack starts -/

theorem descend_ne_emptyNode {comparator : κ → κ → Ordering}
    {startKey : Option κ} {isReverse : Bool} {node : FLLRBNode κ β}
    {stack : List (FLLRBNode κ β)}
    (hstack : ∀ other ∈ stack, other.isEmpty = false) :
    ∀ other ∈ descend comparator startKey isReverse node stack,
      other.isEmpty = false := by
  induction node generalizing stack with
  | emptyNode => exact hstack
  | valueNode key value color left right ihleft ihright =>
      have hpushed : ∀ other ∈ valueNode key value color left right :: stack,
          other.isEmpty = false :=
        List.forall_mem_cons.mpr ⟨rfl, hstack⟩
      unfold descend
      dsimp only
      split
      · split
        · exact ihleft hstack
        · exact ihright hstack
      · exact hpushed
      · split
        · exact ihright hpushed
        · exact ihleft hpushed

/-- In reverse and without a start key nothing is ever pushed. -/
theorem descend_reverse_none (comparator : κ → κ → Ordering)
    (node : FLLRBNode κ β) (stack : List (FLLRBNode κ β)) :
    descend comparator none true node stack = stack := by
  induction node with
  | emptyNode => rfl
  | valueNode key value color left right ihleft ihright =>
      simpa [descend] using ihleft

theorem descend_forward_none (comparator : κ → κ → Ordering)
    (node : FLLRBNode κ β) (stack : List (FLLRBNode κ β)) :
    descend comparator none false node stack = pushAll false node stack := by
  induction node generalizing stack with
  | emptyNode => rfl
  | valueNode key value color left right ihleft ihright =>
      simpa [descend, pushAll] using ihleft _

section Ascending

variable {comparator : κ → κ → Ordering} [Std.TransCmp comparator]

theorem pending_descend_forward {node : FLLRBNode κ β}
    (hasc : SortedEntries.Ascending comparator node.inorderTraversal)
    (startKey : κ) (stack : List (FLLRBNode κ β)) :
    pending false (descend comparator (some startKey) false node stack) =
      SortedEntries.startingAt comparator startKey node.inorderTraversal ++
        pending false stack := by
  induction node generalizing stack with
  | emptyNode => rfl
  | valueNode key value color left right ihleft ihright =>
      rcases SortedEntries.ascending_append_cons.mp hasc with
        ⟨⟨hleft, hright⟩, -⟩
      simp only [descend, inorderTraversal, Option.elim_some] at hasc ⊢
      cases hkey : comparator key startKey with
      | lt =>
          have hstart : comparator startKey key = .gt :=
            Std.OrientedCmp.gt_of_lt hkey
          rw [SortedEntries.startingAt_right hasc hstart]
          simpa using ihright hright stack
      | eq =>
          have hstart : comparator startKey key = .eq :=
            Std.OrientedCmp.eq_symm hkey
          rw [SortedEntries.startingAt_here hasc hstart]
          simp [pending_cons, pendingNode, traversal]
      | gt =>
          have hstart : comparator startKey key = .lt :=
            Std.OrientedCmp.lt_of_gt hkey
          rw [SortedEntries.startingAt_left hasc hstart]
          simp [ihleft hleft, pending_cons, pendingNode, traversal]

theorem pending_descend_reverse {node : FLLRBNode κ β}
    (hasc : SortedEntries.Ascending comparator node.inorderTraversal)
    (startKey : κ) (stack : List (FLLRBNode κ β)) :
    pending true (descend comparator (some startKey) true node stack) =
      (SortedEntries.upTo comparator startKey node.inorderTraversal).reverse ++
        pending true stack := by
  induction node generalizing stack with
  | emptyNode => rfl
  | valueNode key value color left right ihleft ihright =>
      rcases SortedEntries.ascending_append_cons.mp hasc with
        ⟨⟨hleft, hright⟩, -⟩
      simp only [descend, inorderTraversal, Option.elim_some] at hasc ⊢
      cases hkey : comparator key startKey with
      | lt =>
          have hstart : comparator startKey key = .gt :=
            Std.OrientedCmp.gt_of_lt hkey
          rw [SortedEntries.upTo_right hasc hstart]
          simp [ihright hright, pending_cons, pendingNode, traversal]
      | eq =>
          have hstart : comparator startKey key = .eq :=
            Std.OrientedCmp.eq_symm hkey
          rw [SortedEntries.upTo_here hasc hstart]
          simp [pending_cons, pendingNode, traversal]
      | gt =>
          have hstart : comparator startKey key = .lt :=
            Std.OrientedCmp.lt_of_gt hkey
          rw [SortedEntries.upTo_left hasc hstart]
          simpa using ihleft hleft stack

end Ascending

end FTreeSortedDictionaryEnumerator

/-! ## The enumerators of an array -/

structure FArraySortedDictionaryEnumerator (κ : Type u) where
  keys : List κ
  pos : ℤ
  isReverse : Bool
deriving DecidableEq, Repr

namespace FArraySortedDictionaryEnumerator

def nextObject (enumerator : FArraySortedDictionaryEnumerator κ) :
    Option (κ × FArraySortedDictionaryEnumerator κ) :=
  let pos := enumerator.pos
  if 0 ≤ pos ∧ pos < enumerator.keys.length then
    enumerator.keys[pos.toNat]?.map fun key =>
      (key, { enumerator with
        pos := if enumerator.isReverse then pos - 1 else pos + 1 })
  else none

theorem yields_forward (keys : List κ) (pos : ℕ) :
    Yields nextObject ⟨keys, pos, false⟩ (keys.drop pos) := by
  induction hleft : keys.length - pos generalizing pos with
  | zero =>
      rw [List.drop_eq_nil_of_le (by omega)]
      refine .done (if_neg ?_)
      dsimp only
      omega
  | succ left ih =>
      have hbound : pos < keys.length := by omega
      rw [List.drop_eq_getElem_cons hbound]
      refine .next ?_ (ih (pos + 1) (by omega))
      simp [nextObject, hbound]

theorem yields_reverse (keys : List κ) (size : ℕ)
    (hsize : size ≤ keys.length) :
    Yields nextObject ⟨keys, (size : ℤ) - 1, true⟩
      (keys.take size).reverse := by
  induction size with
  | zero => exact .done (by simp [nextObject])
  | succ size ih =>
      have hbound : size < keys.length := hsize
      rw [List.take_succ_eq_append_getElem hbound, List.reverse_append]
      refine .next ?_ (ih (by omega))
      simp [nextObject, hbound]

end FArraySortedDictionaryEnumerator

namespace FArraySortedDictionary

/-- The arrays' own enumerators read them from either end. -/
def keyEnumerator (dict : FArraySortedDictionary κ β) :
    FArraySortedDictionaryEnumerator κ :=
  ⟨dict.keys, 0, false⟩

def reverseKeyEnumerator (dict : FArraySortedDictionary κ β) :
    FArraySortedDictionaryEnumerator κ :=
  ⟨dict.keys, (dict.keys.length : ℤ) - 1, true⟩

def keyEnumeratorFrom (comparator : κ → κ → Ordering)
    (dict : FArraySortedDictionary κ β) (startKey : κ) :
    FArraySortedDictionaryEnumerator κ :=
  ⟨dict.keys, findInsertPosition comparator startKey dict.keys, false⟩

def reverseKeyEnumeratorFrom (comparator : κ → κ → Ordering)
    (dict : FArraySortedDictionary κ β) (startKey : κ) :
    FArraySortedDictionaryEnumerator κ :=
  let startPos := findInsertPosition comparator startKey dict.keys
  let isMatch := dict.keys[startPos]?.any fun key =>
    comparator key startKey = .eq
  ⟨dict.keys, if isMatch then startPos else (startPos : ℤ) - 1, true⟩

theorem yields_keyEnumerator (dict : FArraySortedDictionary κ β) :
    Yields FArraySortedDictionaryEnumerator.nextObject dict.keyEnumerator
      (dict.entries.map Prod.fst) := by
  rw [map_fst_entries]
  exact FArraySortedDictionaryEnumerator.yields_forward dict.keys 0

theorem yields_reverseKeyEnumerator (dict : FArraySortedDictionary κ β) :
    Yields FArraySortedDictionaryEnumerator.nextObject
      dict.reverseKeyEnumerator (dict.entries.map Prod.fst).reverse := by
  have hyields := FArraySortedDictionaryEnumerator.yields_reverse dict.keys
    dict.keys.length (Nat.le_refl _)
  rw [List.take_length] at hyields
  rw [map_fst_entries]
  exact hyields

theorem yields_keyEnumeratorFrom {comparator : κ → κ → Ordering}
    [Std.TransCmp comparator] {dict : FArraySortedDictionary κ β}
    (hasc : SortedEntries.Ascending comparator dict.entries) (startKey : κ) :
    Yields FArraySortedDictionaryEnumerator.nextObject
      (dict.keyEnumeratorFrom comparator startKey)
      ((SortedEntries.startingAt comparator startKey
        dict.entries).map Prod.fst) := by
  have hyields := FArraySortedDictionaryEnumerator.yields_forward dict.keys
    (findInsertPosition comparator startKey dict.keys)
  suffices hdrop : dict.keys.drop
      (findInsertPosition comparator startKey dict.keys) =
        (SortedEntries.startingAt comparator startKey
          dict.entries).map Prod.fst by
    rw [hdrop] at hyields
    exact hyields
  obtain ⟨entries, rfl⟩ := exists_ofEntries dict
  rw [entries_ofEntries] at hasc ⊢
  change (entries.map Prod.fst).drop
    (findInsertPosition comparator startKey (entries.map Prod.fst)) = _
  rcases position_cases hasc startKey with
    ⟨lower, entry, upper, rfl, hentry, -, hpos⟩ |
    ⟨lower, upper, hsplit, ⟨-, habove⟩, hfind, -, hpos⟩
  · rw [hpos, SortedEntries.startingAt_here hasc hentry]
    simp
  · rw [hpos, SortedEntries.startingAt_of_find_eq_none hfind, habove, hsplit]
    simp

theorem yields_reverseKeyEnumeratorFrom {comparator : κ → κ → Ordering}
    [Std.TransCmp comparator] {dict : FArraySortedDictionary κ β}
    (hasc : SortedEntries.Ascending comparator dict.entries) (startKey : κ) :
    Yields FArraySortedDictionaryEnumerator.nextObject
      (dict.reverseKeyEnumeratorFrom comparator startKey)
      (((SortedEntries.upTo comparator startKey
        dict.entries).map Prod.fst).reverse) := by
  obtain ⟨entries, rfl⟩ := exists_ofEntries dict
  rw [entries_ofEntries] at hasc ⊢
  unfold reverseKeyEnumeratorFrom
  rw [show (ofEntries entries).keys = entries.map Prod.fst from rfl]
  dsimp only
  rcases position_cases hasc startKey with
    ⟨lower, entry, upper, rfl, hentry, -, hpos⟩ |
    ⟨lower, upper, rfl, ⟨hbelow, habove⟩, hfind, -, hpos⟩
  · -- the position is that of the match
    rw [hpos, SortedEntries.upTo_here hasc hentry]
    have htake : ((lower ++ entry :: upper).map Prod.fst).take
        (lower.length + 1) = (lower ++ [entry]).map Prod.fst := by
      rw [List.append_cons, List.map_append]
      exact List.take_left' (by simp)
    have hyields := FArraySortedDictionaryEnumerator.yields_reverse
      ((lower ++ entry :: upper).map Prod.fst) (lower.length + 1) (by simp)
    rw [htake] at hyields
    simpa [Std.OrientedCmp.eq_symm hentry] using hyields
  · -- the position is one past the keys before
    rw [hpos, SortedEntries.upTo_of_find_eq_none hfind, hbelow]
    have hmiss : (((lower ++ upper).map Prod.fst)[lower.length]?.any
        fun key => comparator key startKey = .eq) = false := by
      rw [Option.any_eq_false]
      intro key hkey
      obtain ⟨entry, hentry, rfl⟩ :=
        List.mem_map.mp (List.mem_of_getElem? hkey)
      have hne := SortedEntries.find_eq_none_iff.mp hfind entry hentry
      simpa using fun heq => hne (Std.OrientedCmp.eq_symm heq)
    have htake : ((lower ++ upper).map Prod.fst).take lower.length =
        lower.map Prod.fst := by
      rw [List.map_append]
      exact List.take_left' (by simp)
    have hyields := FArraySortedDictionaryEnumerator.yields_reverse
      ((lower ++ upper).map Prod.fst) lower.length (by simp)
    rw [htake] at hyields
    rw [hmiss]
    exact hyields

end FArraySortedDictionary

namespace FTreeSortedDictionary

open FTreeSortedDictionaryEnumerator

def keyEnumerator (comparator : κ → κ → Ordering)
    (dict : FTreeSortedDictionary κ β) : FTreeSortedDictionaryEnumerator κ β :=
  initWithImmutableSortedDictionary comparator dict none false

def keyEnumeratorFrom (comparator : κ → κ → Ordering)
    (dict : FTreeSortedDictionary κ β) (startKey : κ) :
    FTreeSortedDictionaryEnumerator κ β :=
  initWithImmutableSortedDictionary comparator dict (some startKey) false

def reverseKeyEnumerator (comparator : κ → κ → Ordering)
    (dict : FTreeSortedDictionary κ β) : FTreeSortedDictionaryEnumerator κ β :=
  initWithImmutableSortedDictionary comparator dict none true

def reverseKeyEnumeratorFrom (comparator : κ → κ → Ordering)
    (dict : FTreeSortedDictionary κ β) (startKey : κ) :
    FTreeSortedDictionaryEnumerator κ β :=
  initWithImmutableSortedDictionary comparator dict (some startKey) true

theorem yields_init (comparator : κ → κ → Ordering)
    (dict : FTreeSortedDictionary κ β) (startKey : Option κ)
    (isReverse : Bool) :
    Yields nextObject
      (initWithImmutableSortedDictionary comparator dict startKey isReverse)
      ((pending isReverse (descend comparator startKey isReverse dict.root
        [])).map Prod.fst) :=
  yields_pending
    (initWithImmutableSortedDictionary comparator dict startKey isReverse)
    (descend_ne_emptyNode (by simp))

theorem yields_keyEnumerator (comparator : κ → κ → Ordering)
    (dict : FTreeSortedDictionary κ β) :
    Yields nextObject (dict.keyEnumerator comparator)
      (dict.entries.map Prod.fst) := by
  have hyields := dict.yields_init comparator none false
  rw [descend_forward_none, pending_pushAll, pending_nil,
    List.append_nil] at hyields
  exact hyields

theorem yields_reverseKeyEnumerator (comparator : κ → κ → Ordering)
    (dict : FTreeSortedDictionary κ β) :
    Yields nextObject (dict.reverseKeyEnumerator comparator) [] := by
  have hyields := dict.yields_init comparator none true
  rw [descend_reverse_none] at hyields
  exact hyields

section Ascending

variable {comparator : κ → κ → Ordering} [Std.TransCmp comparator]
  {dict : FTreeSortedDictionary κ β}

theorem yields_keyEnumeratorFrom
    (hasc : SortedEntries.Ascending comparator dict.entries) (startKey : κ) :
    Yields nextObject (dict.keyEnumeratorFrom comparator startKey)
      ((SortedEntries.startingAt comparator startKey
        dict.entries).map Prod.fst) := by
  have hyields := dict.yields_init comparator (some startKey) false
  rw [pending_descend_forward hasc, pending_nil, List.append_nil] at hyields
  exact hyields

theorem yields_reverseKeyEnumeratorFrom
    (hasc : SortedEntries.Ascending comparator dict.entries) (startKey : κ) :
    Yields nextObject (dict.reverseKeyEnumeratorFrom comparator startKey)
      ((SortedEntries.upTo comparator startKey
        dict.entries).map Prod.fst).reverse := by
  have hyields := dict.yields_init comparator (some startKey) true
  rw [pending_descend_reverse hasc, pending_nil, List.append_nil,
    List.map_reverse] at hyields
  exact hyields

end Ascending

end FTreeSortedDictionary

namespace FImmutableSortedDictionary

inductive KeyEnumerator (κ : Type u) (β : Type v) where
  | array (enumerator : FArraySortedDictionaryEnumerator κ)
  | tree (enumerator : FTreeSortedDictionaryEnumerator κ β)
deriving DecidableEq, Repr

def KeyEnumerator.nextObject :
    KeyEnumerator κ β → Option (κ × KeyEnumerator κ β)
  | .array enumerator =>
      enumerator.nextObject.map fun next => (next.1, .array next.2)
  | .tree enumerator =>
      enumerator.nextObject.map fun next => (next.1, .tree next.2)

theorem KeyEnumerator.yields_array
    {enumerator : FArraySortedDictionaryEnumerator κ} {keys : List κ}
    (hyields : Yields FArraySortedDictionaryEnumerator.nextObject enumerator
      keys) :
    Yields nextObject (.array enumerator : KeyEnumerator κ β) keys := by
  induction hyields with
  | done hnil => exact .done (by simp [nextObject, hnil])
  | next hnext _ ih => exact .next (by simp [nextObject, hnext]) ih

theorem KeyEnumerator.yields_tree
    {enumerator : FTreeSortedDictionaryEnumerator κ β} {keys : List κ}
    (hyields : Yields FTreeSortedDictionaryEnumerator.nextObject enumerator
      keys) :
    Yields nextObject (.tree enumerator : KeyEnumerator κ β) keys := by
  induction hyields with
  | done hnil => exact .done (by simp [nextObject, hnil])
  | next hnext _ ih => exact .next (by simp [nextObject, hnext]) ih

section Enumerators

variable (comparator : κ → κ → Ordering)

def keyEnumerator : FImmutableSortedDictionary κ β → KeyEnumerator κ β
  | .array dict => .array dict.keyEnumerator
  | .tree dict => .tree (dict.keyEnumerator comparator)

def keyEnumeratorFrom (startKey : κ) :
    FImmutableSortedDictionary κ β → KeyEnumerator κ β
  | .array dict => .array (dict.keyEnumeratorFrom comparator startKey)
  | .tree dict => .tree (dict.keyEnumeratorFrom comparator startKey)

def reverseKeyEnumerator : FImmutableSortedDictionary κ β → KeyEnumerator κ β
  | .array dict => .array dict.reverseKeyEnumerator
  | .tree dict => .tree (dict.reverseKeyEnumerator comparator)

def reverseKeyEnumeratorFrom (startKey : κ) :
    FImmutableSortedDictionary κ β → KeyEnumerator κ β
  | .array dict => .array (dict.reverseKeyEnumeratorFrom comparator startKey)
  | .tree dict => .tree (dict.reverseKeyEnumeratorFrom comparator startKey)

end Enumerators

open KeyEnumerator in
/-- The enumerators from a start key hand out the same keys whichever way the
dictionary is kept, and so does the one over all keys.  The one over all keys
in reverse hands out the keys of an array and none of a tree. -/
theorem yields_enumerators {comparator : κ → κ → Ordering}
    [Std.TransCmp comparator] {dict : FImmutableSortedDictionary κ β}
    (hdict : dict.WellFormed comparator) (startKey : κ) :
    (Yields nextObject (dict.keyEnumerator comparator)
        (dict.entries.map Prod.fst) ∧
      Yields nextObject (dict.keyEnumeratorFrom comparator startKey)
        ((SortedEntries.startingAt comparator startKey
          dict.entries).map Prod.fst) ∧
      Yields nextObject (dict.reverseKeyEnumeratorFrom comparator startKey)
        ((SortedEntries.upTo comparator startKey
          dict.entries).map Prod.fst).reverse) ∧
      (∀ array, dict = .array array →
        Yields nextObject (dict.reverseKeyEnumerator comparator)
          (dict.entries.map Prod.fst).reverse) ∧
      ∀ tree, dict = .tree tree →
        Yields nextObject (dict.reverseKeyEnumerator comparator) [] := by
  cases dict with
  | array dict =>
      have hasc := (wellFormed_array.mp hdict).1
      refine ⟨⟨yields_array dict.yields_keyEnumerator, ?_, ?_⟩,
        fun _ _ => yields_array dict.yields_reverseKeyEnumerator,
        fun _ htree => by contradiction⟩
      · exact yields_array
          (FArraySortedDictionary.yields_keyEnumeratorFrom hasc startKey)
      · exact yields_array
          (FArraySortedDictionary.yields_reverseKeyEnumeratorFrom hasc
            startKey)
  | tree dict =>
      have hasc := (wellFormed_tree.mp hdict).ascending
      refine ⟨⟨yields_tree (dict.yields_keyEnumerator comparator), ?_, ?_⟩,
        fun _ harray => by contradiction,
        fun _ _ => yields_tree (dict.yields_reverseKeyEnumerator comparator)⟩
      · exact yields_tree
          (FTreeSortedDictionary.yields_keyEnumeratorFrom hasc startKey)
      · exact yields_tree
          (FTreeSortedDictionary.yields_reverseKeyEnumeratorFrom hasc
            startKey)

open KeyEnumerator in
/-- The enumerators of a dictionary with any history. -/
theorem run_yields {comparator : κ → κ → Ordering} [DecidableEq κ]
    [Std.TransCmp comparator] (edits : List (Edit κ β)) (startKey : κ) :
    ∃ result : FImmutableSortedDictionary κ β,
      dictionaryWithComparator.run comparator edits = .ok result ∧
      (Yields nextObject (result.keyEnumerator comparator)
          (result.entries.map Prod.fst) ∧
        Yields nextObject (result.keyEnumeratorFrom comparator startKey)
          ((SortedEntries.startingAt comparator startKey
            result.entries).map Prod.fst) ∧
        Yields nextObject (result.reverseKeyEnumeratorFrom comparator startKey)
          ((SortedEntries.upTo comparator startKey
            result.entries).map Prod.fst).reverse) ∧
      (∀ array, result = .array array →
        Yields nextObject (result.reverseKeyEnumerator comparator)
          (result.entries.map Prod.fst).reverse) ∧
      ∀ tree, result = .tree tree →
        Yields nextObject (result.reverseKeyEnumerator comparator) [] := by
  obtain ⟨result, hresult, hwell, -⟩ :=
    exists_run (wellFormed_dictionaryWithComparator : WellFormed comparator
      (dictionaryWithComparator : FImmutableSortedDictionary κ β)) edits
  exact ⟨result, hresult, yields_enumerators hwell startKey⟩

open KeyEnumerator in
theorem run_yields_from_two :
    ∃ result : FImmutableSortedDictionary ℕ ℕ,
      dictionaryWithComparator.run compare
          [.insertKey 1 2, .insertKey 3 6] = .ok result ∧
      (Yields nextObject (result.keyEnumerator compare)
          (result.entries.map Prod.fst) ∧
        Yields nextObject (result.keyEnumeratorFrom compare 2)
          ((SortedEntries.startingAt compare 2
            result.entries).map Prod.fst) ∧
        Yields nextObject (result.reverseKeyEnumeratorFrom compare 2)
          ((SortedEntries.upTo compare 2
            result.entries).map Prod.fst).reverse) ∧
      (∀ array, result = .array array →
        Yields nextObject (result.reverseKeyEnumerator compare)
          (result.entries.map Prod.fst).reverse) ∧
      ∀ tree, result = .tree tree →
        Yields nextObject (result.reverseKeyEnumerator compare) [] :=
  run_yields [.insertKey 1 2, .insertKey 3 6] 2

end FImmutableSortedDictionary

end FirebaseDatabase
