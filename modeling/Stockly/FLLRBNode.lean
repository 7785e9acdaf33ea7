import Stockly.SortedEntries

/-!
# The nodes of a sorted tree

The left-leaning red-black nodes in which the database library keeps the
children of a node.  A message to an empty node's child reaches nobody, so the
children of the empty node read as empty.  The walk in order determines what a
dictionary holds; this module follows it through the rotations, the insertion
and the removal.
-/

universe u v

namespace FirebaseDatabase

inductive FLLRBColor where
  | red
  | black
deriving DecidableEq, Repr

def FLLRBColor.flip : FLLRBColor → FLLRBColor
  | red => black
  | black => red

/-- `FLLRBEmptyNode` and `FLLRBValueNode`. -/
inductive FLLRBNode (κ : Type u) (β : Type v) where
  | emptyNode
  | valueNode (key : κ) (value : β) (color : FLLRBColor)
      (left right : FLLRBNode κ β)
deriving DecidableEq, Repr

namespace FLLRBNode

variable {κ : Type u} {β : Type v}

def isEmpty : FLLRBNode κ β → Bool
  | emptyNode => true
  | valueNode .. => false

def isRed : FLLRBNode κ β → Bool
  | emptyNode => false
  | valueNode _ _ color _ _ => color = .red

def left : FLLRBNode κ β → FLLRBNode κ β
  | emptyNode => emptyNode
  | valueNode _ _ _ left _ => left

def right : FLLRBNode κ β → FLLRBNode κ β
  | emptyNode => emptyNode
  | valueNode _ _ _ _ right => right

def count : FLLRBNode κ β → ℕ
  | emptyNode => 0
  | valueNode _ _ _ left right => left.count + 1 + right.count

/-- The entries in the order in which `inorderTraversal:` visits them. -/
def inorderTraversal : FLLRBNode κ β → List (κ × β)
  | emptyNode => []
  | valueNode key value _ left right =>
      left.inorderTraversal ++ (key, value) :: right.inorderTraversal

def reverseTraversal : FLLRBNode κ β → List (κ × β)
  | emptyNode => []
  | valueNode key value _ left right =>
      right.reverseTraversal ++ (key, value) :: left.reverseTraversal

/-- The entry of the node which `min` returns. -/
def min : FLLRBNode κ β → Option (κ × β)
  | emptyNode => none
  | valueNode key value _ left _ =>
      if left.isEmpty then some (key, value) else left.min

def minKey (node : FLLRBNode κ β) : Option κ := node.min.map Prod.fst

def maxKey : FLLRBNode κ β → Option κ
  | emptyNode => none
  | valueNode key _ _ _ right => if right.isEmpty then some key else right.maxKey

/-! ## Copies with a change -/

def withColor (color : FLLRBColor) : FLLRBNode κ β → FLLRBNode κ β
  | emptyNode => emptyNode
  | valueNode key value _ left right => valueNode key value color left right

def withLeft : FLLRBNode κ β → FLLRBNode κ β → FLLRBNode κ β
  | emptyNode, _ => emptyNode
  | valueNode key value color _ right, newLeft =>
      valueNode key value color newLeft right

def withRight : FLLRBNode κ β → FLLRBNode κ β → FLLRBNode κ β
  | emptyNode, _ => emptyNode
  | valueNode key value color left _, newRight =>
      valueNode key value color left newRight

def flipped : FLLRBNode κ β → FLLRBNode κ β
  | emptyNode => emptyNode
  | valueNode key value color left right =>
      valueNode key value color.flip left right

def colorFlip : FLLRBNode κ β → FLLRBNode κ β
  | emptyNode => emptyNode
  | valueNode key value color left right =>
      valueNode key value color.flip left.flipped right.flipped

/-- The copy of an empty right child is empty again. -/
def rotateLeft : FLLRBNode κ β → FLLRBNode κ β
  | emptyNode => emptyNode
  | valueNode _ _ _ _ emptyNode => emptyNode
  | valueNode key value color left
      (valueNode rightKey rightValue _ inner outer) =>
      valueNode rightKey rightValue color
        (valueNode key value .red left inner) outer

def rotateRight : FLLRBNode κ β → FLLRBNode κ β
  | emptyNode => emptyNode
  | valueNode _ _ _ emptyNode _ => emptyNode
  | valueNode key value color
      (valueNode leftKey leftValue _ outer inner) right =>
      valueNode leftKey leftValue color outer
        (valueNode key value .red inner right)

def fixUp (node : FLLRBNode κ β) : FLLRBNode κ β :=
  let node :=
    if node.right.isRed && !node.left.isRed then node.rotateLeft else node
  let node :=
    if node.left.isRed && node.left.left.isRed then node.rotateRight else node
  if node.left.isRed && node.right.isRed then node.colorFlip else node

def moveRedLeft (node : FLLRBNode κ β) : FLLRBNode κ β :=
  let node := node.colorFlip
  if node.right.left.isRed then
    ((node.withRight node.right.rotateRight).rotateLeft).colorFlip
  else node

def moveRedRight (node : FLLRBNode κ β) : FLLRBNode κ β :=
  let node := node.colorFlip
  if node.left.left.isRed then node.rotateRight.colorFlip else node

/-! ## Insertion and removal -/

def insertKey (comparator : κ → κ → Ordering) (aKey : κ) (aValue : β) :
    FLLRBNode κ β → FLLRBNode κ β
  | emptyNode => valueNode aKey aValue .red emptyNode emptyNode
  | valueNode key value color left right =>
      match comparator aKey key with
      | .lt =>
          (valueNode key value color
            (left.insertKey comparator aKey aValue) right).fixUp
      | .eq => (valueNode key aValue color left right).fixUp
      | .gt =>
          (valueNode key value color left
            (right.insertKey comparator aKey aValue)).fixUp

/-- What `removeMin` and `remove` do before they go on to the left. -/
def beforeLeft (node : FLLRBNode κ β) : FLLRBNode κ β :=
  if !node.left.isEmpty && !node.left.isRed && !node.left.left.isRed then
    node.moveRedLeft
  else node

/-- What `remove` does before it looks at the node or goes on to the right. -/
def beforeRight (node : FLLRBNode κ β) : FLLRBNode κ β :=
  let node := if node.left.isRed then node.rotateRight else node
  if !node.right.isEmpty && !node.right.isRed && !node.right.left.isRed then
    node.moveRedRight
  else node

theorem count_flipped (node : FLLRBNode κ β) :
    node.flipped.count = node.count := by
  cases node <;> rfl

theorem count_colorFlip (node : FLLRBNode κ β) :
    node.colorFlip.count = node.count := by
  cases node with
  | emptyNode => rfl
  | valueNode key value color left right =>
      simp [colorFlip, count, count_flipped]

theorem count_rotateLeft_le (node : FLLRBNode κ β) :
    node.rotateLeft.count ≤ node.count := by
  cases node with
  | emptyNode => exact Nat.le_refl 0
  | valueNode key value color left right =>
      cases right with
      | emptyNode => exact Nat.zero_le _
      | valueNode => simp only [rotateLeft, count]; omega

theorem count_rotateRight_le (node : FLLRBNode κ β) :
    node.rotateRight.count ≤ node.count := by
  cases node with
  | emptyNode => exact Nat.le_refl 0
  | valueNode key value color left right =>
      cases left with
      | emptyNode => exact Nat.zero_le _
      | valueNode => simp only [rotateRight, count]; omega

theorem count_withLeft_le {node newLeft : FLLRBNode κ β}
    (hleft : newLeft.count ≤ node.left.count) :
    (node.withLeft newLeft).count ≤ node.count := by
  cases node with
  | emptyNode => exact Nat.le_refl 0
  | valueNode => simp only [withLeft, left, count] at hleft ⊢; omega

theorem count_withRight_le {node newRight : FLLRBNode κ β}
    (hright : newRight.count ≤ node.right.count) :
    (node.withRight newRight).count ≤ node.count := by
  cases node with
  | emptyNode => exact Nat.le_refl 0
  | valueNode => simp only [withRight, right, count] at hright ⊢; omega

theorem count_fixUp_le (node : FLLRBNode κ β) :
    node.fixUp.count ≤ node.count := by
  have hleft := count_rotateLeft_le node
  unfold fixUp
  dsimp only
  generalize hfirst : (if node.right.isRed && !node.left.isRed then
    node.rotateLeft else node) = first
  have hle : first.count ≤ node.count := by
    rw [← hfirst]
    split <;> omega
  have hright := count_rotateRight_le first
  generalize hsecond : (if first.left.isRed && first.left.left.isRed then
    first.rotateRight else first) = second
  have hnext : second.count ≤ first.count := by
    rw [← hsecond]
    split <;> omega
  have hflip := count_colorFlip second
  split <;> omega

theorem count_moveRedLeft_le (node : FLLRBNode κ β) :
    node.moveRedLeft.count ≤ node.count := by
  have hflip := count_colorFlip node
  unfold moveRedLeft
  dsimp only
  split
  next =>
    rw [count_colorFlip]
    have hright := count_withRight_le
      (count_rotateRight_le node.colorFlip.right)
    have hleft := count_rotateLeft_le
      (node.colorFlip.withRight node.colorFlip.right.rotateRight)
    omega
  next => omega

theorem count_moveRedRight_le (node : FLLRBNode κ β) :
    node.moveRedRight.count ≤ node.count := by
  have hflip := count_colorFlip node
  unfold moveRedRight
  dsimp only
  split
  next =>
    rw [count_colorFlip]
    have hright := count_rotateRight_le node.colorFlip
    omega
  next => omega

theorem count_beforeLeft_le (node : FLLRBNode κ β) :
    node.beforeLeft.count ≤ node.count := by
  unfold beforeLeft
  split
  · exact count_moveRedLeft_le node
  · exact Nat.le_refl _

theorem count_beforeRight_le (node : FLLRBNode κ β) :
    node.beforeRight.count ≤ node.count := by
  have hrotate := count_rotateRight_le node
  unfold beforeRight
  dsimp only
  generalize hfirst : (if node.left.isRed then node.rotateRight else node) =
    first
  have hle : first.count ≤ node.count := by
    rw [← hfirst]
    split <;> omega
  have hmove := count_moveRedRight_le first
  split <;> omega

theorem count_left_lt {node : FLLRBNode κ β} {bound : ℕ}
    (hbound : node.count ≤ bound) (hpos : 0 < bound) :
    node.left.count < bound := by
  cases node with
  | emptyNode => exact hpos
  | valueNode => simp only [left, count] at hbound ⊢; omega

/-- The empty node is never asked. -/
def removeMin : FLLRBNode κ β → FLLRBNode κ β
  | emptyNode => emptyNode
  | valueNode key value color left right =>
      if left.isEmpty then emptyNode
      else
        let node := (valueNode key value color left right).beforeLeft
        (node.withLeft node.left.removeMin).fixUp
termination_by node => node.count
decreasing_by
  exact count_left_lt (count_beforeLeft_le _) (by simp only [count]; omega)

theorem count_removeMin_le (node : FLLRBNode κ β) :
    node.removeMin.count ≤ node.count := by
  induction node using removeMin.induct with
  | case1 => simp [removeMin, count]
  | case2 key value color left right hleft =>
      simp [removeMin, hleft, count]
  | case3 key value color left right hleft node ih =>
      rw [removeMin, if_neg hleft]
      calc
        (node.withLeft node.left.removeMin).fixUp.count ≤
            (node.withLeft node.left.removeMin).count := count_fixUp_le _
        _ ≤ node.count := count_withLeft_le ih
        _ ≤ (valueNode key value color left right).count :=
          count_beforeLeft_le _

/-- A key which is found gives way to its successor, and the search for it
goes on to the right of the successor, where it no longer is. -/
def remove (comparator : κ → κ → Ordering) (aKey : κ) :
    FLLRBNode κ β → FLLRBNode κ β
  | emptyNode => emptyNode
  | valueNode key value color left right =>
      if comparator aKey key = .lt then
        let node := (valueNode key value color left right).beforeLeft
        (node.withLeft (node.left.remove comparator aKey)).fixUp
      else
        match _htop : (valueNode key value color left right).beforeRight with
        | emptyNode => emptyNode
        | valueNode topKey topValue topColor lower higher =>
            if comparator aKey topKey = .eq then
              match higher.min with
              | none => emptyNode
              | some smallest =>
                  (valueNode smallest.1 smallest.2 topColor lower
                    (higher.removeMin.remove comparator aKey)).fixUp
            else
              (valueNode topKey topValue topColor lower
                (higher.remove comparator aKey)).fixUp
termination_by node => node.count
decreasing_by
  · exact count_left_lt (count_beforeLeft_le _) (by simp only [count]; omega)
  · have hcount := count_beforeRight_le (valueNode key value color left right)
    have hmin := count_removeMin_le higher
    rw [_htop] at hcount
    simp only [count] at hcount ⊢
    omega
  · have hcount := count_beforeRight_le (valueNode key value color left right)
    rw [_htop] at hcount
    simp only [count] at hcount ⊢
    omega

/-! ## The walk in order -/

@[simp] theorem reverseTraversal_eq (node : FLLRBNode κ β) :
    node.reverseTraversal = node.inorderTraversal.reverse := by
  induction node with
  | emptyNode => rfl
  | valueNode key value color left right ihleft ihright =>
      simp [reverseTraversal, inorderTraversal, ihleft, ihright]

theorem length_inorderTraversal (node : FLLRBNode κ β) :
    node.inorderTraversal.length = node.count := by
  induction node with
  | emptyNode => rfl
  | valueNode key value color left right ihleft ihright =>
      simp only [inorderTraversal, count, List.length_append,
        List.length_cons, ihleft, ihright]
      omega

theorem isEmpty_iff {node : FLLRBNode κ β} :
    node.isEmpty = true ↔ node = emptyNode := by
  cases node <;> simp [isEmpty]

theorem inorderTraversal_eq_nil_iff {node : FLLRBNode κ β} :
    node.inorderTraversal = [] ↔ node = emptyNode := by
  cases node <;> simp [inorderTraversal]

theorem exists_valueNode_of_isRed {node : FLLRBNode κ β}
    (hred : node.isRed = true) :
    ∃ key value left right, node = valueNode key value .red left right := by
  cases node with
  | emptyNode => contradiction
  | valueNode key value color left right =>
      refine ⟨key, value, left, right, ?_⟩
      simpa [isRed] using hred

@[simp] theorem inorderTraversal_withColor (color : FLLRBColor)
    (node : FLLRBNode κ β) :
    (node.withColor color).inorderTraversal = node.inorderTraversal := by
  cases node <;> rfl

@[simp] theorem inorderTraversal_flipped (node : FLLRBNode κ β) :
    node.flipped.inorderTraversal = node.inorderTraversal := by
  cases node <;> rfl

@[simp] theorem inorderTraversal_colorFlip (node : FLLRBNode κ β) :
    node.colorFlip.inorderTraversal = node.inorderTraversal := by
  cases node with
  | emptyNode => rfl
  | valueNode => simp [colorFlip, inorderTraversal]

theorem isEmpty_of_isRed {node : FLLRBNode κ β} (hred : node.isRed = true) :
    node.isEmpty = false := by
  cases node with
  | emptyNode => contradiction
  | valueNode => rfl

theorem inorderTraversal_rotateLeft {node : FLLRBNode κ β}
    (hright : node.right.isEmpty = false) :
    node.rotateLeft.inorderTraversal = node.inorderTraversal := by
  cases node with
  | emptyNode => rfl
  | valueNode key value color left right =>
      cases right with
      | emptyNode => contradiction
      | valueNode => simp [rotateLeft, inorderTraversal]

theorem inorderTraversal_rotateRight {node : FLLRBNode κ β}
    (hleft : node.left.isEmpty = false) :
    node.rotateRight.inorderTraversal = node.inorderTraversal := by
  cases node with
  | emptyNode => rfl
  | valueNode key value color left right =>
      cases left with
      | emptyNode => contradiction
      | valueNode => simp [rotateRight, inorderTraversal]

@[simp] theorem inorderTraversal_fixUp (node : FLLRBNode κ β) :
    node.fixUp.inorderTraversal = node.inorderTraversal := by
  unfold fixUp
  dsimp only
  generalize hfirst : (if node.right.isRed && !node.left.isRed then
    node.rotateLeft else node) = first
  have hkeep : first.inorderTraversal = node.inorderTraversal := by
    rw [← hfirst]
    split
    next hred =>
      exact inorderTraversal_rotateLeft
        (isEmpty_of_isRed (Bool.and_elim_left hred))
    next => rfl
  generalize hsecond : (if first.left.isRed && first.left.left.isRed then
    first.rotateRight else first) = second
  have hnext : second.inorderTraversal = first.inorderTraversal := by
    rw [← hsecond]
    split
    next hred =>
      exact inorderTraversal_rotateRight
        (isEmpty_of_isRed (Bool.and_elim_left hred))
    next => rfl
  split
  · rw [inorderTraversal_colorFlip, hnext, hkeep]
  · rw [hnext, hkeep]

@[simp] theorem inorderTraversal_beforeLeft (node : FLLRBNode κ β) :
    node.beforeLeft.inorderTraversal = node.inorderTraversal := by
  unfold beforeLeft
  split
  next =>
    unfold moveRedLeft
    dsimp only
    split
    next hred =>
      -- turning the right child keeps it there for the turn of the node
      rw [← inorderTraversal_colorFlip node]
      generalize node.colorFlip = flip at hred
      cases flip with
      | emptyNode => contradiction
      | valueNode key value color left right =>
          cases right with
          | emptyNode => contradiction
          | valueNode rightKey rightValue rightColor near far =>
              cases near with
              | emptyNode => contradiction
              | valueNode =>
                  simp [FLLRBNode.right, rotateRight, withRight, rotateLeft,
                    inorderTraversal]
    next => exact inorderTraversal_colorFlip node
  next => rfl

@[simp] theorem inorderTraversal_beforeRight (node : FLLRBNode κ β) :
    node.beforeRight.inorderTraversal = node.inorderTraversal := by
  unfold beforeRight
  dsimp only
  generalize hfirst : (if node.left.isRed then node.rotateRight else node) =
    first
  have hkeep : first.inorderTraversal = node.inorderTraversal := by
    rw [← hfirst]
    split
    next hred => exact inorderTraversal_rotateRight (isEmpty_of_isRed hred)
    next => rfl
  rw [← hkeep]
  split
  next =>
    unfold moveRedRight
    dsimp only
    split
    next hred =>
      have hleft : first.colorFlip.left.isEmpty = false := by
        generalize first.colorFlip.left = child at hred
        cases child with
        | emptyNode => contradiction
        | valueNode => rfl
      rw [inorderTraversal_colorFlip, inorderTraversal_rotateRight hleft,
        inorderTraversal_colorFlip]
    next => exact inorderTraversal_colorFlip first
  next => rfl

/-- What an insertion leaves in order; an old key stays where it is. -/
theorem inorderTraversal_insertKey {comparator : κ → κ → Ordering}
    [Std.TransCmp comparator] {node : FLLRBNode κ β}
    (hasc : SortedEntries.Ascending comparator node.inorderTraversal)
    (aKey : κ) (aValue : β) :
    (node.insertKey comparator aKey aValue).inorderTraversal =
      SortedEntries.insertAs comparator
        (SortedEntries.slot comparator aKey node.inorderTraversal) aKey aValue
        node.inorderTraversal := by
  induction node with
  | emptyNode => rfl
  | valueNode key value color left right ihleft ihright =>
      rcases SortedEntries.ascending_append_cons.mp hasc with
        ⟨⟨hleft, hright⟩, -⟩
      simp only [insertKey, inorderTraversal] at hasc ⊢
      cases hkey : comparator aKey key with
      | lt =>
          rw [SortedEntries.slot_left hasc hkey,
            SortedEntries.insertAs_left hasc hkey, ← ihleft hleft]
          simp [inorderTraversal]
      | eq =>
          rw [SortedEntries.slot_here hasc hkey,
            SortedEntries.insertAs_here hasc hkey]
          simp [inorderTraversal]
      | gt =>
          rw [SortedEntries.slot_right hasc hkey,
            SortedEntries.insertAs_right hasc hkey, ← ihright hright]
          simp [inorderTraversal]

theorem min_eq_head? (node : FLLRBNode κ β) :
    node.min = node.inorderTraversal.head? := by
  induction node with
  | emptyNode => rfl
  | valueNode key value color left right ihleft _ =>
      simp only [min, inorderTraversal]
      split
      next hempty =>
        rw [isEmpty_iff.mp hempty]
        rfl
      next hempty =>
        have hentries : left.inorderTraversal ≠ [] := by
          rwa [ne_eq, inorderTraversal_eq_nil_iff, ← isEmpty_iff]
        rw [ihleft, List.head?_append_of_ne_nil _ hentries]

theorem maxKey_eq_getLast? (node : FLLRBNode κ β) :
    node.maxKey = node.inorderTraversal.getLast?.map Prod.fst := by
  induction node with
  | emptyNode => rfl
  | valueNode key value color left right _ ihright =>
      simp only [maxKey, inorderTraversal]
      split
      next hempty =>
        rw [isEmpty_iff.mp hempty]
        simp [inorderTraversal]
      next hempty =>
        have hentries : right.inorderTraversal ≠ [] := by
          rwa [ne_eq, inorderTraversal_eq_nil_iff, ← isEmpty_iff]
        rw [ihright, List.append_cons, List.getLast?_append_of_ne_nil _ hentries]

end FLLRBNode

end FirebaseDatabase
