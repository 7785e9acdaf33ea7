import Stockly.FPath
import Stockly.FUtilities
import Stockly.KeyedList

/-!
# Nodes

The data of the database is a tree of nodes, read and updated at paths.  A
node is a leaf with a value or has children, and both may have a priority,
which is read and written under a name of its own.

The children are kept under the comparator of keys, which takes different
zeros of one length for the same key.  What is proved about the values of
nodes is proved for keys which the comparator tells apart and none of which
is the name of the priority.  The order in which a node lists its children is
left out.
-/

universe u v

namespace FirebaseDatabase

/-! ## Names of children -/

/-- `".priority"` -/
def PRIORITY : NSString := [46, 112, 114, 105, 111, 114, 105, 116, 121]

/-- Keys which are equal exactly when their names are. -/
class ChildName (κ : Type u) where
  name : κ → NSString
  name_injective : Function.Injective name

namespace ChildName

variable {κ : Type u} [ChildName κ]

instance (priority := low) : DecidableEq κ := fun first second =>
  decidable_of_iff (name first = name second) name_injective.eq_iff

def isPriority (key : κ) : Bool := name key = PRIORITY

/-- `keyComparator` answers that two keys are the same. -/
def sameKey (first second : κ) : Bool :=
  FUtilities.compareKey (.name (name first)) (.name (name second)) = .eq

theorem sameKey_refl (key : κ) : sameKey key key = true :=
  decide_eq_true Std.ReflCmp.compare_self

end ChildName

instance : ChildName NSString := ⟨id, Function.injective_id⟩

/-- The comparator tells the keys apart, and none stands for the priority. -/
class PlainName (κ : Type u) extends ChildName κ where
  apart : ∀ first second : κ, ChildName.sameKey first second = true →
    first = second
  notPriority : ∀ key : κ, ChildName.isPriority key = false

/-- A name other than that of the priority, and the only one of its length
which reads as zero. -/
structure PlainKey where
  string : NSString
  notPriority : string ≠ PRIORITY
  zero : FUtilities.tryParseStringToInt string = some 0 → string = [48]

theorem PlainKey.string_injective : Function.Injective PlainKey.string := by
  intro first second hsame
  cases first
  cases second
  cases hsame
  rfl

instance : ChildName PlainKey := ⟨PlainKey.string, PlainKey.string_injective⟩

instance : PlainName PlainKey where
  apart first second hsame := by
    have heq : FUtilities.compareNames first.string second.string = .eq :=
      of_decide_eq_true hsame
    apply PlainKey.string_injective
    rcases (FUtilities.compareNames_eq_iff _ _).mp heq with
      hstring | ⟨⟨hfirst, hsecond⟩, -⟩
    · exact hstring
    · rw [first.zero hfirst, second.zero hsecond]
  notPriority key := decide_eq_false key.notPriority

open ChildName FPath

variable {κ : Type u} {α : Type v}

theorem sameKey_iff [PlainName κ] {first second : κ} :
    sameKey first second = true ↔ first = second := by
  constructor
  · exact PlainName.apart first second
  · rintro rfl
    exact sameKey_refl first

@[simp] theorem isPriority_eq_false [PlainName κ] (key : κ) :
    isPriority key = false :=
  PlainName.notPriority key

/-! ## The children of a node -/

/-- The first child whose key the comparator takes for the given one. -/
def objectForKey {β : Type v} [ChildName κ] (aKey : κ) :
    List (κ × β) → Option β
  | [] => none
  | (key, object) :: children =>
      if sameKey aKey key then some object else objectForKey aKey children

def removeObjectForKey {β : Type v} [ChildName κ] (aKey : κ)
    (children : List (κ × β)) : List (κ × β) :=
  children.filter fun child => !sameKey aKey child.1

/-- The value of the key is replaced; by which of its names the key is kept is
not told apart by the comparator. -/
def setObjectForKey {β : Type v} [ChildName κ] (object : β) (aKey : κ)
    (children : List (κ × β)) : List (κ × β) :=
  (aKey, object) :: removeObjectForKey aKey children

theorem objectForKey_eq {β : Type v} [PlainName κ] (aKey : κ)
    (children : List (κ × β)) :
    objectForKey aKey children = children.lookup aKey := by
  induction children with
  | nil => rfl
  | cons child children ih =>
      obtain ⟨key, object⟩ := child
      rw [objectForKey, ih, KeyedList.lookup_cons_entry]
      simp only [sameKey_iff]

theorem removeObjectForKey_eq {β : Type v} [PlainName κ] (aKey : κ)
    (children : List (κ × β)) :
    removeObjectForKey aKey children = KeyedList.erase aKey children := by
  unfold removeObjectForKey KeyedList.erase
  apply List.filter_congr
  intro child _
  rw [Bool.eq_iff_iff]
  simp only [Bool.not_eq_true', ← Bool.not_eq_true, sameKey_iff,
    decide_eq_true_eq]
  exact ne_comm

theorem setObjectForKey_eq {β : Type v} [PlainName κ] (object : β)
    (aKey : κ) (children : List (κ × β)) :
    setObjectForKey object aKey children =
      KeyedList.insert aKey object children := by
  rw [setObjectForKey, removeObjectForKey_eq, KeyedList.insert]

/-! ## Nodes -/

/-- An `FLeafNode`, or an `FChildrenNode`; the latter is the `FEmptyNode` when
it has no children, and has no priority then. -/
inductive FNode (κ : Type u) (α : Type v) where
  | leaf (value : α) (priorityNode : FNode κ α)
  | children (entries : List (κ × FNode κ α))
      (priorityNode : Option (FNode κ α))

namespace FNode

def emptyNode : FNode κ α := .children [] none

def isEmpty : FNode κ α → Bool
  | .leaf _ _ => false
  | .children entries _ => entries.isEmpty

/-- `initWithValue:`, without a priority. -/
def leafOf (value : α) : FNode κ α := .leaf value emptyNode

def getPriority : FNode κ α → FNode κ α
  | .leaf _ priorityNode => priorityNode
  | .children _ priorityNode => priorityNode.getD emptyNode

def updatePriority : FNode κ α → FNode κ α → FNode κ α
  | .leaf value _, aPriority => .leaf value aPriority
  | .children entries _, aPriority =>
      if entries.isEmpty then emptyNode else .children entries (some aPriority)

variable [ChildName κ]

def getImmediateChild : FNode κ α → κ → FNode κ α
  | .leaf _ priorityNode, childName =>
      if isPriority childName then priorityNode else emptyNode
  | .children entries priorityNode, childName =>
      if isPriority childName then getPriority (.children entries priorityNode)
      else (objectForKey childName entries).getD emptyNode

def hasChild : FNode κ α → κ → Bool
  | .leaf _ priorityNode, childName =>
      isPriority childName && !priorityNode.isEmpty
  | .children entries priorityNode, childName =>
      !(getImmediateChild (.children entries priorityNode) childName).isEmpty

def getChild : FNode κ α → FPath κ → FNode κ α
  | node, [] => node
  | .leaf _ priorityNode, front :: _ =>
      -- what follows the priority in the path is not looked at
      if isPriority front then priorityNode else emptyNode
  | .children entries priorityNode, front :: path =>
      getChild (getImmediateChild (.children entries priorityNode) front) path

/-- `updateImmediateChild:withNewChild:` of an `FChildrenNode`. -/
def updateChildren (entries : List (κ × FNode κ α))
    (priorityNode : Option (FNode κ α)) (childName : κ)
    (newChildNode : FNode κ α) : FNode κ α :=
  if isPriority childName then
    updatePriority (.children entries priorityNode) newChildNode
  else
    let newChildren :=
      if newChildNode.isEmpty then removeObjectForKey childName entries
      else setObjectForKey newChildNode childName entries
    if newChildren.isEmpty then emptyNode
    else
      .children newChildren
        (some (getPriority (.children entries priorityNode)))

def updateImmediateChild : FNode κ α → κ → FNode κ α → FNode κ α
  | .leaf value priorityNode, childName, newChildNode =>
      if isPriority childName then
        updatePriority (.leaf value priorityNode) newChildNode
      else if newChildNode.isEmpty then .leaf value priorityNode
      else
        (updateChildren [] none childName newChildNode).updatePriority
          priorityNode
  | .children entries priorityNode, childName, newChildNode =>
      updateChildren entries priorityNode childName newChildNode

/-- The source asserts that the priority is the last piece of its path. -/
def updateChild : FNode κ α → FPath κ → FNode κ α → FNode κ α
  | _, [], newChildNode => newChildNode
  | .leaf value priorityNode, front :: path, newChildNode =>
      if newChildNode.isEmpty && !isPriority front then .leaf value priorityNode
      else
        updateImmediateChild (.leaf value priorityNode) front
          (updateChild emptyNode path newChildNode)
  | .children entries priorityNode, front :: path, newChildNode =>
      updateImmediateChild (.children entries priorityNode) front
        (updateChild
          (getImmediateChild (.children entries priorityNode) front) path
          newChildNode)

/-- The value of the leaf at a path, if a leaf stands there. -/
def valueAt (node : FNode κ α) (path : FPath κ) : Option α :=
  match node.getChild path with
  | .leaf value _ => some value
  | .children _ _ => none

end FNode

/-- Two zeros of one length are one key: the second one replaces the first. -/
example :
    let zeros : FNode NSString ℕ :=
      (FNode.emptyNode.updateChild [[48, 48]] (.leafOf 1)).updateChild
        [[45, 48]] (.leafOf 2)
    zeros.valueAt [[48, 48]] = some 2 := by decide

namespace FNode

variable [PlainName κ]

/-! ## One step down -/

omit [PlainName κ] in
@[simp] theorem isEmpty_emptyNode :
    (emptyNode : FNode κ α).isEmpty = true := rfl

@[simp] theorem getImmediateChild_emptyNode (childName : κ) :
    (emptyNode : FNode κ α).getImmediateChild childName = emptyNode := by
  simp [getImmediateChild, emptyNode, objectForKey]

@[simp] theorem getImmediateChild_leaf (childName : κ) (value : α)
    (priorityNode : FNode κ α) :
    (leaf value priorityNode).getImmediateChild childName = emptyNode := by
  simp [getImmediateChild]

@[simp] theorem getImmediateChild_children (childName : κ)
    (entries : List (κ × FNode κ α)) (priorityNode : Option (FNode κ α)) :
    (children entries priorityNode).getImmediateChild childName =
      (entries.lookup childName).getD emptyNode := by
  simp [getImmediateChild, objectForKey_eq]

@[simp] theorem getChild_nil (node : FNode κ α) :
    node.getChild [] = node := by
  cases node <;> simp [getChild]

@[simp] theorem getChild_emptyNode (path : FPath κ) :
    (emptyNode : FNode κ α).getChild path = emptyNode := by
  induction path with
  | nil => simp
  | cons front path ih =>
      change (getImmediateChild emptyNode front).getChild path = emptyNode
      rw [getImmediateChild_emptyNode, ih]

/-- A leaf has no data below it, whichever path is followed. -/
@[simp] theorem getChild_cons (front : κ) (path : FPath κ)
    (node : FNode κ α) :
    node.getChild (front :: path) =
      (node.getImmediateChild front).getChild path := by
  cases node with
  | leaf value priorityNode =>
      rw [getImmediateChild_leaf, getChild_emptyNode]
      simp [getChild]
  | children entries priorityNode => rw [getChild]

theorem getChild_append (path rest : FPath κ) (node : FNode κ α) :
    node.getChild (path ++ rest) = (node.getChild path).getChild rest := by
  induction path generalizing node with
  | nil => simp
  | cons front path ih => simp [ih]

/-- What is found at a name after a child has been set or removed there. -/
def orEmpty (node : FNode κ α) : FNode κ α :=
  if node.isEmpty then emptyNode else node

theorem updateChildren_eq (entries : List (κ × FNode κ α))
    (priorityNode : Option (FNode κ α)) (childName : κ)
    (newChildNode : FNode κ α) :
    updateChildren entries priorityNode childName newChildNode =
      let newChildren :=
        if newChildNode.isEmpty then KeyedList.erase childName entries
        else KeyedList.insert childName newChildNode entries
      if newChildren.isEmpty then emptyNode
      else
        .children newChildren
          (some (getPriority (.children entries priorityNode))) := by
  unfold updateChildren
  rw [isPriority_eq_false, if_neg Bool.false_ne_true, removeObjectForKey_eq,
    setObjectForKey_eq]

/-- A node without children is the empty one. -/
theorem getImmediateChild_built (childName : κ)
    (entries : List (κ × FNode κ α)) (priorityNode : Option (FNode κ α)) :
    (if entries.isEmpty then emptyNode
      else children entries priorityNode).getImmediateChild childName =
        (entries.lookup childName).getD emptyNode := by
  split
  next hnil =>
    rw [List.isEmpty_iff.mp hnil]
    simp
  next => rw [getImmediateChild_children]

theorem getImmediateChild_updateChildren (childName other : κ)
    (newChildNode : FNode κ α) (entries : List (κ × FNode κ α))
    (priorityNode : Option (FNode κ α)) :
    (updateChildren entries priorityNode childName
        newChildNode).getImmediateChild other =
      if other = childName then newChildNode.orEmpty
      else (entries.lookup other).getD emptyNode := by
  rw [updateChildren_eq]
  dsimp only
  rw [getImmediateChild_built]
  by_cases hother : other = childName
  · by_cases hempty : newChildNode.isEmpty <;> simp [hother, hempty, orEmpty]
  · by_cases hempty : newChildNode.isEmpty <;> simp [hother, hempty]

theorem getImmediateChild_updatePriority (node aPriority : FNode κ α)
    (childName : κ) :
    (node.updatePriority aPriority).getImmediateChild childName =
      node.getImmediateChild childName := by
  cases node with
  | leaf value priorityNode => simp [updatePriority]
  | children entries priorityNode =>
      rw [updatePriority, getImmediateChild_built, getImmediateChild_children]

theorem getImmediateChild_updateImmediateChild (childName other : κ)
    (newChildNode node : FNode κ α) :
    (node.updateImmediateChild childName newChildNode).getImmediateChild
        other =
      if other = childName then newChildNode.orEmpty
      else node.getImmediateChild other := by
  cases node with
  | leaf value priorityNode =>
      rw [updateImmediateChild, isPriority_eq_false,
        if_neg Bool.false_ne_true]
      split
      next hempty => simp [orEmpty, hempty]
      next =>
        rw [getImmediateChild_updatePriority,
          getImmediateChild_updateChildren]
        simp
  | children entries priorityNode =>
      rw [updateImmediateChild, getImmediateChild_updateChildren,
        getImmediateChild_children]

theorem isEmpty_updateImmediateChild_emptyNode (childName : κ)
    {newChildNode : FNode κ α} (hempty : newChildNode.isEmpty) :
    (emptyNode.updateImmediateChild childName newChildNode).isEmpty := by
  rw [emptyNode, updateImmediateChild, updateChildren_eq]
  simp [hempty, KeyedList.erase]

theorem isEmpty_updateChild_emptyNode (path : FPath κ)
    {newChildNode : FNode κ α} (hempty : newChildNode.isEmpty) :
    (emptyNode.updateChild path newChildNode).isEmpty := by
  induction path with
  | nil => simpa [emptyNode, updateChild] using hempty
  | cons front path ih =>
      change (updateImmediateChild emptyNode front
        ((getImmediateChild emptyNode front).updateChild path
          newChildNode)).isEmpty
      rw [getImmediateChild_emptyNode]
      exact isEmpty_updateImmediateChild_emptyNode front ih

/-- A leaf is updated as any other node is. -/
theorem updateChild_cons (front : κ) (path : FPath κ)
    (newChildNode node : FNode κ α) :
    node.updateChild (front :: path) newChildNode =
      node.updateImmediateChild front
        ((node.getImmediateChild front).updateChild path newChildNode) := by
  cases node with
  | leaf value priorityNode =>
      rw [getImmediateChild_leaf, updateChild, isPriority_eq_false]
      split
      next hempty =>
        have hbelow := isEmpty_updateChild_emptyNode path
          (by simpa using hempty : newChildNode.isEmpty)
        simp [updateImmediateChild, hbelow]
      next => rfl
  | children entries priorityNode => rw [updateChild]

@[simp] theorem updateChild_nil (newChildNode node : FNode κ α) :
    node.updateChild [] newChildNode = newChildNode := by
  cases node <;> simp [updateChild]

/-! ## Values at paths -/

@[simp] theorem valueAt_cons (node : FNode κ α) (front : κ)
    (path : FPath κ) :
    node.valueAt (front :: path) =
      (node.getImmediateChild front).valueAt path := by
  simp [valueAt]

@[simp] theorem valueAt_getChild (node : FNode κ α) (path rest : FPath κ) :
    (node.getChild path).valueAt rest = node.valueAt (path ++ rest) := by
  simp [valueAt, getChild_append]

@[simp] theorem valueAt_emptyNode (path : FPath κ) :
    (emptyNode : FNode κ α).valueAt path = none := by
  unfold valueAt
  rw [getChild_emptyNode]
  simp [emptyNode]

@[simp] theorem valueAt_children_nil (entries : List (κ × FNode κ α))
    (priorityNode : Option (FNode κ α)) :
    (children entries priorityNode).valueAt [] = none := by
  simp [valueAt]

theorem valueAt_of_isEmpty {node : FNode κ α} (hempty : node.isEmpty)
    (path : FPath κ) : node.valueAt path = none := by
  cases node with
  | leaf value priorityNode => contradiction
  | children entries priorityNode =>
      rw [List.isEmpty_iff.mp (show entries.isEmpty = true from hempty)]
      cases path <;> simp

@[simp] theorem valueAt_orEmpty (node : FNode κ α) (path : FPath κ) :
    node.orEmpty.valueAt path = node.valueAt path := by
  unfold orEmpty
  split
  next hempty => rw [valueAt_emptyNode, valueAt_of_isEmpty hempty]
  next => rfl

theorem valueAt_built_nil (entries : List (κ × FNode κ α))
    (priorityNode : Option (FNode κ α)) :
    (if entries.isEmpty then emptyNode
      else children entries priorityNode).valueAt [] = none := by
  split <;> simp

theorem valueAt_updateChildren_nil (childName : κ)
    (newChildNode : FNode κ α) (entries : List (κ × FNode κ α))
    (priorityNode : Option (FNode κ α)) :
    (updateChildren entries priorityNode childName newChildNode).valueAt [] =
      none := by
  rw [updateChildren_eq]
  exact valueAt_built_nil _ _

theorem valueAt_updateImmediateChild_nil {node : FNode κ α}
    (hnode : node.valueAt [] = none) (childName : κ)
    (newChildNode : FNode κ α) :
    (node.updateImmediateChild childName newChildNode).valueAt [] = none := by
  cases node with
  | leaf value priorityNode => simp [valueAt] at hnode
  | children entries priorityNode =>
      exact valueAt_updateChildren_nil childName newChildNode entries
        priorityNode

/-- No leaf stands strictly above a path. -/
def OpenAbove (node : FNode κ α) (path : FPath κ) : Prop :=
  ∀ above, Above above path → node.valueAt above = none

theorem OpenAbove.child {node : FNode κ α} {front : κ} {path : FPath κ}
    (hopen : node.OpenAbove (front :: path)) :
    (node.getImmediateChild front).OpenAbove path := by
  intro above habove
  have hvalue := hopen (front :: above) (above_cons_cons.mpr habove)
  rwa [valueAt_cons] at hvalue

theorem OpenAbove.root {node : FNode κ α} {front : κ} {path : FPath κ}
    (hopen : node.OpenAbove (front :: path)) : node.valueAt [] = none :=
  hopen [] (nil_above front path)

/-- An update is read back at and below its path, and every other path reads
as before. -/
theorem valueAt_updateChild {node : FNode κ α} {path : FPath κ}
    (hopen : node.OpenAbove path) (newChildNode : FNode κ α)
    (place : FPath κ) :
    (node.updateChild path newChildNode).valueAt place =
      ((relativePathFrom path place).map newChildNode.valueAt).getD
        (node.valueAt place) := by
  induction path generalizing node place with
  | nil => simp
  | cons front path ih =>
      rw [updateChild_cons]
      cases place with
      | nil =>
          rw [valueAt_updateImmediateChild_nil hopen.root,
            relativePathFrom_cons_nil, hopen.root]
          simp
      | cons first place =>
          rw [valueAt_cons, getImmediateChild_updateImmediateChild,
            relativePathFrom_cons_cons]
          by_cases hfront : front = first
          · subst hfront
            simpa using ih hopen.child place
          · simp [hfront, Ne.symm hfront]

end FNode

end FirebaseDatabase
