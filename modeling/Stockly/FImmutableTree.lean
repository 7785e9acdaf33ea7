import Stockly.FPath
import Stockly.KeyedList

/-!
# Trees of values

A tree which may hold a value at every path.  The pending writes are kept in
such a tree, where the value nearest to the root covers everything below it:
what covers a path is the first value met on the way down, together with the
rest of the path.
-/

universe u v

namespace FirebaseDatabase

open FPath

inductive FImmutableTree (κ : Type u) (β : Type v) where
  | node (value : Option β) (children : List (κ × FImmutableTree κ β))

namespace FImmutableTree

variable {κ : Type u} {β : Type v} [DecidableEq κ]

def value : FImmutableTree κ β → Option β
  | .node value _ => value

def children : FImmutableTree κ β → List (κ × FImmutableTree κ β)
  | .node _ children => children

def initWithValue (aValue : Option β) : FImmutableTree κ β := .node aValue []

def empty : FImmutableTree κ β := initWithValue none

def isEmpty (tree : FImmutableTree κ β) : Bool :=
  tree.value.isNone && tree.children.isEmpty

/-- The child at a key, or the empty tree. -/
def childOrEmpty (tree : FImmutableTree κ β) (front : κ) :
    FImmutableTree κ β :=
  (tree.children.lookup front).getD empty

def findRootMostMatchingPath (predicate : β → Bool) :
    FImmutableTree κ β → FPath κ → Option (FPath κ × β)
  | tree, [] => (tree.value.filter predicate).map fun value => ([], value)
  | tree, front :: path =>
      match tree.value.filter predicate with
      | some value => some ([], value)
      | none =>
          match tree.children.lookup front with
          | none => none
          | some child =>
              (findRootMostMatchingPath predicate child path).map
                fun existing => (front :: existing.1, existing.2)

def findRootMostValueAndPath (tree : FImmutableTree κ β)
    (relativePath : FPath κ) : Option (FPath κ × β) :=
  findRootMostMatchingPath (fun _ => true) tree relativePath

def subtreeAtPath : FImmutableTree κ β → FPath κ → FImmutableTree κ β
  | tree, [] => tree
  | tree, front :: path =>
      match tree.children.lookup front with
      | none => empty
      | some childTree => subtreeAtPath childTree path

def setValue : FImmutableTree κ β → β → FPath κ → FImmutableTree κ β
  | tree, newValue, [] => .node (some newValue) tree.children
  | tree, newValue, front :: path =>
      .node tree.value
        (KeyedList.insert front
          (setValue (tree.childOrEmpty front) newValue path) tree.children)

def setTree :
    FImmutableTree κ β → FImmutableTree κ β → FPath κ → FImmutableTree κ β
  | _, newTree, [] => newTree
  | tree, newTree, front :: path =>
      let newChild := setTree (tree.childOrEmpty front) newTree path
      .node tree.value
        (if newChild.isEmpty then KeyedList.erase front tree.children
        else KeyedList.insert front newChild tree.children)

mutual

/-- The values with their paths, in the order in which the block is called. -/
def forEachPathSoFar (pathSoFar : FPath κ) :
    FImmutableTree κ β → List (FPath κ × β)
  | .node value children =>
      forEachChildSoFar pathSoFar children ++
        (value.map fun aValue => (pathSoFar, aValue)).toList

def forEachChildSoFar (pathSoFar : FPath κ) :
    List (κ × FImmutableTree κ β) → List (FPath κ × β)
  | [] => []
  | (childKey, childTree) :: rest =>
      forEachPathSoFar (pathSoFar ++ [childKey]) childTree ++
        forEachChildSoFar pathSoFar rest

end

def forEach (tree : FImmutableTree κ β) : List (FPath κ × β) :=
  forEachPathSoFar [] tree

/-- The keys of the children differ, at every node of the tree. -/
inductive Distinct : FImmutableTree κ β → Prop where
  | node {value : Option β} {children : List (κ × FImmutableTree κ β)}
      (hkeys : KeyedList.Distinct children)
      (hchildren : ∀ child ∈ children, Distinct child.2) :
      Distinct (.node value children)

/-- The value which covers a path and what remains of the path there. -/
def covering : FImmutableTree κ β → FPath κ → Option (β × FPath κ)
  | .node (some value) _, path => some (value, path)
  | .node none _, [] => none
  | .node none children, front :: path =>
      (children.lookup front).bind fun child => covering child path

/-! ## The value which covers a path -/

@[simp] theorem covering_node_some (aValue : β)
    (children : List (κ × FImmutableTree κ β)) (path : FPath κ) :
    covering (.node (some aValue) children) path = some (aValue, path) := by
  cases path <;> simp [covering]

@[simp] theorem covering_node_none_nil
    (children : List (κ × FImmutableTree κ β)) :
    covering (.node none children) [] = none := by
  simp [covering]

@[simp] theorem covering_node_none_cons
    (children : List (κ × FImmutableTree κ β)) (front : κ)
    (path : FPath κ) :
    covering (.node none children) (front :: path) =
      (children.lookup front).bind fun child => covering child path := by
  simp [covering]

@[simp] theorem covering_empty (path : FPath κ) :
    covering (empty : FImmutableTree κ β) path = none := by
  cases path <;> simp [empty, initWithValue]

theorem covering_of_isEmpty {tree : FImmutableTree κ β}
    (hempty : tree.isEmpty) (path : FPath κ) : tree.covering path = none := by
  rcases tree with ⟨value, children⟩
  have hboth : value = none ∧ children = [] := by
    simpa [isEmpty, FImmutableTree.value, FImmutableTree.children] using hempty
  rw [hboth.1, hboth.2]
  exact covering_empty path

theorem covering_childOrEmpty (front : κ) (path : FPath κ)
    (children : List (κ × FImmutableTree κ β)) :
    covering (childOrEmpty (.node none children) front) path =
      covering (.node none children) (front :: path) := by
  rw [covering_node_none_cons, childOrEmpty, FImmutableTree.children]
  cases children.lookup front <;> simp

theorem covering_append {tree : FImmutableTree κ β} {path rest : FPath κ}
    {aValue : β} (hcovering : tree.covering path = some (aValue, rest))
    (further : FPath κ) :
    tree.covering (path ++ further) = some (aValue, rest ++ further) := by
  induction path generalizing tree with
  | nil =>
      rcases tree with ⟨_ | value, children⟩
      · simp at hcovering
      · simp at hcovering ⊢
        exact ⟨hcovering.1, by simp [hcovering.2]⟩
  | cons front path ih =>
      rcases tree with ⟨_ | value, children⟩
      · rw [covering_node_none_cons] at hcovering
        obtain ⟨child, hchild, hrest⟩ := Option.bind_eq_some_iff.mp hcovering
        rw [List.cons_append, covering_node_none_cons, hchild]
        exact ih hrest
      · simp at hcovering ⊢
        exact ⟨hcovering.1, by simp [← hcovering.2]⟩

theorem covering_eq_none_of_append {tree : FImmutableTree κ β}
    {path further : FPath κ}
    (hnone : tree.covering (path ++ further) = none) :
    tree.covering path = none := by
  cases hcovering : tree.covering path with
  | none => rfl
  | some found =>
      rw [covering_append hcovering] at hnone
      contradiction

theorem covering_above {tree : FImmutableTree κ β} {above path : FPath κ}
    (hnone : tree.covering path = none) (habove : Above above path) :
    tree.covering above = none := by
  obtain ⟨key, rest, rfl⟩ := habove
  exact covering_eq_none_of_append hnone

/-- No value stands strictly above a path. -/
def OpenAbove (tree : FImmutableTree κ β) (path : FPath κ) : Prop :=
  ∀ above, Above above path → tree.covering above = none

theorem OpenAbove.root {tree : FImmutableTree κ β} {front : κ}
    {path : FPath κ} (hopen : tree.OpenAbove (front :: path)) :
    tree.value = none := by
  have hnone := hopen [] (nil_above front path)
  rcases tree with ⟨_ | value, children⟩
  · rfl
  · simp at hnone

theorem OpenAbove.child {children : List (κ × FImmutableTree κ β)}
    {front : κ} {path : FPath κ}
    (hopen : (node none children).OpenAbove (front :: path)) :
    (childOrEmpty (.node none children) front).OpenAbove path := by
  intro above habove
  rw [covering_childOrEmpty]
  exact hopen (front :: above) (above_cons_cons.mpr habove)

/-! ## The search for the value nearest to the root -/

theorem filter_any (aValue : Option β) :
    aValue.filter (fun _ => true) = aValue := by
  cases aValue <;> simp [Option.filter]

theorem findRootMostValueAndPath_nil (tree : FImmutableTree κ β) :
    tree.findRootMostValueAndPath [] =
      tree.value.map fun aValue => ([], aValue) := by
  unfold findRootMostValueAndPath findRootMostMatchingPath
  rw [filter_any]

theorem findRootMostValueAndPath_some (aValue : β)
    (children : List (κ × FImmutableTree κ β)) (path : FPath κ) :
    findRootMostValueAndPath (.node (some aValue) children) path =
      some ([], aValue) := by
  cases path with
  | nil => rw [findRootMostValueAndPath_nil]; rfl
  | cons front path =>
      simp [findRootMostValueAndPath, findRootMostMatchingPath, value,
        filter_any]

theorem findRootMostValueAndPath_cons
    (children : List (κ × FImmutableTree κ β)) (front : κ)
    (path : FPath κ) :
    findRootMostValueAndPath (.node none children) (front :: path) =
      ((children.lookup front).bind fun child =>
        child.findRootMostValueAndPath path).map
        fun existing => (front :: existing.1, existing.2) := by
  unfold findRootMostValueAndPath
  rw [findRootMostMatchingPath]
  simp only [value, FImmutableTree.children, filter_any]
  cases children.lookup front <;> rfl

theorem findRootMostValueAndPath_eq_none_iff {tree : FImmutableTree κ β}
    {path : FPath κ} :
    tree.findRootMostValueAndPath path = none ↔
      tree.covering path = none := by
  induction path generalizing tree with
  | nil =>
      rcases tree with ⟨_ | value, children⟩
      · simp [findRootMostValueAndPath_nil, value]
      · simp [findRootMostValueAndPath_some]
  | cons front path ih =>
      rcases tree with ⟨_ | value, children⟩
      · rw [findRootMostValueAndPath_cons, covering_node_none_cons,
          Option.map_eq_none_iff]
        cases children.lookup front with
        | none => simp
        | some child => simpa using ih
      · simp [findRootMostValueAndPath_some]

/-- What the search returns covers the path, and nothing covers it from
further above. -/
theorem findRootMostValueAndPath_spec {tree : FImmutableTree κ β}
    {path found : FPath κ} {aValue : β}
    (hfind : tree.findRootMostValueAndPath path = some (found, aValue)) :
    ∃ rest, path = found ++ rest ∧
      tree.covering found = some (aValue, []) ∧ tree.OpenAbove found := by
  induction path generalizing tree found with
  | nil =>
      rcases tree with ⟨_ | value, children⟩
      · simp [findRootMostValueAndPath_nil, FImmutableTree.value] at hfind
      · rw [findRootMostValueAndPath_some] at hfind
        cases hfind
        exact ⟨[], by simp, by simp, fun above habove =>
          absurd habove (above_nil above)⟩
  | cons front path ih =>
      rcases tree with ⟨_ | value, children⟩
      · rw [findRootMostValueAndPath_cons] at hfind
        obtain ⟨⟨below, other⟩, hbind, hcons⟩ := Option.map_eq_some_iff.mp hfind
        obtain ⟨child, hchild, hbelow⟩ := Option.bind_eq_some_iff.mp hbind
        cases hcons
        obtain ⟨rest, hpath, hcovering, hopen⟩ := ih hbelow
        have hhere : ∀ place,
            covering (.node none children) (front :: place) =
              child.covering place := by
          intro place
          rw [covering_node_none_cons, hchild]
          rfl
        exact ⟨rest, by rw [hpath]; rfl, by rw [hhere, hcovering], by
          intro above habove
          cases above with
          | nil => simp
          | cons first above =>
              obtain ⟨key, further, hsplit⟩ := habove
              obtain ⟨hfirst, hrest⟩ := List.cons.inj hsplit
              rw [← hfirst, hhere]
              exact hopen above ⟨key, further, hrest⟩⟩
      · rw [findRootMostValueAndPath_some] at hfind
        cases hfind
        exact ⟨front :: path, by simp, by simp, fun above habove =>
          absurd habove (above_nil above)⟩

/-! ## Writing into the tree -/

theorem covering_setValue {tree : FImmutableTree κ β} {path : FPath κ}
    (hopen : tree.OpenAbove path) (newValue : β) (place : FPath κ) :
    (tree.setValue newValue path).covering place =
      match relativePathFrom path place with
      | some rest => some (newValue, rest)
      | none => tree.covering place := by
  induction path generalizing tree place with
  | nil => simp [setValue]
  | cons front path ih =>
      have hvalue := hopen.root
      rcases tree with ⟨value, children⟩
      cases (show value = none from hvalue)
      rw [setValue, FImmutableTree.value, FImmutableTree.children]
      cases place with
      | nil => simp
      | cons first place =>
          rw [covering_node_none_cons, KeyedList.lookup_insert,
            relativePathFrom_cons_cons]
          by_cases hfront : front = first
          · subst hfront
            rw [if_pos rfl, if_pos rfl, Option.bind_some, ih hopen.child]
            cases relativePathFrom path place with
            | none => exact covering_childOrEmpty front place children
            | some rest => rfl
          · rw [if_neg (Ne.symm hfront), if_neg hfront]
            exact (covering_node_none_cons children first place).symm

theorem covering_setTree_below (newTree : FImmutableTree κ β)
    (front : κ) (path place : FPath κ)
    (children : List (κ × FImmutableTree κ β)) :
    (setTree (.node none children) newTree (front :: path)).covering
        (front :: place) =
      (setTree (childOrEmpty (.node none children) front)
        newTree path).covering place := by
  rw [setTree]
  simp only [FImmutableTree.value, FImmutableTree.children]
  rw [covering_node_none_cons]
  split
  next hempty =>
    rw [covering_of_isEmpty hempty, KeyedList.lookup_erase, if_pos rfl]
    rfl
  next =>
    rw [KeyedList.lookup_insert, if_pos rfl]
    rfl

theorem covering_setTree_beside (newTree : FImmutableTree κ β)
    {front first : κ} (hfront : front ≠ first) (path place : FPath κ)
    (children : List (κ × FImmutableTree κ β)) :
    (setTree (.node none children) newTree (front :: path)).covering
        (first :: place) =
      covering (.node none children) (first :: place) := by
  rw [setTree]
  simp only [FImmutableTree.value, FImmutableTree.children]
  rw [covering_node_none_cons, covering_node_none_cons]
  split
  next => rw [KeyedList.lookup_erase, if_neg (Ne.symm hfront)]
  next => rw [KeyedList.lookup_insert, if_neg (Ne.symm hfront)]

theorem covering_setTree_nil (newTree : FImmutableTree κ β) (front : κ)
    (path : FPath κ) (children : List (κ × FImmutableTree κ β)) :
    (setTree (.node none children) newTree (front :: path)).covering [] =
      none := by
  rw [setTree]
  simp [FImmutableTree.value]

theorem covering_setTree {tree : FImmutableTree κ β} {path : FPath κ}
    (hopen : tree.OpenAbove path) (newTree : FImmutableTree κ β)
    (place : FPath κ) :
    (tree.setTree newTree path).covering place =
      match relativePathFrom path place with
      | some rest => newTree.covering rest
      | none => tree.covering place := by
  induction path generalizing tree place with
  | nil => simp [setTree]
  | cons front path ih =>
      have hvalue := hopen.root
      rcases tree with ⟨value, children⟩
      cases (show value = none from hvalue)
      cases place with
      | nil => simp [covering_setTree_nil]
      | cons first place =>
          rw [relativePathFrom_cons_cons]
          by_cases hfront : front = first
          · subst hfront
            rw [covering_setTree_below newTree, if_pos rfl,
              ih hopen.child]
            cases relativePathFrom path place with
            | none => exact covering_childOrEmpty front place children
            | some rest => rfl
          · rw [if_neg hfront]
            exact covering_setTree_beside newTree hfront path place children

/-- Below a value, a change of the tree shows nowhere. -/
theorem covering_setTree_of_above {tree : FImmutableTree κ β}
    {above path : FPath κ} (habove : Above above path)
    (hcovered : tree.covering above ≠ none) (newTree : FImmutableTree κ β)
    (place : FPath κ) :
    (tree.setTree newTree path).covering place = tree.covering place := by
  induction path generalizing tree above place with
  | nil => exact absurd habove (above_nil above)
  | cons front path ih =>
      rcases tree with ⟨_ | value, children⟩
      · cases above with
        | nil => simp at hcovered
        | cons first above =>
            obtain ⟨key, further, hsplit⟩ := habove
            obtain ⟨hfirst, hrest⟩ := List.cons.inj hsplit
            subst hfirst
            rw [← covering_childOrEmpty] at hcovered
            cases place with
            | nil => simp [covering_setTree_nil]
            | cons second place =>
                by_cases hsecond : front = second
                · subst hsecond
                  rw [covering_setTree_below newTree,
                    ih ⟨key, further, hrest⟩ hcovered,
                    covering_childOrEmpty]
                · exact covering_setTree_beside newTree hsecond path place
                    children
      · simp [setTree, FImmutableTree.value]

theorem covering_subtreeAtPath {tree : FImmutableTree κ β} {path : FPath κ}
    (hnone : tree.covering path = none) (place : FPath κ) :
    (tree.subtreeAtPath path).covering place =
      tree.covering (path ++ place) := by
  induction path generalizing tree with
  | nil => simp [subtreeAtPath]
  | cons front path ih =>
      rcases tree with ⟨_ | value, children⟩
      · rw [covering_node_none_cons] at hnone
        rw [List.cons_append, covering_node_none_cons, subtreeAtPath,
          FImmutableTree.children]
        cases hchild : children.lookup front with
        | none => simp
        | some child =>
            rw [hchild] at hnone
            exact ih hnone
      · simp at hnone

/-! ## The keys stay distinct -/

omit [DecidableEq κ] in
theorem distinct_initWithValue (aValue : Option β) :
    (initWithValue aValue : FImmutableTree κ β).Distinct :=
  .node List.nodup_nil (by simp)

omit [DecidableEq κ] in
theorem Distinct.children_keys {tree : FImmutableTree κ β}
    (hdistinct : tree.Distinct) : KeyedList.Distinct tree.children := by
  cases hdistinct with
  | node hkeys hchildren => exact hkeys

omit [DecidableEq κ] in
theorem Distinct.of_mem {tree : FImmutableTree κ β}
    (hdistinct : tree.Distinct) {child : κ × FImmutableTree κ β}
    (hchild : child ∈ tree.children) : child.2.Distinct := by
  cases hdistinct with
  | node hkeys hchildren => exact hchildren child hchild

theorem Distinct.childOrEmpty {tree : FImmutableTree κ β}
    (hdistinct : tree.Distinct) (front : κ) :
    (tree.childOrEmpty front).Distinct := by
  unfold FImmutableTree.childOrEmpty
  cases hchild : tree.children.lookup front with
  | none => exact distinct_initWithValue none
  | some child => exact hdistinct.of_mem (KeyedList.mem_of_lookup hchild)

theorem Distinct.insert {tree newChild : FImmutableTree κ β}
    (hdistinct : tree.Distinct) (hnew : newChild.Distinct)
    (aValue : Option β) (front : κ) :
    (FImmutableTree.node aValue
      (KeyedList.insert front newChild tree.children)).Distinct := by
  apply Distinct.node (hdistinct.children_keys.insert front newChild)
  intro child hchild
  rcases List.mem_cons.mp hchild with heq | hrest
  · rw [heq]
    exact hnew
  · exact hdistinct.of_mem (KeyedList.mem_erase.mp hrest).1

theorem Distinct.erase {tree : FImmutableTree κ β}
    (hdistinct : tree.Distinct) (aValue : Option β) (front : κ) :
    (FImmutableTree.node aValue
      (KeyedList.erase front tree.children)).Distinct := by
  apply Distinct.node (hdistinct.children_keys.erase front)
  intro child hchild
  exact hdistinct.of_mem (KeyedList.mem_erase.mp hchild).1

theorem Distinct.setValue {tree : FImmutableTree κ β}
    (hdistinct : tree.Distinct) (newValue : β) (path : FPath κ) :
    (tree.setValue newValue path).Distinct := by
  induction path generalizing tree with
  | nil =>
      cases hdistinct with
      | node hkeys hchildren => exact .node hkeys hchildren
  | cons front path ih =>
      exact hdistinct.insert (ih (hdistinct.childOrEmpty front)) _ front

theorem Distinct.setTree {tree newTree : FImmutableTree κ β}
    (hdistinct : tree.Distinct) (hnew : newTree.Distinct) (path : FPath κ) :
    (tree.setTree newTree path).Distinct := by
  induction path generalizing tree with
  | nil => exact hnew
  | cons front path ih =>
      have hchild := ih (hdistinct.childOrEmpty front)
      rw [FImmutableTree.setTree]
      split
      next => exact hdistinct.erase _ front
      next => exact hdistinct.insert hchild _ front

theorem Distinct.subtreeAtPath {tree : FImmutableTree κ β}
    (hdistinct : tree.Distinct) (path : FPath κ) :
    (tree.subtreeAtPath path).Distinct := by
  induction path generalizing tree with
  | nil => exact hdistinct
  | cons front path ih =>
      rw [FImmutableTree.subtreeAtPath]
      cases hchild : tree.children.lookup front with
      | none => exact distinct_initWithValue none
      | some child => exact ih (hdistinct.of_mem (KeyedList.mem_of_lookup hchild))

end FImmutableTree

end FirebaseDatabase
