import Stockly.KeyTree

/-!
# Reading and writing at paths

What stands at a path of a keyed tree, writing there, and how writes and
removals at one path leave every path apart from it as it was.
-/

universe u

namespace KeyTree.Forest

variable {α : Type u}

/-- The children of a child; a leaf has none. -/
def below (key : String) (forest : Forest α) : Forest α :=
  match forest.lookup key with
  | some (.branch children) => children
  | _ => []

def insert (key : String) (tree : KeyTree α) (forest : Forest α) :
    Forest α :=
  if (forest.lookup key).isSome then forest.replace key tree
  else forest ++ [(key, tree)]

def find : List String → Forest α → Option (KeyTree α)
  | [], forest => if forest.isEmpty then none else some (.branch forest)
  | [key], forest => forest.lookup key
  | key :: path, forest => find path (forest.below key)

/-- Write a tree at a path below the root; the nodes on the way are created,
and a leaf on the way becomes a node. -/
def put (tree : KeyTree α) : List String → Forest α → Forest α
  | [], forest => forest
  | [key], forest => forest.insert key tree
  | key :: path, forest =>
      forest.insert key (.branch (put tree path (forest.below key)))

/-- Neither path leads through the other. -/
def Apart (path other : List String) : Prop :=
  ¬ path <+: other ∧ ¬ other <+: path

instance (path other : List String) : Decidable (Apart path other) :=
  inferInstanceAs (Decidable (_ ∧ _))

theorem apart_cons_iff {key first : String} {path other : List String} :
    Apart (key :: path) (first :: other) ↔
      key ≠ first ∨ Apart path other := by
  unfold Apart
  rw [List.cons_prefix_cons, List.cons_prefix_cons]
  by_cases hsame : key = first
  · simp [hsame]
  · simp [hsame, Ne.symm hsame]

theorem apart_of_length_eq {path other : List String} (hne : path ≠ other)
    (hlength : path.length = other.length) : Apart path other := by
  constructor
  · intro habove
    exact hne (habove.eq_of_length hlength)
  · intro habove
    exact hne (habove.eq_of_length hlength.symm).symm

theorem not_apart_nil (path : List String) : ¬ Apart path [] := by
  intro hapart
  exact hapart.2 List.nil_prefix

theorem not_nil_apart (path : List String) : ¬ Apart [] path := by
  intro hapart
  exact hapart.1 List.nil_prefix

/-! ## One step down -/

theorem lookup_insert (key other : String) (tree : KeyTree α)
    (forest : Forest α) :
    (forest.insert key tree).lookup other =
      if other = key then some tree else forest.lookup other := by
  unfold insert
  cases hold : forest.lookup key with
  | none =>
      rw [if_neg (by simp), List.lookup_append]
      by_cases hother : other = key
      · subst other
        simp [hold]
      · have hbeq : (other == key) = false := by simpa using hother
        simp [List.lookup_cons, hbeq, hother]
  | some old =>
      rw [if_pos (by simp), lookup_replace, hold]
      rfl

theorem below_insert_self (key : String) (children : Forest α)
    (forest : Forest α) :
    (forest.insert key (.branch children)).below key = children := by
  simp [below, lookup_insert]

theorem find_cons_congr {key : String} {path : List String}
    {forest other : Forest α}
    (hlookup : forest.lookup key = other.lookup key) :
    forest.find (key :: path) = other.find (key :: path) := by
  cases path with
  | nil => exact hlookup
  | cons next path =>
      unfold find below
      rw [hlookup]

theorem find_cons_cons (key next : String) (path : List String)
    (forest : Forest α) :
    find (key :: next :: path) forest =
      find (next :: path) (forest.below key) := rfl

theorem put_cons_cons (tree : KeyTree α) (key next : String)
    (path : List String) (forest : Forest α) :
    put tree (key :: next :: path) forest =
      forest.insert key
        (.branch (put tree (next :: path) (forest.below key))) := rfl

theorem find_nil (path : List String) :
    find path ([] : Forest α) = none := by
  induction path with
  | nil => rfl
  | cons key path ih =>
      cases path with
      | nil => rfl
      | cons next path => exact ih

/-! ## Reading after a write -/

theorem find_put_self (tree : KeyTree α) {path : List String}
    (hpath : path ≠ []) (forest : Forest α) :
    find path (put tree path forest) = some tree := by
  induction path generalizing forest with
  | nil => contradiction
  | cons key path ih =>
      cases path with
      | nil => simp [find, put, lookup_insert]
      | cons next path =>
          rw [put_cons_cons, find_cons_cons, below_insert_self]
          exact ih (List.cons_ne_nil next path) (forest.below key)

theorem find_put_of_apart (tree : KeyTree α) {path other : List String}
    (hapart : Apart path other) (forest : Forest α) :
    find other (put tree path forest) = find other forest := by
  induction path generalizing other forest with
  | nil => exact absurd hapart (not_nil_apart other)
  | cons key path ih =>
      cases other with
      | nil => exact absurd hapart (not_apart_nil _)
      | cons first other =>
          by_cases hsame : key = first
          · -- the write goes on below the same child
            subst hsame
            have hrest : Apart path other := by
              simpa using apart_cons_iff.mp hapart
            cases path with
            | nil => exact absurd hrest (not_nil_apart other)
            | cons next path =>
                cases other with
                | nil => exact absurd hrest (not_apart_nil _)
                | cons second other =>
                    have hbelow := ih hrest (forest.below key)
                    rw [put_cons_cons, find_cons_cons, find_cons_cons,
                      below_insert_self]
                    exact hbelow
          · have hlookup : ∀ written : KeyTree α,
                (forest.insert key written).lookup first =
                  forest.lookup first := by
              intro written
              rw [lookup_insert, if_neg (Ne.symm hsame)]
            cases path with
            | nil => exact find_cons_congr (hlookup tree)
            | cons next path => exact find_cons_congr (hlookup _)

theorem find_put_below (children : Forest α) {path : List String}
    (hpath : path ≠ []) (key : String) (further : List String)
    (forest : Forest α) :
    find (path ++ key :: further) (put (.branch children) path forest) =
      find (key :: further) children := by
  induction path generalizing forest with
  | nil => contradiction
  | cons first path ih =>
      cases path with
      | nil =>
          rw [List.singleton_append, find_cons_cons]
          simp only [put, below_insert_self]
      | cons next path =>
          have hbelow := ih (List.cons_ne_nil next path) (forest.below first)
          rw [put_cons_cons, List.cons_append, List.cons_append,
            find_cons_cons, below_insert_self]
          exact hbelow

theorem find_append_of_none {path : List String} (hpath : path ≠ [])
    (further : List String) {forest : Forest α}
    (hnone : find path forest = none) :
    find (path ++ further) forest = none := by
  induction path generalizing forest with
  | nil => contradiction
  | cons key path ih =>
      cases path with
      | nil =>
          cases further with
          | nil => exact hnone
          | cons next further =>
              have hlookup : forest.lookup key = none := hnone
              simp [find, below, hlookup, find_nil]
      | cons next path => exact ih (List.cons_ne_nil next path) hnone

/-! ## Reading after a removal -/

theorem find_remove_of_apart {path other : List String}
    {forest rest : Forest α} (hapart : Apart path other)
    (hremove : remove path forest = some rest) :
    find other rest = find other forest := by
  induction path generalizing other forest rest with
  | nil => exact absurd hapart (not_nil_apart other)
  | cons key path ih =>
      cases other with
      | nil => exact absurd hapart (not_apart_nil _)
      | cons first other =>
          cases path with
          | nil =>
              have hne : first ≠ key := by
                rintro rfl
                exact hapart.1 (by simp)
              unfold remove at hremove
              split at hremove
              next =>
                cases hremove
                apply find_cons_congr
                rw [lookup_erase, if_neg hne]
              next => contradiction
          | cons next path =>
              obtain ⟨children, kept, hchild, hkept, hrest⟩ :=
                remove_below hremove
              by_cases hsame : key = first
              · subst hsame
                have hdeeper : Apart (next :: path) other := by
                  simpa using apart_cons_iff.mp hapart
                cases other with
                | nil => exact absurd hdeeper (not_apart_nil _)
                | cons second other =>
                    have hbelow : forest.below key = children := by
                      simp [below, hchild]
                    have hrestBelow : rest.below key = kept := by
                      rw [hrest]
                      cases kept with
                      | nil => simp [below, lookup_erase]
                      | cons => simp [below, lookup_replace, hchild]
                    have hdown := ih hdeeper hkept
                    rw [find_cons_cons, find_cons_cons, hbelow, hrestBelow]
                    exact hdown
              · apply find_cons_congr
                rw [hrest]
                split
                · rw [lookup_erase, if_neg (Ne.symm hsame)]
                · rw [lookup_replace, if_neg (Ne.symm hsame)]

end KeyTree.Forest
