import Mathlib.Data.List.Lookmap
import Mathlib.Tactic

/-!
# Keyed trees

A tree whose inner nodes carry keyed children and whose leaves carry scalars,
and the removal of whatever stands at a path.  A node without children does
not exist: the removal of its last child removes the node itself.
-/

universe u

inductive KeyTree (α : Type u) where
  | leaf (value : α)
  | branch (children : List (String × KeyTree α))

namespace KeyTree

abbrev Forest (α : Type u) := List (String × KeyTree α)

variable {α : Type u}

namespace Forest

def keys (forest : Forest α) : List String := forest.map Prod.fst

def erase (key : String) (forest : Forest α) : Forest α :=
  forest.filter fun child => child.1 ≠ key

def replace (key : String) (tree : KeyTree α) (forest : Forest α) :
    Forest α :=
  forest.map fun child => if child.1 = key then (key, tree) else child

/-- Remove what stands at a path; `none` when there is nothing. -/
def remove : List String → Forest α → Option (Forest α)
  | [], forest => if forest.isEmpty then none else some []
  | [key], forest =>
      if (forest.lookup key).isSome then some (forest.erase key) else none
  | key :: path, forest =>
      match forest.lookup key with
      | some (.branch children) =>
          (remove path children).map fun rest =>
            if rest.isEmpty then forest.erase key
            else forest.replace key (.branch rest)
      | _ => none

theorem lookup_erase (key other : String) (forest : Forest α) :
    (forest.erase key).lookup other =
      if other = key then none else forest.lookup other := by
  induction forest with
  | nil => simp [erase]
  | cons child forest ih =>
      obtain ⟨name, tree⟩ := child
      simp only [erase, List.filter_cons] at ih ⊢
      by_cases hname : name = key
      · subst name
        by_cases hother : other = key
        · simpa [hother] using ih
        · have hbeq : (other == key) = false := by simpa using hother
          simpa [List.lookup_cons, hbeq, hother] using ih
      · by_cases hhere : other = name
        · subst other
          simp [hname]
        · have hbeq : (other == name) = false := by simpa using hhere
          simpa [List.lookup_cons, hname, hbeq] using ih

theorem lookup_replace (key other : String) (tree : KeyTree α)
    (forest : Forest α) :
    (forest.replace key tree).lookup other =
      if other = key then (forest.lookup key).map fun _ => tree
      else forest.lookup other := by
  induction forest with
  | nil => simp [replace]
  | cons child forest ih =>
      obtain ⟨name, old⟩ := child
      simp only [replace, List.map_cons] at ih ⊢
      by_cases hname : name = key
      · subst name
        by_cases hother : other = key
        · subst other
          simp
        · have hbeq : (other == key) = false := by simpa using hother
          simpa [List.lookup_cons, hbeq, hother] using ih
      · by_cases hhere : other = name
        · subst other
          simp [hname]
        · have hbeq : (other == name) = false := by simpa using hhere
          have hkey : (key == name) = false := by
            simpa using Ne.symm hname
          simpa [List.lookup_cons, hname, hbeq, hkey] using ih

theorem isSome_lookup_replace (key other : String) (tree : KeyTree α)
    (forest : Forest α) :
    ((forest.replace key tree).lookup other).isSome =
      (forest.lookup other).isSome := by
  rw [lookup_replace]
  by_cases hother : other = key
  · subst other
    rw [if_pos rfl, Option.isSome_map]
  · rw [if_neg hother]

theorem isSome_lookup_iff {key : String} {forest : Forest α} :
    (forest.lookup key).isSome ↔ key ∈ forest.keys := by
  rw [List.lookup_isSome_iff]
  simp [keys]

/-! ## Removal below a child -/

theorem remove_below {key field : String} {path : List String}
    {forest rest : Forest α}
    (hremove : remove (key :: field :: path) forest = some rest) :
    ∃ children kept, forest.lookup key = some (.branch children) ∧
      remove (field :: path) children = some kept ∧
      rest =
        if kept.isEmpty then forest.erase key
        else forest.replace key (.branch kept) := by
  unfold remove at hremove
  split at hremove
  next children hchildren =>
    obtain ⟨kept, hkept, hrest⟩ := Option.map_eq_some_iff.mp hremove
    exact ⟨children, kept, hchildren, hkept, hrest.symm⟩
  next => contradiction

theorem remove_ne_nil_of_leaves {field : String} {path : List String}
    {children kept : Forest α} {first second : String}
    (hleaves : ∀ child ∈ children, ∃ value, child.2 = .leaf value)
    (hfirst : first ∈ children.keys) (hsecond : second ∈ children.keys)
    (hne : first ≠ second)
    (hremove : remove (field :: path) children = some kept) :
    kept ≠ [] := by
  cases path with
  | nil =>
      unfold remove at hremove
      split at hremove
      next =>
        rw [Option.some.injEq] at hremove
        intro hnil
        have hall : ∀ key ∈ children.keys, key = field := by
          intro key hkey
          by_contra hother
          have hsome := isSome_lookup_iff.mpr hkey
          have hlookup := lookup_erase field key children
          rw [hremove, hnil, if_neg hother] at hlookup
          rw [← hlookup] at hsome
          contradiction
        exact hne ((hall first hfirst).trans (hall second hsecond).symm)
      next => contradiction
  | cons next path =>
      obtain ⟨inner, _, hinner, -⟩ := remove_below hremove
      obtain ⟨before, after, hsplit, -⟩ := List.lookup_eq_some_iff.mp hinner
      obtain ⟨value, hvalue⟩ := hleaves (field, .branch inner) (by
        rw [hsplit]
        simp)
      contradiction

def IsRecord (tree : KeyTree α) : Prop :=
  ∃ children first second, tree = .branch children ∧
    (∀ child ∈ children, ∃ value, child.2 = .leaf value) ∧
    first ∈ keys children ∧ second ∈ keys children ∧ first ≠ second

theorem erase_eq_nil_iff {key : String} {forest : Forest α}
    (hdistinct : forest.keys.Nodup) (hkey : key ∈ forest.keys) :
    forest.erase key = [] ↔ forest.keys = [key] := by
  have hall : forest.erase key = [] ↔ ∀ other ∈ forest.keys, other = key := by
    unfold erase keys
    rw [List.filter_eq_nil_iff]
    simp
  rw [hall]
  constructor
  · intro hsame
    have hreplicate : forest.keys = List.replicate forest.keys.length key :=
      List.eq_replicate_of_mem hsame
    have hle : forest.keys.length ≤ 1 := by
      rw [hreplicate] at hdistinct
      exact List.nodup_replicate.mp hdistinct
    have hpos : 0 < forest.keys.length := List.length_pos_of_mem hkey
    have hone : forest.keys.length = 1 := by omega
    rw [hreplicate, hone]
    rfl
  · intro hsingle other hother
    rw [hsingle] at hother
    exact List.mem_singleton.mp hother

/-- Among records, the removal at a path removes exactly one child when the
path is the key of this child, or when it is empty and there is no other. -/
theorem remove_eq_erase_iff {key : String} {path : List String}
    {forest : Forest α} (hdistinct : forest.keys.Nodup)
    (hrecords : ∀ child ∈ forest, IsRecord child.2)
    (hkey : key ∈ forest.keys) :
    (remove path forest).getD forest = forest.erase key ↔
      path = [key] ∨ path = [] ∧ forest.keys = [key] := by
  -- whatever still has the key is not the forest without it
  have hgone : ∀ result : Forest α, (result.lookup key).isSome →
      result ≠ forest.erase key := by
    intro result hsome heq
    rw [heq, lookup_erase, if_pos rfl] at hsome
    contradiction
  have hhere : (forest.lookup key).isSome := isSome_lookup_iff.mpr hkey
  cases path with
  | nil =>
      have hnonempty : forest ≠ [] := by
        intro hnil
        rw [hnil] at hkey
        contradiction
      have hremove : (remove [] forest).getD forest = [] := by
        simp [remove, hnonempty]
      rw [hremove, eq_comm, erase_eq_nil_iff hdistinct hkey]
      simp
  | cons first path =>
      cases path with
      | nil =>
          by_cases hfirst : first ∈ forest.keys
          · have hremove : (remove [first] forest).getD forest =
                forest.erase first := by
              simp [remove, isSome_lookup_iff.mpr hfirst]
            rw [hremove]
            constructor
            · intro herase
              by_contra hne
              apply hgone (forest.erase first) _ herase
              rw [lookup_erase, if_neg (by simpa [eq_comm] using hne)]
              exact hhere
            · intro hpath
              have hsame : first = key := by simpa using hpath
              rw [hsame]
          · have hnone : (forest.lookup first).isSome = false := by
              rw [← Bool.not_eq_true, isSome_lookup_iff]
              exact hfirst
            have hremove : (remove [first] forest).getD forest = forest := by
              simp [remove, hnone]
            rw [hremove]
            constructor
            · intro herase
              exact absurd herase (hgone forest hhere)
            · intro hpath
              have hsame : first = key := by simpa using hpath
              exact absurd (hsame ▸ hkey) hfirst
      | cons field path =>
          have hne : (remove (first :: field :: path) forest).getD forest ≠
              forest.erase key := by
            cases hremove : remove (first :: field :: path) forest with
            | none => exact hgone forest hhere
            | some rest =>
                obtain ⟨children, kept, hchild, hkept, hrest⟩ :=
                  remove_below hremove
                obtain ⟨before, after, hsplit, -⟩ :=
                  List.lookup_eq_some_iff.mp hchild
                obtain ⟨fields, one, other, hbranch, hleaves, hone, hother,
                  hdifferent⟩ := hrecords (first, .branch children) (by
                    rw [hsplit]
                    simp)
                cases hbranch
                have hkeep : kept ≠ [] :=
                  remove_ne_nil_of_leaves hleaves hone hother hdifferent hkept
                rw [if_neg (by simpa using hkeep)] at hrest
                apply hgone
                rw [Option.getD_some, hrest, isSome_lookup_replace]
                exact hhere
          simp [hne]

end Forest

end KeyTree
