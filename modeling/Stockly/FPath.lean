import Mathlib.Tactic

/-!
# Paths

A path is followed from the front.  Paths are compared by their pieces, which
are equal when their names are.
-/

universe u

namespace FirebaseDatabase

/-- The pieces of a path which are still to be followed. -/
abbrev FPath (κ : Type u) := List κ

namespace FPath

variable {κ : Type u}

/-- A path which ends before another one does. -/
def Above (above path : FPath κ) : Prop :=
  ∃ key rest, path = above ++ key :: rest

theorem above_nil (path : FPath κ) : ¬ Above path [] := by
  rintro ⟨key, rest, hpath⟩
  simp at hpath

theorem nil_above (key : κ) (path : FPath κ) : Above [] (key :: path) :=
  ⟨key, path, rfl⟩

theorem above_cons_cons {key : κ} {above path : FPath κ} :
    Above (key :: above) (key :: path) ↔ Above above path := by
  simp [Above]

theorem above_cons_iff {above path : FPath κ} {key : κ} :
    Above above (key :: path) ↔
      above = [] ∨ ∃ rest, above = key :: rest ∧ Above rest path := by
  cases above with
  | nil => simp [nil_above]
  | cons first above =>
      constructor
      · rintro ⟨next, rest, hpath⟩
        obtain ⟨hfirst, hrest⟩ := List.cons.inj hpath
        exact .inr ⟨above, by rw [hfirst], next, rest, hrest⟩
      · rintro (hnil | ⟨rest, hsame, hrest⟩)
        · contradiction
        · obtain ⟨hfirst, rfl⟩ := List.cons.inj hsame
          rw [hfirst]
          exact above_cons_cons.mpr hrest

theorem Above.append_left {above path : FPath κ} (habove : Above above path)
    (root : FPath κ) : Above (root ++ above) (root ++ path) := by
  obtain ⟨key, rest, hpath⟩ := habove
  exact ⟨key, rest, by rw [hpath, List.append_assoc]⟩

theorem Above.ne {above path : FPath κ} (habove : Above above path) :
    path ≠ [] := by
  rintro rfl
  exact above_nil above habove

/-! ## Relative paths -/

variable [DecidableEq κ]

/-- What follows the outer path in the inner one; `none` where the source
throws, because the inner path is not within the outer one. -/
def relativePathFrom : FPath κ → FPath κ → Option (FPath κ)
  | [], inner => some inner
  | _ :: _, [] => none
  | outerFront :: outer, innerFront :: inner =>
      if outerFront = innerFront then relativePathFrom outer inner else none

/-- The relative path where the outer path is known to contain the inner
one. -/
def relativePath (outer inner : FPath κ) : FPath κ :=
  (relativePathFrom outer inner).getD []

/-- The loop over the pieces, once the lengths have been compared. -/
def containsPieces : List κ → List κ → Bool
  | [], _ => true
  | _ :: _, [] => false
  | thisSeg :: rest, otherSeg :: other =>
      if thisSeg ≠ otherSeg then false else containsPieces rest other

def contains (path other : FPath κ) : Bool :=
  if path.length > other.length then false else containsPieces path other

theorem relativePathFrom_eq_some_iff {outer inner rest : FPath κ} :
    relativePathFrom outer inner = some rest ↔ inner = outer ++ rest := by
  induction outer generalizing inner with
  | nil => simp [relativePathFrom]
  | cons outerFront outer ih =>
      cases inner with
      | nil => simp [relativePathFrom]
      | cons innerFront inner =>
          by_cases hfront : outerFront = innerFront
          · simp [relativePathFrom, hfront, ih]
          · simp [relativePathFrom, hfront, Ne.symm hfront]

@[simp] theorem relativePathFrom_append (outer rest : FPath κ) :
    relativePathFrom outer (outer ++ rest) = some rest :=
  relativePathFrom_eq_some_iff.mpr rfl

@[simp] theorem relativePath_append (outer rest : FPath κ) :
    relativePath outer (outer ++ rest) = rest := by
  simp [relativePath]

@[simp] theorem relativePathFrom_nil (inner : FPath κ) :
    relativePathFrom [] inner = some inner := rfl

@[simp] theorem relativePathFrom_cons_nil (front : κ) (outer : FPath κ) :
    relativePathFrom (front :: outer) [] = none := rfl

@[simp] theorem relativePathFrom_cons_cons (outerFront innerFront : κ)
    (outer inner : FPath κ) :
    relativePathFrom (outerFront :: outer) (innerFront :: inner) =
      if outerFront = innerFront then relativePathFrom outer inner
      else none := rfl

theorem relativePathFrom_eq_none_iff {outer inner : FPath κ} :
    relativePathFrom outer inner = none ↔ ¬ outer <+: inner := by
  rw [Option.eq_none_iff_forall_not_mem]
  simp only [Option.mem_def, relativePathFrom_eq_some_iff]
  constructor
  · rintro hnone ⟨rest, hrest⟩
    exact hnone rest hrest.symm
  · intro hbegins rest hrest
    exact hbegins ⟨rest, hrest.symm⟩

/-- What follows a longer path is found in two steps. -/
theorem relativePathFrom_append_left (first second inner : FPath κ) :
    relativePathFrom (first ++ second) inner =
      (relativePathFrom first inner).bind (relativePathFrom second) := by
  induction first generalizing inner with
  | nil => rfl
  | cons front first ih =>
      cases inner with
      | nil => rfl
      | cons innerFront inner =>
          by_cases hfront : front = innerFront
          · simpa [hfront] using ih inner
          · simp [hfront]

theorem relativePathFrom_append_append (root outer inner : FPath κ) :
    relativePathFrom (root ++ outer) (root ++ inner) =
      relativePathFrom outer inner := by
  rw [relativePathFrom_append_left, relativePathFrom_append]
  rfl

theorem containsPieces_iff {path other : List κ} :
    containsPieces path other ↔ path <+: other := by
  induction path generalizing other with
  | nil => simp [containsPieces]
  | cons thisSeg path ih =>
      cases other with
      | nil => simp [containsPieces]
      | cons otherSeg other =>
          unfold containsPieces
          rw [List.cons_prefix_cons]
          by_cases hseg : thisSeg = otherSeg
          · simp [hseg, ih]
          · simp [hseg]

@[simp] theorem contains_iff {path other : FPath κ} :
    contains path other ↔ path <+: other := by
  unfold contains
  split
  next hlonger =>
    constructor
    · intro hfalse
      contradiction
    · intro hbegins
      have hle := hbegins.length_le
      omega
  next => exact containsPieces_iff

end FPath

end FirebaseDatabase
