import Stockly.FPath
import Stockly.FUtilities

/-!
# The paths of an update

An update of several children gives a path for each of them, and none of the
paths may lead through another one.  The check sorts the paths and looks at
neighbours only.  This is enough: between a path and a longer one which begins
with it, the order has only paths which begin with it as well, unless two
different keys read as zero and are of one length.
-/

namespace FirebaseDatabase

namespace FSnapshotUtilities

open FUtilities

/-- The pieces of a path, as they are compared. -/
abbrev Pieces := List NSString

/-- `compare:` of two paths. -/
def comparePath : Pieces → Pieces → Ordering
  | [], [] => .eq
  | [], _ :: _ => .lt
  | _ :: _, [] => .gt
  | piece :: self, otherPiece :: other =>
      match compareKey (.name piece) (.name otherPiece) with
      | .eq => comparePath self other
      | comparison => comparison

def containsPath (path other : Pieces) : Bool :=
  if path.length > other.length then false
  else FPath.containsPieces path other

/-- The loop over the sorted paths: the first path which contains the one
after it, and that one. -/
def ancestorLoop : Option Pieces → List Pieces → Option (Pieces × Pieces)
  | _, [] => none
  | none, path :: rest => ancestorLoop (some path) rest
  | some prevPath, path :: rest =>
      if containsPath prevPath path then some (prevPath, path)
      else ancestorLoop (some path) rest

/-- What the exception names, when the paths are refused. -/
def invalidUpdatePaths (updatePaths : List Pieces) :
    Option (Pieces × Pieces) :=
  ancestorLoop none
    (updatePaths.mergeSort fun left right => (comparePath left right).isLE)

/-! ## The order of paths -/

theorem comparePath_cons_cons (piece otherPiece : NSString)
    (self other : Pieces) :
    comparePath (piece :: self) (otherPiece :: other) =
      (compareKey (.name piece) (.name otherPiece)).then
        (comparePath self other) := by
  rw [comparePath]
  cases compareKey (.name piece) (.name otherPiece) <;> rfl

theorem comparePath_swap (self other : Pieces) :
    comparePath self other = (comparePath other self).swap := by
  induction self generalizing other with
  | nil => cases other <;> rfl
  | cons piece self ih =>
      cases other with
      | nil => rfl
      | cons otherPiece other =>
          rw [comparePath_cons_cons, comparePath_cons_cons, ih other,
            Ordering.swap_then]
          congr 1
          exact Std.OrientedCmp.eq_swap

theorem comparePath_isLE_trans {first second third : Pieces}
    (hfirst : (comparePath first second).isLE)
    (hsecond : (comparePath second third).isLE) :
    (comparePath first third).isLE := by
  induction first generalizing second third with
  | nil => cases third <;> rfl
  | cons a first ih =>
      rcases second with _ | ⟨b, second⟩
      · contradiction
      · rcases third with _ | ⟨c, third⟩
        · contradiction
        · rw [comparePath_cons_cons] at hfirst hsecond ⊢
          rw [Ordering.isLE_then_iff_or] at hfirst hsecond ⊢
          rcases hfirst with hab | ⟨hab, hrest⟩
          · left
            rcases hsecond with hbc | ⟨hbc, -⟩
            · exact Std.TransCmp.lt_trans hab hbc
            · exact Std.TransCmp.lt_of_lt_of_eq hab hbc
          · rcases hsecond with hbc | ⟨hbc, hmore⟩
            · exact .inl (Std.TransCmp.lt_of_eq_of_lt hab hbc)
            · exact .inr ⟨Std.TransCmp.eq_trans hab hbc, ih hrest hmore⟩

theorem comparePath_total (first second : Pieces) :
    (comparePath first second).isLE || (comparePath second first).isLE := by
  rw [comparePath_swap second first]
  cases comparePath first second <;> rfl

theorem containsPath_iff {path other : Pieces} :
    containsPath path other ↔ path <+: other :=
  FPath.contains_iff

/-- The keys of a list of paths, apart from equal keys, are told apart. -/
def KeysDiffer (paths : List Pieces) : Prop :=
  ∀ path ∈ paths, ∀ other ∈ paths, ∀ key ∈ path, ∀ otherKey ∈ other,
    tryParseStringToInt key = some 0 →
      tryParseStringToInt otherKey = some 0 → key.length = otherKey.length →
        key = otherKey

/-- What stands between a path and one which begins with it begins with it as
well. -/
theorem prefix_of_between {path middle last : Pieces}
    (hkeys : ∀ key ∈ path, ∀ otherKey ∈ middle,
      compareKey (.name key) (.name otherKey) = .eq → key = otherKey)
    (hbegins : path <+: last) (hpath : (comparePath path middle).isLE)
    (hmiddle : (comparePath middle last).isLE) : path <+: middle := by
  induction path generalizing middle last with
  | nil => exact List.nil_prefix
  | cons key path ih =>
      obtain ⟨rest, rfl⟩ := hbegins
      rcases middle with _ | ⟨otherKey, middle⟩
      · contradiction
      · rw [List.cons_append] at hmiddle
        rw [comparePath_cons_cons, Ordering.isLE_then_iff_or] at hpath hmiddle
        rcases hpath with hlt | ⟨heq, hpath⟩
        · -- the key of the middle path would lie above and not above
          have hgt := Std.OrientedCmp.gt_of_lt hlt
          rcases hmiddle with hbad | ⟨hbad, -⟩
          · rw [hgt] at hbad
            contradiction
          · rw [hgt] at hbad
            contradiction
        · have hsame := hkeys key List.mem_cons_self otherKey
            List.mem_cons_self heq
          subst hsame
          rcases hmiddle with hbad | ⟨-, hmiddle⟩
          · rw [heq] at hbad
            contradiction
          · have hbelow := ih
              (fun first hfirst second hsecond =>
                hkeys first (List.mem_cons_of_mem key hfirst) second
                  (List.mem_cons_of_mem key hsecond))
              (List.prefix_append path rest) hpath hmiddle
            exact List.cons_prefix_cons.mpr ⟨rfl, hbelow⟩

/-- A longer path never stands before its beginning. -/
theorem eq_of_prefix_of_isLE {path other : Pieces} (hbegins : path <+: other)
    (hle : (comparePath other path).isLE) : other = path := by
  obtain ⟨rest, rfl⟩ := hbegins
  induction path with
  | nil =>
      cases rest with
      | nil => rfl
      | cons key rest => contradiction
  | cons piece path ih =>
      have hself : compareKey (.name piece) (.name piece) = .eq :=
        Std.ReflCmp.compare_self
      rw [List.cons_append, comparePath_cons_cons, hself] at hle
      rw [List.cons_append, ih hle]

theorem key_eq_of_keysDiffer {paths : List Pieces}
    (hkeys : KeysDiffer paths) {path other : Pieces} (hpath : path ∈ paths)
    (hother : other ∈ paths) :
    ∀ key ∈ path, ∀ otherKey ∈ other,
      compareKey (.name key) (.name otherKey) = .eq → key = otherKey := by
  intro key hkey otherKey hotherKey heq
  rcases (compareNames_eq_iff key otherKey).mp heq with
    hsame | ⟨hzeros, hlength⟩
  · exact hsame
  · exact hkeys path hpath other hother key hkey otherKey hotherKey hzeros.1
      hzeros.2 hlength

/-! ## The check -/

/-- What is named is a path and one which begins with it. -/
theorem ancestorLoop_names {paths : List Pieces} {prevPath : Option Pieces}
    {first second : Pieces}
    (hloop : ancestorLoop prevPath paths = some (first, second)) :
    (first ∈ paths ∨ prevPath = some first) ∧ second ∈ paths ∧
      first <+: second := by
  induction paths generalizing prevPath with
  | nil => cases prevPath <;> simp [ancestorLoop] at hloop
  | cons path rest ih =>
      have hlater : ancestorLoop (some path) rest = some (first, second) →
          first ∈ path :: rest ∧ second ∈ path :: rest ∧
            first <+: second := by
        intro hrest
        obtain ⟨hfirst, hsecond, hbegins⟩ := ih hrest
        exact ⟨by simpa [eq_comm, or_comm] using hfirst,
          List.mem_cons_of_mem path hsecond, hbegins⟩
      cases prevPath with
      | none => exact ⟨.inl (hlater hloop).1, (hlater hloop).2⟩
      | some prevPath =>
          rw [ancestorLoop] at hloop
          split at hloop
          next hcontains =>
            cases hloop
            exact ⟨.inr rfl, List.mem_cons_self,
              containsPath_iff.mp hcontains⟩
          next => exact ⟨.inl (hlater hloop).1, (hlater hloop).2⟩

/-- Among sorted paths, no path begins a later one as soon as none begins the
next one. -/
theorem pairwise_of_ancestorLoop {paths : List Pieces} {prevPath : Pieces}
    (hkeys : KeysDiffer (prevPath :: paths))
    (hsorted : (prevPath :: paths).Pairwise fun left right =>
      (comparePath left right).isLE)
    (hloop : ancestorLoop (some prevPath) paths = none) :
    (prevPath :: paths).Pairwise fun left right => ¬ left <+: right := by
  induction paths generalizing prevPath with
  | nil => simp
  | cons path rest ih =>
      rw [ancestorLoop] at hloop
      split at hloop
      next => contradiction
      next hcontains =>
        rw [List.pairwise_cons] at hsorted
        have hrest : (path :: rest).Pairwise fun left right =>
            ¬ left <+: right :=
          ih (fun first hfirst second hsecond =>
            hkeys first (List.mem_cons_of_mem prevPath hfirst) second
              (List.mem_cons_of_mem prevPath hsecond)) hsorted.2 hloop
        have hnext : ¬ prevPath <+: path := mt containsPath_iff.mpr hcontains
        rw [List.pairwise_cons]
        constructor
        · intro later hlater hbegins
          rcases List.mem_cons.mp hlater with rfl | hfurther
          · exact hnext hbegins
          · -- the next path stands between the two
            have hbetween := (List.pairwise_cons.mp hsorted.2).1 later hfurther
            exact hnext (prefix_of_between
              (key_eq_of_keysDiffer hkeys List.mem_cons_self
                (List.mem_cons_of_mem prevPath List.mem_cons_self))
              hbegins (hsorted.1 path List.mem_cons_self) hbetween)
        · exact hrest

theorem ancestorLoop_none_iff {paths : List Pieces} (hkeys : KeysDiffer paths)
    (hsorted : paths.Pairwise fun left right =>
      (comparePath left right).isLE) :
    ancestorLoop none paths = none ↔
      paths.Pairwise fun left right => ¬ left <+: right ∧ ¬ right <+: left := by
  constructor
  · intro hloop
    cases paths with
    | nil => exact List.Pairwise.nil
    | cons path rest =>
        have hall := pairwise_of_ancestorLoop hkeys hsorted hloop
        refine (hall.and hsorted).imp ?_
        rintro left right ⟨hnot, hle⟩
        have hback : ¬ right <+: left := by
          intro hbegins
          have heq := eq_of_prefix_of_isLE hbegins hle
          exact hnot (by rw [heq])
        exact ⟨hnot, hback⟩
  · intro hpairwise
    have hloop : ∀ (rest : List Pieces) (prevPath : Pieces),
        (prevPath :: rest).Pairwise (fun left right => ¬ left <+: right) →
          ancestorLoop (some prevPath) rest = none := by
      intro rest
      induction rest with
      | nil => intro prevPath _; simp [ancestorLoop]
      | cons path rest ih =>
          intro prevPath hrest
          rw [List.pairwise_cons] at hrest
          rw [ancestorLoop, if_neg (mt containsPath_iff.mp
            (hrest.1 path List.mem_cons_self))]
          exact ih path hrest.2
    cases paths with
    | nil => simp [ancestorLoop]
    | cons path rest => exact hloop rest path (hpairwise.imp And.left)

/-- The update is refused exactly when one of its paths leads through another
one, and the exception names two such paths. -/
theorem invalidUpdatePaths_iff {updatePaths : List Pieces}
    (hkeys : KeysDiffer updatePaths) :
    (invalidUpdatePaths updatePaths = none ↔
      updatePaths.Pairwise fun left right =>
        ¬ left <+: right ∧ ¬ right <+: left) ∧
      ∀ first second,
        invalidUpdatePaths updatePaths = some (first, second) →
          first ∈ updatePaths ∧ second ∈ updatePaths ∧ first <+: second := by
  have hperm := List.mergeSort_perm updatePaths fun left right =>
    (comparePath left right).isLE
  have hsorted : (updatePaths.mergeSort fun left right =>
      (comparePath left right).isLE).Pairwise
        fun left right => (comparePath left right).isLE := by
    apply List.pairwise_mergeSort
    · intro first second third hfirst hsecond
      exact comparePath_isLE_trans hfirst hsecond
    · exact comparePath_total
  constructor
  · have hsymm : ∀ {left right : Pieces},
        (¬ left <+: right ∧ ¬ right <+: left) →
          ¬ right <+: left ∧ ¬ left <+: right := And.symm
    have hdiffer : KeysDiffer (updatePaths.mergeSort fun left right =>
        (comparePath left right).isLE) := by
      intro path hpath other hother
      exact hkeys path (hperm.mem_iff.mp hpath) other
        (hperm.mem_iff.mp hother)
    rw [← hperm.pairwise_iff hsymm]
    exact ancestorLoop_none_iff hdiffer hsorted
  · intro first second hinvalid
    obtain ⟨hfirst, hsecond, hbegins⟩ := ancestorLoop_names hinvalid
    have hmem : first ∈ updatePaths.mergeSort fun left right =>
        (comparePath left right).isLE := by simpa using hfirst
    exact ⟨hperm.mem_iff.mp hmem, hperm.mem_iff.mp hsecond, hbegins⟩

/-- The paths of `b`, `a/b` and `a`. -/
theorem invalidUpdatePaths_iff_ancestor :
    invalidUpdatePaths [[[98]], [[97], [98]], [[97]]] = none ↔
      List.Pairwise
        (fun left right : Pieces => ¬ left <+: right ∧ ¬ right <+: left)
        [[[98]], [[97], [98]], [[97]]] := by
  have hkeys : KeysDiffer [[[98]], [[97], [98]], [[97]]] := by
    unfold KeysDiffer
    decide
  exact (invalidUpdatePaths_iff hkeys).1

end FSnapshotUtilities

end FirebaseDatabase
