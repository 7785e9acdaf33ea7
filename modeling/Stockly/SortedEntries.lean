import Mathlib.Tactic

/-!
# Sorted entries

Lists of keyed entries which ascend strictly under a comparator.  The
comparator is a total preorder, so keys which it does not tell apart name the
same slot.  Every operation is stated by the entries below and above a key,
and the pivot lemmas say how it passes an entry in the middle of a list, as a
search tree meets it.
-/

universe u v

namespace SortedEntries

variable {κ : Type u} {β : Type v}

section Operations

variable (comparator : κ → κ → Ordering)

def Ascending (entries : List (κ × β)) : Prop :=
  entries.Pairwise fun first second => comparator first.1 second.1 = .lt

instance (entries : List (κ × β)) : Decidable (Ascending comparator entries) :=
  inferInstanceAs (Decidable (List.Pairwise _ _))

def below (key : κ) (entries : List (κ × β)) : List (κ × β) :=
  entries.filter fun entry => comparator entry.1 key = .lt

def above (key : κ) (entries : List (κ × β)) : List (κ × β) :=
  entries.filter fun entry => comparator key entry.1 = .lt

def find (key : κ) (entries : List (κ × β)) : Option β :=
  (entries.find? fun entry => comparator key entry.1 = .eq).map Prod.snd

/-- The key under which the slot of a key is filed, the key itself when there
is no such slot. -/
def slot (key : κ) (entries : List (κ × β)) : κ :=
  ((entries.find? fun entry => comparator key entry.1 = .eq).map
    Prod.fst).getD key

/-- Write the slot of `key`, filed under `name`. -/
def insertAs (name key : κ) (value : β) (entries : List (κ × β)) :
    List (κ × β) :=
  below comparator key entries ++ (name, value) ::
    above comparator key entries

def erase (key : κ) (entries : List (κ × β)) : List (κ × β) :=
  below comparator key entries ++ above comparator key entries

def startingAt (key : κ) (entries : List (κ × β)) : List (κ × β) :=
  entries.filter fun entry => comparator entry.1 key ≠ .lt

def upTo (key : κ) (entries : List (κ × β)) : List (κ × β) :=
  entries.filter fun entry => comparator entry.1 key ≠ .gt

end Operations

variable {comparator : κ → κ → Ordering}

@[simp] theorem ascending_nil :
    Ascending comparator ([] : List (κ × β)) :=
  List.Pairwise.nil

@[simp] theorem below_nil (key : κ) :
    below comparator key ([] : List (κ × β)) = [] := rfl

@[simp] theorem above_nil (key : κ) :
    above comparator key ([] : List (κ × β)) = [] := rfl

@[simp] theorem find_nil (key : κ) :
    find comparator key ([] : List (κ × β)) = none := rfl

@[simp] theorem erase_nil (key : κ) :
    erase comparator key ([] : List (κ × β)) = [] := rfl

@[simp] theorem insertAs_nil (name key : κ) (value : β) :
    insertAs comparator name key value [] = [(name, value)] := rfl

@[simp] theorem slot_nil (key : κ) :
    slot comparator key ([] : List (κ × β)) = key := rfl

theorem ascending_append_cons {left right : List (κ × β)} {entry : κ × β} :
    Ascending comparator (left ++ entry :: right) ↔
      (Ascending comparator left ∧ Ascending comparator right) ∧
        (∀ other ∈ left, comparator other.1 entry.1 = .lt) ∧
        (∀ other ∈ right, comparator entry.1 other.1 = .lt) ∧
        ∀ first ∈ left, ∀ last ∈ right, comparator first.1 last.1 = .lt := by
  unfold Ascending
  rw [List.pairwise_append, List.pairwise_cons]
  constructor
  · rintro ⟨hleft, ⟨habove, hright⟩, hacross⟩
    refine ⟨⟨hleft, hright⟩, fun other hother => ?_, habove,
      fun first hfirst last hlast => ?_⟩
    · exact hacross other hother entry List.mem_cons_self
    · exact hacross first hfirst last (List.mem_cons_of_mem entry hlast)
  · rintro ⟨⟨hleft, hright⟩, hbelow, habove, hacross⟩
    refine ⟨hleft, ⟨habove, hright⟩, fun first hfirst last hlast => ?_⟩
    rcases List.mem_cons.mp hlast with hentry | hlast
    · exact hentry ▸ hbelow first hfirst
    · exact hacross first hfirst last hlast

theorem below_eq_self {key : κ} {entries : List (κ × β)}
    (hall : ∀ other ∈ entries, comparator other.1 key = .lt) :
    below comparator key entries = entries := by
  unfold below
  rw [List.filter_eq_self]
  intro other hother
  simpa using hall other hother

theorem below_eq_nil {key : κ} {entries : List (κ × β)}
    (hall : ∀ other ∈ entries, comparator other.1 key ≠ .lt) :
    below comparator key entries = [] := by
  unfold below
  rw [List.filter_eq_nil_iff]
  intro other hother
  simpa using hall other hother

theorem above_eq_self {key : κ} {entries : List (κ × β)}
    (hall : ∀ other ∈ entries, comparator key other.1 = .lt) :
    above comparator key entries = entries := by
  unfold above
  rw [List.filter_eq_self]
  intro other hother
  simpa using hall other hother

theorem above_eq_nil {key : κ} {entries : List (κ × β)}
    (hall : ∀ other ∈ entries, comparator key other.1 ≠ .lt) :
    above comparator key entries = [] := by
  unfold above
  rw [List.filter_eq_nil_iff]
  intro other hother
  simpa using hall other hother

theorem find?_eq_none {key : κ} {entries : List (κ × β)}
    (hall : ∀ other ∈ entries, comparator key other.1 ≠ .eq) :
    (entries.find? fun other => comparator key other.1 = .eq) = none := by
  rw [List.find?_eq_none]
  intro other hother
  simpa using hall other hother

theorem find_eq_none_iff {key : κ} {entries : List (κ × β)} :
    find comparator key entries = none ↔
      ∀ other ∈ entries, comparator key other.1 ≠ .eq := by
  simp [find]

theorem slot_of_find_eq_none {key : κ} {entries : List (κ × β)}
    (hfind : find comparator key entries = none) :
    slot comparator key entries = key := by
  unfold find at hfind
  unfold slot
  rw [Option.map_eq_none_iff.mp hfind]
  rfl

theorem mem_below {key : κ} {entries : List (κ × β)} {entry : κ × β} :
    entry ∈ below comparator key entries ↔
      entry ∈ entries ∧ comparator entry.1 key = .lt := by
  simp [below]

theorem mem_above {key : κ} {entries : List (κ × β)} {entry : κ × β} :
    entry ∈ above comparator key entries ↔
      entry ∈ entries ∧ comparator key entry.1 = .lt := by
  simp [above]

/-! ## Passing a pivot -/

section Pivot

variable [Std.TransCmp comparator] {left right : List (κ × β)}
  {entry : κ × β} {key : κ}

/-- A key below the pivot is below all that follows it. -/
theorem lt_of_lt_pivot (hasc : Ascending comparator (left ++ entry :: right))
    (hkey : comparator key entry.1 = .lt) :
    ∀ other ∈ entry :: right, comparator key other.1 = .lt := by
  rcases ascending_append_cons.mp hasc with ⟨-, -, habove, -⟩
  intro other hother
  rcases List.mem_cons.mp hother with hentry | hother
  · exact hentry ▸ hkey
  · exact Std.TransCmp.lt_trans hkey (habove other hother)

theorem gt_of_gt_pivot (hasc : Ascending comparator (left ++ entry :: right))
    (hkey : comparator key entry.1 = .gt) :
    ∀ other ∈ left ++ [entry], comparator other.1 key = .lt := by
  rcases ascending_append_cons.mp hasc with ⟨-, hbelow, -, -⟩
  have hentry : comparator entry.1 key = .lt :=
    Std.OrientedCmp.lt_of_gt hkey
  intro other hother
  rcases List.mem_append.mp hother with hother | hother
  · exact Std.TransCmp.lt_trans (hbelow other hother) hentry
  · exact List.mem_singleton.mp hother ▸ hentry

theorem below_left (hasc : Ascending comparator (left ++ entry :: right))
    (hkey : comparator key entry.1 = .lt) :
    below comparator key (left ++ entry :: right) =
      below comparator key left := by
  have hrest : below comparator key (entry :: right) = [] := by
    apply below_eq_nil
    intro other hother
    have hlt := lt_of_lt_pivot hasc hkey other hother
    rw [Std.OrientedCmp.gt_of_lt hlt]
    decide
  unfold below at hrest ⊢
  rw [List.filter_append, hrest, List.append_nil]

theorem above_left (hasc : Ascending comparator (left ++ entry :: right))
    (hkey : comparator key entry.1 = .lt) :
    above comparator key (left ++ entry :: right) =
      above comparator key left ++ entry :: right := by
  have hrest := above_eq_self (lt_of_lt_pivot hasc hkey)
  unfold above at hrest ⊢
  rw [List.filter_append, hrest]

theorem below_right (hasc : Ascending comparator (left ++ entry :: right))
    (hkey : comparator key entry.1 = .gt) :
    below comparator key (left ++ entry :: right) =
      left ++ entry :: below comparator key right := by
  have hfront := below_eq_self (gt_of_gt_pivot hasc hkey)
  rw [List.append_cons]
  unfold below at hfront ⊢
  rw [List.filter_append, hfront, List.append_assoc]
  rfl

theorem above_right (hasc : Ascending comparator (left ++ entry :: right))
    (hkey : comparator key entry.1 = .gt) :
    above comparator key (left ++ entry :: right) =
      above comparator key right := by
  have hfront : above comparator key (left ++ [entry]) = [] := by
    apply above_eq_nil
    intro other hother
    have hlt := gt_of_gt_pivot hasc hkey other hother
    rw [Std.OrientedCmp.gt_of_lt hlt]
    decide
  rw [List.append_cons]
  unfold above at hfront ⊢
  rw [List.filter_append, hfront, List.nil_append]

theorem below_here (hasc : Ascending comparator (left ++ entry :: right))
    (hkey : comparator key entry.1 = .eq) :
    below comparator key (left ++ entry :: right) = left := by
  rcases ascending_append_cons.mp hasc with ⟨-, hbelow, habove, -⟩
  have hself : comparator entry.1 entry.1 = .eq := Std.ReflCmp.compare_self
  have hleft : below comparator key left = left := by
    apply below_eq_self
    intro other hother
    rw [Std.TransCmp.congr_right hkey]
    exact hbelow other hother
  have hrest : below comparator key (entry :: right) = [] := by
    apply below_eq_nil
    intro other hother
    rw [Std.TransCmp.congr_right hkey]
    rcases List.mem_cons.mp hother with hentry | hother
    · rw [hentry, hself]
      decide
    · rw [Std.OrientedCmp.gt_of_lt (habove other hother)]
      decide
  unfold below at hleft hrest ⊢
  rw [List.filter_append, hleft, hrest, List.append_nil]

theorem above_here (hasc : Ascending comparator (left ++ entry :: right))
    (hkey : comparator key entry.1 = .eq) :
    above comparator key (left ++ entry :: right) = right := by
  rcases ascending_append_cons.mp hasc with ⟨-, hbelow, habove, -⟩
  have hself : comparator entry.1 entry.1 = .eq := Std.ReflCmp.compare_self
  have hleft : above comparator key (left ++ [entry]) = [] := by
    apply above_eq_nil
    intro other hother
    rw [Std.TransCmp.congr_left hkey]
    rcases List.mem_append.mp hother with hother | hother
    · rw [Std.OrientedCmp.gt_of_lt (hbelow other hother)]
      decide
    · rw [List.mem_singleton.mp hother, hself]
      decide
  have hright : above comparator key right = right := by
    apply above_eq_self
    intro other hother
    rw [Std.TransCmp.congr_left hkey]
    exact habove other hother
  rw [List.append_cons]
  unfold above at hleft hright ⊢
  rw [List.filter_append, hleft, hright, List.nil_append]

theorem find?_left (hasc : Ascending comparator (left ++ entry :: right))
    (hkey : comparator key entry.1 = .lt) :
    ((left ++ entry :: right).find? fun other =>
        comparator key other.1 = .eq) =
      left.find? fun other => comparator key other.1 = .eq := by
  have hrest : ((entry :: right).find? fun other =>
      comparator key other.1 = .eq) = none := by
    apply find?_eq_none
    intro other hother
    rw [lt_of_lt_pivot hasc hkey other hother]
    decide
  rw [List.find?_append, hrest, Option.or_none]

theorem find?_right (hasc : Ascending comparator (left ++ entry :: right))
    (hkey : comparator key entry.1 = .gt) :
    ((left ++ entry :: right).find? fun other =>
        comparator key other.1 = .eq) =
      right.find? fun other => comparator key other.1 = .eq := by
  have hfront : ((left ++ [entry]).find? fun other =>
      comparator key other.1 = .eq) = none := by
    apply find?_eq_none
    intro other hother
    rw [Std.OrientedCmp.gt_of_lt (gt_of_gt_pivot hasc hkey other hother)]
    decide
  rw [List.append_cons, List.find?_append, hfront, Option.none_or]

theorem find?_here (hasc : Ascending comparator (left ++ entry :: right))
    (hkey : comparator key entry.1 = .eq) :
    ((left ++ entry :: right).find? fun other =>
        comparator key other.1 = .eq) = some entry := by
  rcases ascending_append_cons.mp hasc with ⟨-, hbelow, -, -⟩
  have hfront : (left.find? fun other =>
      comparator key other.1 = .eq) = none := by
    apply find?_eq_none
    intro other hother
    rw [Std.TransCmp.congr_left hkey,
      Std.OrientedCmp.gt_of_lt (hbelow other hother)]
    decide
  rw [List.find?_append, hfront, Option.none_or]
  simp [hkey]

theorem find_left (hasc : Ascending comparator (left ++ entry :: right))
    (hkey : comparator key entry.1 = .lt) :
    find comparator key (left ++ entry :: right) =
      find comparator key left :=
  congrArg (Option.map Prod.snd) (find?_left hasc hkey)

theorem find_right (hasc : Ascending comparator (left ++ entry :: right))
    (hkey : comparator key entry.1 = .gt) :
    find comparator key (left ++ entry :: right) =
      find comparator key right :=
  congrArg (Option.map Prod.snd) (find?_right hasc hkey)

theorem find_here (hasc : Ascending comparator (left ++ entry :: right))
    (hkey : comparator key entry.1 = .eq) :
    find comparator key (left ++ entry :: right) = some entry.2 :=
  congrArg (Option.map Prod.snd) (find?_here hasc hkey)

theorem slot_left (hasc : Ascending comparator (left ++ entry :: right))
    (hkey : comparator key entry.1 = .lt) :
    slot comparator key (left ++ entry :: right) =
      slot comparator key left :=
  congrArg (fun found => (found.map Prod.fst).getD key)
    (find?_left hasc hkey)

theorem slot_right (hasc : Ascending comparator (left ++ entry :: right))
    (hkey : comparator key entry.1 = .gt) :
    slot comparator key (left ++ entry :: right) =
      slot comparator key right :=
  congrArg (fun found => (found.map Prod.fst).getD key)
    (find?_right hasc hkey)

theorem slot_here (hasc : Ascending comparator (left ++ entry :: right))
    (hkey : comparator key entry.1 = .eq) :
    slot comparator key (left ++ entry :: right) = entry.1 :=
  congrArg (fun found => (found.map Prod.fst).getD key)
    (find?_here hasc hkey)

theorem insertAs_left (hasc : Ascending comparator (left ++ entry :: right))
    (hkey : comparator key entry.1 = .lt) (name : κ) (value : β) :
    insertAs comparator name key value (left ++ entry :: right) =
      insertAs comparator name key value left ++ entry :: right := by
  unfold insertAs
  rw [below_left hasc hkey, above_left hasc hkey, List.append_assoc,
    List.cons_append]

theorem insertAs_right (hasc : Ascending comparator (left ++ entry :: right))
    (hkey : comparator key entry.1 = .gt) (name : κ) (value : β) :
    insertAs comparator name key value (left ++ entry :: right) =
      left ++ entry :: insertAs comparator name key value right := by
  unfold insertAs
  rw [below_right hasc hkey, above_right hasc hkey, List.append_assoc,
    List.cons_append]

theorem insertAs_here (hasc : Ascending comparator (left ++ entry :: right))
    (hkey : comparator key entry.1 = .eq) (name : κ) (value : β) :
    insertAs comparator name key value (left ++ entry :: right) =
      left ++ (name, value) :: right := by
  unfold insertAs
  rw [below_here hasc hkey, above_here hasc hkey]

theorem erase_left (hasc : Ascending comparator (left ++ entry :: right))
    (hkey : comparator key entry.1 = .lt) :
    erase comparator key (left ++ entry :: right) =
      erase comparator key left ++ entry :: right := by
  unfold erase
  rw [below_left hasc hkey, above_left hasc hkey, List.append_assoc]

theorem erase_right (hasc : Ascending comparator (left ++ entry :: right))
    (hkey : comparator key entry.1 = .gt) :
    erase comparator key (left ++ entry :: right) =
      left ++ entry :: erase comparator key right := by
  unfold erase
  rw [below_right hasc hkey, above_right hasc hkey, List.append_assoc,
    List.cons_append]

theorem erase_here (hasc : Ascending comparator (left ++ entry :: right))
    (hkey : comparator key entry.1 = .eq) :
    erase comparator key (left ++ entry :: right) = left ++ right := by
  unfold erase
  rw [below_here hasc hkey, above_here hasc hkey]

theorem startingAt_left
    (hasc : Ascending comparator (left ++ entry :: right))
    (hkey : comparator key entry.1 = .lt) :
    startingAt comparator key (left ++ entry :: right) =
      startingAt comparator key left ++ entry :: right := by
  have hrest : startingAt comparator key (entry :: right) =
      entry :: right := by
    refine List.filter_eq_self.mpr fun other hother => ?_
    simp [Std.OrientedCmp.gt_of_lt (lt_of_lt_pivot hasc hkey other hother)]
  unfold startingAt at hrest ⊢
  rw [List.filter_append, hrest]

theorem startingAt_right
    (hasc : Ascending comparator (left ++ entry :: right))
    (hkey : comparator key entry.1 = .gt) :
    startingAt comparator key (left ++ entry :: right) =
      startingAt comparator key right := by
  have hfront : startingAt comparator key (left ++ [entry]) = [] := by
    refine List.filter_eq_nil_iff.mpr fun other hother => ?_
    simp [gt_of_gt_pivot hasc hkey other hother]
  rw [List.append_cons]
  unfold startingAt at hfront ⊢
  rw [List.filter_append, hfront, List.nil_append]

theorem startingAt_here
    (hasc : Ascending comparator (left ++ entry :: right))
    (hkey : comparator key entry.1 = .eq) :
    startingAt comparator key (left ++ entry :: right) = entry :: right := by
  rcases ascending_append_cons.mp hasc with ⟨-, hbelow, habove, -⟩
  have hleft : startingAt comparator key left = [] := by
    refine List.filter_eq_nil_iff.mpr fun other hother => ?_
    simp [Std.TransCmp.congr_right hkey, hbelow other hother]
  have hright : startingAt comparator key right = right := by
    refine List.filter_eq_self.mpr fun other hother => ?_
    simp [Std.TransCmp.congr_right hkey,
      Std.OrientedCmp.gt_of_lt (habove other hother)]
  unfold startingAt at hleft hright ⊢
  rw [List.filter_append, hleft, List.nil_append, List.filter_cons_of_pos,
    hright]
  simp [Std.OrientedCmp.eq_symm hkey]

theorem upTo_left (hasc : Ascending comparator (left ++ entry :: right))
    (hkey : comparator key entry.1 = .lt) :
    upTo comparator key (left ++ entry :: right) =
      upTo comparator key left := by
  have hrest : upTo comparator key (entry :: right) = [] := by
    refine List.filter_eq_nil_iff.mpr fun other hother => ?_
    simp [Std.OrientedCmp.gt_of_lt (lt_of_lt_pivot hasc hkey other hother)]
  unfold upTo at hrest ⊢
  rw [List.filter_append, hrest, List.append_nil]

theorem upTo_right (hasc : Ascending comparator (left ++ entry :: right))
    (hkey : comparator key entry.1 = .gt) :
    upTo comparator key (left ++ entry :: right) =
      left ++ entry :: upTo comparator key right := by
  have hfront : upTo comparator key (left ++ [entry]) = left ++ [entry] := by
    refine List.filter_eq_self.mpr fun other hother => ?_
    simp [gt_of_gt_pivot hasc hkey other hother]
  rw [List.append_cons]
  unfold upTo at hfront ⊢
  rw [List.filter_append, hfront, List.append_assoc]
  rfl

theorem upTo_here (hasc : Ascending comparator (left ++ entry :: right))
    (hkey : comparator key entry.1 = .eq) :
    upTo comparator key (left ++ entry :: right) = left ++ [entry] := by
  rcases ascending_append_cons.mp hasc with ⟨-, hbelow, habove, -⟩
  have hleft : upTo comparator key left = left := by
    refine List.filter_eq_self.mpr fun other hother => ?_
    simp [Std.TransCmp.congr_right hkey, hbelow other hother]
  have hright : upTo comparator key right = [] := by
    refine List.filter_eq_nil_iff.mpr fun other hother => ?_
    simp [Std.TransCmp.congr_right hkey,
      Std.OrientedCmp.gt_of_lt (habove other hother)]
  unfold upTo at hleft hright ⊢
  rw [List.filter_append, hleft, List.filter_cons_of_pos, hright]
  simp [Std.OrientedCmp.eq_symm hkey]

end Pivot

/-! ## The slot of a key -/

theorem mem_of_find {entries : List (κ × β)} {key : κ} {value : β}
    (hfind : find comparator key entries = some value) :
    (slot comparator key entries, value) ∈ entries := by
  unfold find at hfind
  unfold slot
  obtain ⟨entry, hentry, rfl⟩ := Option.map_eq_some_iff.mp hfind
  rw [hentry]
  exact List.mem_of_find?_eq_some hentry

section Slot

variable [Std.TransCmp comparator]

/-- The entries below a key, its slot when there is one, and the entries
above it. -/
theorem split_at {entries : List (κ × β)}
    (hasc : Ascending comparator entries) (key : κ) :
    (∃ entry, comparator key entry.1 = .eq ∧
        entries = below comparator key entries ++
          entry :: above comparator key entries) ∨
      (∀ entry ∈ entries, comparator key entry.1 ≠ .eq) ∧
        entries = below comparator key entries ++
          above comparator key entries := by
  induction entries with
  | nil => exact Or.inr ⟨by simp, rfl⟩
  | cons entry rest ih =>
      have hpivot : Ascending comparator ([] ++ entry :: rest) := hasc
      have hrest : Ascending comparator rest := hasc.of_cons
      cases hkey : comparator key entry.1 with
      | lt =>
          have habove := lt_of_lt_pivot hpivot hkey
          refine Or.inr ⟨fun other hother => ?_, ?_⟩
          · rw [habove other hother]
            decide
          · have hbelow := below_left hpivot hkey
            rw [List.nil_append, below_nil] at hbelow
            rw [hbelow, above_eq_self habove, List.nil_append]
      | eq =>
          refine Or.inl ⟨entry, hkey, ?_⟩
          have hbelow := below_here hpivot hkey
          have habove := above_here hpivot hkey
          rw [List.nil_append] at hbelow habove
          rw [hbelow, habove, List.nil_append]
      | gt =>
          have hbelow := below_right hpivot hkey
          have habove := above_right hpivot hkey
          rw [List.nil_append] at hbelow habove
          rw [hbelow, habove]
          rcases ih hrest with ⟨found, hfound, hsplit⟩ | ⟨hnone, hsplit⟩
          · exact Or.inl ⟨found, hfound, congrArg (entry :: ·) hsplit⟩
          · refine Or.inr ⟨fun other hother => ?_,
              congrArg (entry :: ·) hsplit⟩
            rcases List.mem_cons.mp hother with hentry | hother
            · rw [hentry, hkey]
              decide
            · exact hnone other hother

theorem eq_of_perm {first second : List (κ × β)}
    (hfirst : Ascending comparator first)
    (hsecond : Ascending comparator second) (hperm : first.Perm second) :
    first = second := by
  refine hperm.eq_of_pairwise ?_ hfirst hsecond
  intro entry other _ _ hlt hgt
  rw [Std.OrientedCmp.gt_of_lt hlt] at hgt
  contradiction

theorem ascending_insertAs {entries : List (κ × β)}
    (hasc : Ascending comparator entries) {name key : κ}
    (hname : comparator name key = .eq) (value : β) :
    Ascending comparator
      (insertAs comparator name key value entries) := by
  refine ascending_append_cons.mpr ⟨⟨?_, ?_⟩, ?_, ?_, ?_⟩
  · exact hasc.sublist List.filter_sublist
  · exact hasc.sublist List.filter_sublist
  · intro other hother
    exact Std.TransCmp.lt_of_lt_of_eq (mem_below.mp hother).2
      (Std.OrientedCmp.eq_symm hname)
  · intro other hother
    exact Std.TransCmp.lt_of_eq_of_lt hname (mem_above.mp hother).2
  · intro first hfirst last hlast
    exact Std.TransCmp.lt_trans (mem_below.mp hfirst).2
      (mem_above.mp hlast).2

theorem ascending_erase {entries : List (κ × β)}
    (hasc : Ascending comparator entries) (key : κ) :
    Ascending comparator (erase comparator key entries) := by
  refine List.pairwise_append.mpr ⟨?_, ?_, ?_⟩
  · exact hasc.sublist List.filter_sublist
  · exact hasc.sublist List.filter_sublist
  · intro first hfirst last hlast
    exact Std.TransCmp.lt_trans (mem_below.mp hfirst).2
      (mem_above.mp hlast).2

theorem comparator_slot (key : κ) (entries : List (κ × β)) :
    comparator (slot comparator key entries) key = .eq := by
  unfold slot
  cases hfind : entries.find? fun entry => comparator key entry.1 = .eq with
  | none => exact Std.ReflCmp.compare_self
  | some entry =>
      have hkey := List.find?_some hfind
      exact Std.OrientedCmp.eq_symm (by simpa using hkey)

theorem find_insertAs {entries : List (κ × β)}
    (hasc : Ascending comparator entries) {name key : κ}
    (hname : comparator name key = .eq) (value : β) (other : κ) :
    find comparator other (insertAs comparator name key value entries) =
      if comparator other key = .eq then some value
      else find comparator other entries := by
  have hinsert := ascending_insertAs hasc hname value
  have hother : comparator other name = comparator other key :=
    Std.TransCmp.congr_right hname
  unfold insertAs at hinsert ⊢
  by_cases hsame : comparator other key = .eq
  · rw [if_pos hsame, find_here hinsert (hother.trans hsame)]
  · rw [if_neg hsame]
    rcases split_at hasc key with ⟨entry, hentry, hsplit⟩ | ⟨hnone, hsplit⟩
    · have hpivot := hsplit ▸ hasc
      have hside : comparator other entry.1 = comparator other key :=
        (Std.TransCmp.congr_right hentry).symm
      conv_rhs => rw [hsplit]
      cases hcompare : comparator other key with
      | lt =>
          rw [find_left hinsert (hother.trans hcompare),
            find_left hpivot (hside.trans hcompare)]
      | eq => exact absurd hcompare hsame
      | gt =>
          rw [find_right hinsert (hother.trans hcompare),
            find_right hpivot (hside.trans hcompare)]
    · conv_rhs => rw [hsplit]
      cases hcompare : comparator other key with
      | lt =>
          have hlater : ((above comparator key entries).find? fun later =>
              comparator other later.1 = .eq) = none := by
            apply find?_eq_none
            intro later hlater
            rw [Std.TransCmp.lt_trans hcompare (mem_above.mp hlater).2]
            decide
          rw [find_left hinsert (hother.trans hcompare)]
          unfold find
          rw [List.find?_append, hlater, Option.or_none]
      | eq => exact absurd hcompare hsame
      | gt =>
          have hearlier : ((below comparator key entries).find? fun earlier =>
              comparator other earlier.1 = .eq) = none := by
            apply find?_eq_none
            intro earlier hearlier
            rw [Std.OrientedCmp.gt_of_lt (Std.TransCmp.lt_trans
              (mem_below.mp hearlier).2 (Std.OrientedCmp.lt_of_gt hcompare))]
            decide
          rw [find_right hinsert (hother.trans hcompare)]
          unfold find
          rw [List.find?_append, hearlier, Option.none_or]

theorem find_of_mem {entries : List (κ × β)} {entry : κ × β}
    (hasc : Ascending comparator entries) (hentry : entry ∈ entries) :
    find comparator entry.1 entries = some entry.2 := by
  obtain ⟨left, right, rfl⟩ := List.append_of_mem hentry
  exact find_here hasc Std.ReflCmp.compare_self

theorem erase_of_find_eq_none {entries : List (κ × β)} {key : κ}
    (hasc : Ascending comparator entries)
    (hfind : find comparator key entries = none) :
    erase comparator key entries = entries := by
  rcases split_at hasc key with ⟨entry, hentry, hsplit⟩ | ⟨-, hsplit⟩
  · have hpivot := hsplit ▸ hasc
    rw [hsplit, find_here hpivot hentry] at hfind
    contradiction
  · exact hsplit.symm

theorem startingAt_of_find_eq_none {entries : List (κ × β)} {key : κ}
    (hfind : find comparator key entries = none) :
    startingAt comparator key entries = above comparator key entries := by
  refine List.filter_congr fun entry hentry => ?_
  have hother := find_eq_none_iff.mp hfind entry hentry
  cases hcompare : comparator key entry.1 with
  | lt => simp [Std.OrientedCmp.gt_of_lt hcompare]
  | eq => contradiction
  | gt => simp [Std.OrientedCmp.lt_of_gt hcompare]

theorem upTo_of_find_eq_none {entries : List (κ × β)} {key : κ}
    (hfind : find comparator key entries = none) :
    upTo comparator key entries = below comparator key entries := by
  refine List.filter_congr fun entry hentry => ?_
  have hother := find_eq_none_iff.mp hfind entry hentry
  cases hcompare : comparator key entry.1 with
  | lt => simp [Std.OrientedCmp.gt_of_lt hcompare]
  | eq => contradiction
  | gt => simp [Std.OrientedCmp.lt_of_gt hcompare]

theorem find_erase {entries : List (κ × β)}
    (hasc : Ascending comparator entries) (key other : κ) :
    find comparator other (erase comparator key entries) =
      if comparator other key = .eq then none
      else find comparator other entries := by
  by_cases hsame : comparator other key = .eq
  · rw [if_pos hsame]
    unfold find erase
    rw [find?_eq_none, Option.map_none]
    intro entry hentry
    rw [Std.TransCmp.congr_left hsame]
    rcases List.mem_append.mp hentry with hbelow | habove
    · rw [Std.OrientedCmp.gt_of_lt (mem_below.mp hbelow).2]
      decide
    · rw [(mem_above.mp habove).2]
      decide
  · rw [if_neg hsame]
    rcases split_at hasc key with ⟨entry, hentry, hsplit⟩ | ⟨hnone, hsplit⟩
    · -- the entry that goes is not the one looked for
      have hside : comparator other entry.1 ≠ .eq := by
        rw [← Std.TransCmp.congr_right hentry]
        exact hsame
      conv_rhs => rw [hsplit]
      unfold find erase
      simp [List.find?_append, hside]
    · unfold erase
      rw [← hsplit]

/-! ## The entries of one list in another -/

/-- The entries under the keys under which another list files them. -/
def filedIn (comparator : κ → κ → Ordering) (others entries : List (κ × β)) :
    List (κ × β) :=
  entries.map fun entry => (slot comparator entry.1 others, entry.2)

theorem find_filedIn (others entries : List (κ × β)) (key : κ) :
    find comparator key (filedIn comparator others entries) =
      find comparator key entries := by
  have hslot (entry : κ × β) :
      comparator key (slot comparator entry.1 others) =
        comparator key entry.1 :=
    Std.TransCmp.congr_right (comparator_slot entry.1 others)
  unfold find filedIn
  rw [List.find?_map, Option.map_map]
  simp only [Function.comp_def, hslot]

theorem ascending_filedIn {entries : List (κ × β)}
    (hasc : Ascending comparator entries) (others : List (κ × β)) :
    Ascending comparator (filedIn comparator others entries) := by
  refine List.pairwise_map.mpr (hasc.imp ?_)
  intro first second hlt
  have hfirst : comparator (slot comparator first.1 others) first.1 = .eq :=
    comparator_slot first.1 others
  have hsecond : comparator (slot comparator second.1 others) second.1 = .eq :=
    comparator_slot second.1 others
  dsimp only
  rw [Std.TransCmp.congr_left hfirst, Std.TransCmp.congr_right hsecond]
  exact hlt

theorem subperm_filedIn {entries others : List (κ × β)}
    (hasc : Ascending comparator entries)
    (hfound : ∀ entry ∈ entries,
      find comparator entry.1 others = some entry.2) :
    (filedIn comparator others entries).Subperm others := by
  refine List.Nodup.subperm ?_ ?_
  · refine (ascending_filedIn hasc others).imp ?_
    rintro first second hlt rfl
    have hself : comparator first.1 first.1 = .eq := Std.ReflCmp.compare_self
    rw [hself] at hlt
    contradiction
  · intro entry hentry
    obtain ⟨old, hold, rfl⟩ := List.mem_map.mp hentry
    exact mem_of_find (hfound old hold)

/-- As many entries, each of which the other list has, make the same lookups,
and conversely. -/
theorem length_eq_and_found_iff {entries others : List (κ × β)}
    (hasc : Ascending comparator entries)
    (hothers : Ascending comparator others) :
    (entries.length = others.length ∧
        ∀ entry ∈ entries,
          find comparator entry.1 others = some entry.2) ↔
      ∀ key, find comparator key entries = find comparator key others := by
  constructor
  · rintro ⟨hlength, hfound⟩ key
    have hperm := (subperm_filedIn hasc hfound).perm_of_length_le
      (by rw [filedIn, List.length_map, hlength])
    rw [← eq_of_perm (ascending_filedIn hasc others) hothers hperm,
      find_filedIn]
  · intro hsame
    have hfound : ∀ entry ∈ entries,
        find comparator entry.1 others = some entry.2 :=
      fun entry hentry => hsame entry.1 ▸ find_of_mem hasc hentry
    have hfoundBack : ∀ entry ∈ others,
        find comparator entry.1 entries = some entry.2 :=
      fun entry hentry => (hsame entry.1).trans (find_of_mem hothers hentry)
    have hle := (subperm_filedIn hasc hfound).length_le
    have hge := (subperm_filedIn hothers hfoundBack).length_le
    rw [filedIn, List.length_map] at hle hge
    exact ⟨Nat.le_antisymm hle hge, hfound⟩

end Slot

end SortedEntries
