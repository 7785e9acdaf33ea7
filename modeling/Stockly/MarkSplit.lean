import Mathlib.Tactic

/-!
# Cutting a list at a mark

The parts of a list before and after the first and the last occurrence of a
mark.  A cut whose front, or whose back, is free of the mark is the only one
of its kind.
-/

universe u

namespace MarkSplit

variable {α : Type u} {mark : α} {items before after : List α}

theorem reverse_cut :
    (before ++ mark :: after).reverse =
      after.reverse ++ mark :: before.reverse := by
  simp

variable [DecidableEq α]

def beforeFirst (mark : α) (items : List α) : List α :=
  items.takeWhile fun item => item ≠ mark

def afterFirst (mark : α) (items : List α) : List α :=
  (items.dropWhile fun item => item ≠ mark).tail

def beforeLast (mark : α) (items : List α) : List α :=
  (afterFirst mark items.reverse).reverse

def afterLast (mark : α) (items : List α) : List α :=
  (beforeFirst mark items.reverse).reverse

/-! ## The first mark -/

theorem beforeFirst_append (hbefore : mark ∉ before) :
    beforeFirst mark (before ++ mark :: after) = before := by
  induction before with
  | nil => simp [beforeFirst]
  | cons item before ih =>
      rcases not_or.mp (List.mem_cons.not.mp hbefore) with ⟨hitem, hrest⟩
      have hne : item ≠ mark := fun heq => hitem heq.symm
      have hih := ih hrest
      rw [beforeFirst] at hih
      rw [beforeFirst, List.cons_append, List.takeWhile_cons_of_pos
        (by simpa using hne), hih]

theorem afterFirst_append (hbefore : mark ∉ before) :
    afterFirst mark (before ++ mark :: after) = after := by
  induction before with
  | nil => simp [afterFirst]
  | cons item before ih =>
      rcases not_or.mp (List.mem_cons.not.mp hbefore) with ⟨hitem, hrest⟩
      have hne : item ≠ mark := fun heq => hitem heq.symm
      have hih := ih hrest
      rw [afterFirst] at hih
      rw [afterFirst, List.cons_append, List.dropWhile_cons_of_pos
        (by simpa using hne), hih]

theorem cut_first (hmem : mark ∈ items) :
    items = beforeFirst mark items ++ mark :: afterFirst mark items := by
  rcases List.eq_append_cons_of_mem hmem with ⟨before, after, rfl, hbefore⟩
  rw [beforeFirst_append hbefore, afterFirst_append hbefore]

theorem mem_of_count (hcount : items.count mark = 1) : mark ∈ items := by
  apply List.count_pos_iff.mp
  omega

theorem count_cut (hbefore : mark ∉ before) (hafter : mark ∉ after) :
    (before ++ mark :: after).count mark = 1 := by
  rw [List.count_append, List.count_cons_self,
    List.count_eq_zero.mpr hbefore, List.count_eq_zero.mpr hafter]

/-! ## The last mark -/

theorem beforeLast_append (hafter : mark ∉ after) :
    beforeLast mark (before ++ mark :: after) = before := by
  have hreverse : mark ∉ after.reverse := by simpa using hafter
  rw [beforeLast, reverse_cut, afterFirst_append hreverse,
    List.reverse_reverse]

theorem afterLast_append (hafter : mark ∉ after) :
    afterLast mark (before ++ mark :: after) = after := by
  have hreverse : mark ∉ after.reverse := by simpa using hafter
  rw [afterLast, reverse_cut, beforeFirst_append hreverse,
    List.reverse_reverse]

theorem cut_last (hmem : mark ∈ items) :
    items = beforeLast mark items ++ mark :: afterLast mark items := by
  have hreverse : mark ∈ items.reverse := List.mem_reverse.mpr hmem
  have hcut := congrArg List.reverse (cut_first hreverse)
  rw [List.reverse_reverse, reverse_cut] at hcut
  exact hcut

end MarkSplit
