import Stockly.FLLRBNode

/-!
# The balance of a sorted tree

`check` walks a tree and throws when it is not left-leaning red-black.  The
trees on which it returns are the balanced ones.  An insertion passes through
shapes which are not: below the root at most a red node and its left child are
both red, and the repair at their parent undoes it.
-/

universe u v

namespace FirebaseDatabase

namespace FLLRBNode

variable {κ : Type u} {β : Type v}

inductive CheckFailure where
  | redNodeHasRedChild
  | rightChildIsRed
  | blackDepth (left right : ℕ)
deriving DecidableEq, Repr

def check : FLLRBNode κ β → Except CheckFailure ℕ
  | emptyNode => .ok 0
  | valueNode _ _ color left right =>
      if color = .red ∧ left.isRed then .error .redNodeHasRedChild
      else if right.isRed then .error .rightChildIsRed
      else
        match left.check, right.check with
        | .error failure, _ => .error failure
        | .ok _, .error failure => .error failure
        | .ok leftDepth, .ok rightDepth =>
            if leftDepth = rightDepth then
              .ok (leftDepth + if color = .red then 0 else 1)
            else .error (.blackDepth leftDepth rightDepth)

/-- A method of value nodes only. -/
def checkMaxDepth : FLLRBNode κ β → Option (Except CheckFailure Bool)
  | emptyNode => none
  | valueNode key value color left right =>
      let node := valueNode key value color left right
      some (node.check.map fun blackDepth =>
        decide (2 ^ blackDepth ≤ node.count + 1))

/-- Left-leaning red-black with as many black nodes on every way down. -/
inductive Balanced : FLLRBNode κ β → ℕ → Prop where
  | empty : Balanced emptyNode 0
  | red {key : κ} {value : β} {left right : FLLRBNode κ β} {depth : ℕ}
      (hleft : Balanced left depth) (hright : Balanced right depth)
      (hleftBlack : left.isRed = false) (hrightBlack : right.isRed = false) :
      Balanced (valueNode key value .red left right) depth
  | black {key : κ} {value : β} {left right : FLLRBNode κ β} {depth : ℕ}
      (hleft : Balanced left depth) (hright : Balanced right depth)
      (hrightBlack : right.isRed = false) :
      Balanced (valueNode key value .black left right) (depth + 1)

@[simp] theorem isRed_emptyNode :
    (emptyNode : FLLRBNode κ β).isRed = false := rfl

@[simp] theorem isRed_red (key : κ) (value : β) (left right : FLLRBNode κ β) :
    (valueNode key value .red left right).isRed = true := rfl

@[simp] theorem isRed_black (key : κ) (value : β)
    (left right : FLLRBNode κ β) :
    (valueNode key value .black left right).isRed = false := rfl

@[simp] theorem left_valueNode (key : κ) (value : β) (color : FLLRBColor)
    (left right : FLLRBNode κ β) :
    (valueNode key value color left right).left = left := rfl

@[simp] theorem right_valueNode (key : κ) (value : β) (color : FLLRBColor)
    (left right : FLLRBNode κ β) :
    (valueNode key value color left right).right = right := rfl

theorem Balanced.ofColor {key : κ} {value : β} {color : FLLRBColor}
    {left right : FLLRBNode κ β} {depth : ℕ}
    (hleft : left.Balanced depth) (hright : right.Balanced depth)
    (hleftBlack : color = .red → left.isRed = false)
    (hrightBlack : right.isRed = false) :
    (valueNode key value color left right).Balanced
      (depth + if color = .red then 0 else 1) := by
  cases color with
  | red => exact .red hleft hright (hleftBlack rfl) hrightBlack
  | black => exact .black hleft hright hrightBlack

theorem Balanced.parts {key : κ} {value : β} {color : FLLRBColor}
    {left right : FLLRBNode κ β} {depth : ℕ}
    (hbalanced : (valueNode key value color left right).Balanced depth) :
    ∃ below, depth = below + (if color = .red then 0 else 1) ∧
      left.Balanced below ∧ right.Balanced below ∧
      (color = .red → left.isRed = false) ∧ right.isRed = false := by
  cases hbalanced with
  | red hleft hright hleftBlack hrightBlack =>
      exact ⟨_, rfl, hleft, hright, fun _ => hleftBlack, hrightBlack⟩
  | black hleft hright hrightBlack =>
      exact ⟨_, rfl, hleft, hright, fun hcolor => by contradiction,
        hrightBlack⟩

theorem check_eq_ok_iff {node : FLLRBNode κ β} {depth : ℕ} :
    node.check = .ok depth ↔ node.Balanced depth := by
  induction node generalizing depth with
  | emptyNode =>
      constructor
      · intro hcheck
        cases hcheck
        exact .empty
      · intro hbalanced
        cases hbalanced
        rfl
  | valueNode key value color left right ihleft ihright =>
      constructor
      · intro hcheck
        unfold check at hcheck
        split at hcheck
        next => contradiction
        next hred =>
          split at hcheck
          next => contradiction
          next hrightBlack =>
            split at hcheck
            next => contradiction
            next => contradiction
            next leftDepth rightDepth hleft hright =>
              split at hcheck
              next hsame =>
                subst hsame
                cases hcheck
                refine .ofColor (ihleft.mp hleft) (ihright.mp hright) ?_
                  (by simpa using hrightBlack)
                intro hcolor
                simpa [hcolor] using hred
              next => contradiction
      · intro hbalanced
        cases hbalanced with
        | red hleft hright hleftBlack hrightBlack =>
            simp [check, ihleft.mpr hleft, ihright.mpr hright, hleftBlack,
              hrightBlack]
        | black hleft hright hrightBlack =>
            simp [check, ihleft.mpr hleft, ihright.mpr hright, hrightBlack]

theorem Balanced.unique {node : FLLRBNode κ β} {depth other : ℕ}
    (hbalanced : node.Balanced depth) (hother : node.Balanced other) :
    depth = other := by
  have hcheck := check_eq_ok_iff.mpr hbalanced
  rw [check_eq_ok_iff.mpr hother] at hcheck
  cases hcheck
  rfl

theorem two_pow_le_count {node : FLLRBNode κ β} {depth : ℕ}
    (hbalanced : node.Balanced depth) : 2 ^ depth ≤ node.count + 1 := by
  induction hbalanced with
  | empty => exact Nat.le_refl 1
  | red hleft hright hleftBlack hrightBlack ihleft ihright =>
      simp only [count]
      omega
  | black hleft hright hrightBlack ihleft ihright =>
      simp only [count, Nat.pow_succ]
      omega

theorem checkMaxDepth_of_balanced {node : FLLRBNode κ β} {depth : ℕ}
    (hbalanced : node.Balanced depth) (hnonempty : node.isEmpty = false) :
    node.checkMaxDepth = some (.ok true) := by
  cases node with
  | emptyNode => contradiction
  | valueNode key value color left right =>
      simp [checkMaxDepth, check_eq_ok_iff.mpr hbalanced, Except.map,
        two_pow_le_count hbalanced]

/-! ## What the repair at a node does -/

section FixUp

variable {key : κ} {value : β} {color : FLLRBColor}
  {left right : FLLRBNode κ β}

theorem fixUp_eq_self (hright : right.isRed = false)
    (hleft : left.isRed = false ∨ left.left.isRed = false) :
    (valueNode key value color left right).fixUp =
      valueNode key value color left right := by
  rcases hleft with hleft | hleft
  · simp [fixUp, hright, hleft]
  · simp [fixUp, hright, hleft]

theorem fixUp_red_right {rightKey : κ} {rightValue : β}
    {inner outer : FLLRBNode κ β} (hleft : left.isRed = false)
    (houter : outer.isRed = false) :
    (valueNode key value color left
        (valueNode rightKey rightValue .red inner outer)).fixUp =
      valueNode rightKey rightValue color
        (valueNode key value .red left inner) outer := by
  simp [fixUp, rotateLeft, hleft, houter]

theorem fixUp_red_children {leftKey rightKey : κ} {leftValue rightValue : β}
    {outer inner near far : FLLRBNode κ β} (houter : outer.isRed = false) :
    (valueNode key value color
        (valueNode leftKey leftValue .red outer inner)
        (valueNode rightKey rightValue .red near far)).fixUp =
      valueNode key value color.flip
        (valueNode leftKey leftValue .black outer inner)
        (valueNode rightKey rightValue .black near far) := by
  simp [fixUp, houter, colorFlip, flipped, FLLRBColor.flip]

theorem fixUp_red_left_left {leftKey outerKey : κ} {leftValue outerValue : β}
    {first second inner : FLLRBNode κ β} (hright : right.isRed = false) :
    (valueNode key value color
        (valueNode leftKey leftValue .red
          (valueNode outerKey outerValue .red first second) inner)
        right).fixUp =
      valueNode leftKey leftValue color.flip
        (valueNode outerKey outerValue .black first second)
        (valueNode key value .black inner right) := by
  simp [fixUp, hright, rotateRight, colorFlip, flipped, FLLRBColor.flip]

end FixUp

theorem Balanced.left_black_of_red {node : FLLRBNode κ β} {depth : ℕ}
    (hbalanced : node.Balanced depth) (hred : node.isRed = true) :
    node.left.isRed = false := by
  cases hbalanced with
  | empty => contradiction
  | red hleft hright hleftBlack hrightBlack => exact hleftBlack
  | black => contradiction

theorem Balanced.left_black {node : FLLRBNode κ β} {depth : ℕ}
    (hbalanced : node.Balanced depth) :
    node.isRed = false ∨ node.left.isRed = false := by
  by_cases hred : node.isRed = true
  · exact Or.inr (hbalanced.left_black_of_red hred)
  · exact Or.inl (by simpa using hred)

/-- A black node over any two balanced children is repaired. -/
theorem balanced_fixUp_black {key : κ} {value : β}
    {left right : FLLRBNode κ β} {depth : ℕ} (hleft : left.Balanced depth)
    (hright : right.Balanced depth) :
    (valueNode key value .black left right).fixUp.Balanced (depth + 1) := by
  by_cases hred : right.isRed = true
  · cases hright with
    | empty => contradiction
    | black => contradiction
    | red hinner houter hinnerBlack houterBlack =>
        by_cases hleftRed : left.isRed = true
        · cases hleft with
          | empty => contradiction
          | black => contradiction
          | red hnear hfar hnearBlack hfarBlack =>
              rw [fixUp_red_children hnearBlack]
              exact .red (.black hnear hfar hfarBlack)
                (.black hinner houter houterBlack) rfl rfl
        · rw [Bool.not_eq_true] at hleftRed
          rw [fixUp_red_right hleftRed houterBlack]
          exact .black (.red hleft hinner hleftRed hinnerBlack) houter
            houterBlack
  · rw [Bool.not_eq_true] at hred
    have hleftLeft : left.isRed = false ∨ left.left.isRed = false := by
      by_cases hleftRed : left.isRed = true
      · exact Or.inr (hleft.left_black_of_red hleftRed)
      · exact Or.inl (by simpa using hleftRed)
    rw [fixUp_eq_self hred hleftLeft]
    exact .black hleft hright hred

/-! ## Insertion -/

/-- A red root over balanced children, of which the left one may be red. -/
def RedRoot (node : FLLRBNode κ β) (depth : ℕ) : Prop :=
  ∃ key value left right, node = valueNode key value .red left right ∧
    left.Balanced depth ∧ right.Balanced depth ∧ right.isRed = false

theorem balanced_insertKey {comparator : κ → κ → Ordering} (aKey : κ)
    (aValue : β) {node : FLLRBNode κ β} {depth : ℕ}
    (hbalanced : node.Balanced depth) :
    (node.isRed = false →
        (node.insertKey comparator aKey aValue).Balanced depth) ∧
      (node.isRed = true →
        (node.insertKey comparator aKey aValue).RedRoot depth) := by
  induction hbalanced with
  | empty =>
      refine ⟨fun _ => .red .empty .empty rfl rfl, fun hred => ?_⟩
      contradiction
  | @red key value left right depth hleft hright hleftBlack hrightBlack
      ihleft ihright =>
      refine ⟨fun hblack => ?_, fun _ => ?_⟩
      · contradiction
      have hleftNew := ihleft.1 hleftBlack
      have hrightNew := ihright.1 hrightBlack
      simp only [insertKey]
      split
      next =>
        have hleftLeft :
            (left.insertKey comparator aKey aValue).isRed = false ∨
              (left.insertKey comparator aKey aValue).left.isRed = false := by
          by_cases hred : (left.insertKey comparator aKey aValue).isRed = true
          · exact Or.inr (hleftNew.left_black_of_red hred)
          · exact Or.inl (by simpa using hred)
        rw [fixUp_eq_self hrightBlack hleftLeft]
        exact ⟨_, _, _, _, rfl, hleftNew, hright, hrightBlack⟩
      next =>
        rw [fixUp_eq_self hrightBlack (Or.inl hleftBlack)]
        exact ⟨_, _, _, _, rfl, hleft, hright, hrightBlack⟩
      next =>
        generalize hnew : right.insertKey comparator aKey aValue = new at *
        by_cases hred : new.isRed = true
        · cases hrightNew with
          | empty => contradiction
          | black => contradiction
          | red hinner houter hinnerBlack houterBlack =>
              rw [fixUp_red_right hleftBlack houterBlack]
              exact ⟨_, _, _, _, rfl,
                .red hleft hinner hleftBlack hinnerBlack, houter, houterBlack⟩
        · rw [Bool.not_eq_true] at hred
          rw [fixUp_eq_self hred (Or.inl hleftBlack)]
          exact ⟨_, _, _, _, rfl, hleft, hrightNew, hred⟩
  | @black key value left right depth hleft hright hrightBlack
      ihleft ihright =>
      refine ⟨fun _ => ?_, fun hred => ?_⟩
      swap
      · contradiction
      simp only [insertKey]
      split
      next =>
        by_cases hleftRed : left.isRed = true
        · obtain ⟨leftKey, leftValue, outer, inner, hnew, houter, hinner,
            hinnerBlack⟩ := ihleft.2 hleftRed
          rw [hnew]
          by_cases houterRed : outer.isRed = true
          · cases houter with
            | empty => contradiction
            | black => contradiction
            | red hfirst hsecond hfirstBlack hsecondBlack =>
                rw [fixUp_red_left_left hrightBlack]
                exact .red (.black hfirst hsecond hsecondBlack)
                  (.black hinner hright hrightBlack) rfl rfl
          · rw [Bool.not_eq_true] at houterRed
            have hleftLeft :
                (valueNode leftKey leftValue .red outer inner).left.isRed =
                  false := houterRed
            rw [fixUp_eq_self hrightBlack (Or.inr hleftLeft)]
            exact .black (.red houter hinner houterRed hinnerBlack) hright
              hrightBlack
        · exact balanced_fixUp_black
            (ihleft.1 (by simpa using hleftRed)) hright
      next => exact balanced_fixUp_black hleft hright
      next => exact balanced_fixUp_black hleft (ihright.1 hrightBlack)

theorem RedRoot.balanced {node : FLLRBNode κ β} {depth : ℕ}
    (hroot : node.RedRoot depth) :
    (node.withColor .black).Balanced (depth + 1) := by
  obtain ⟨key, value, left, right, rfl, hleft, hright, hrightBlack⟩ := hroot
  exact .black hleft hright hrightBlack

theorem Balanced.exists_black {node : FLLRBNode κ β} {depth : ℕ}
    (hbalanced : node.Balanced depth) :
    ∃ depth, (node.withColor .black).Balanced depth := by
  cases hbalanced with
  | empty => exact ⟨0, .empty⟩
  | red hleft hright hleftBlack hrightBlack =>
      exact ⟨_, .black hleft hright hrightBlack⟩
  | black hleft hright hrightBlack =>
      exact ⟨_, .black hleft hright hrightBlack⟩

end FLLRBNode

end FirebaseDatabase
