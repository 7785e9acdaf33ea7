import Stockly.FLLRBBalance

/-!
# Removal from a sorted tree

A removal goes down only to nodes which are red or have a red left child, so
that a leaf can go without a black node going with it.  On the way down a
parent lends its red to the child, and on the way up the repair takes it back
or leaves it; this module says at every step how far a node is from balance,
and concludes that the tree is balanced again when its root is blackened.
-/

universe u v

namespace FirebaseDatabase

namespace FLLRBNode

variable {κ : Type u} {β : Type v}

/-! ## Going down to remove -/

/-- A removal may go down to the node. -/
def Ready (node : FLLRBNode κ β) : Prop :=
  node.isRed = true ∨ node.left.isRed = true

/-- Balanced as before, and red only if the node was. -/
def Kept (node : FLLRBNode κ β) (depth : ℕ) (result : FLLRBNode κ β) : Prop :=
  result.Balanced depth ∧ (node.isRed = false → result.isRed = false)

/-- Balanced as before and of the same color. -/
def Same (node : FLLRBNode κ β) (depth : ℕ) (result : FLLRBNode κ β) : Prop :=
  result.Balanced depth ∧ result.isRed = node.isRed

/-- Kept, if a removal may come down to the node; at the root of a tree, where
it need not, blackening the root repairs the result. -/
def Settled (node : FLLRBNode κ β) (depth : ℕ) (result : FLLRBNode κ β) :
    Prop :=
  (node.Ready → Kept node depth result) ∧
    ∃ depth, (result.withColor .black).Balanced depth

theorem Same.kept {node result : FLLRBNode κ β} {depth : ℕ}
    (hsame : Same node depth result) : Kept node depth result :=
  ⟨hsame.1, fun hblack => hsame.2.trans hblack⟩

theorem Kept.settled {node result : FLLRBNode κ β} {depth : ℕ}
    (hkept : Kept node depth result) : Settled node depth result :=
  ⟨fun _ => hkept, hkept.1.exists_black⟩

/-- The ways down to the left: the node as it is, the left child on a red
loan of its parent, and the loan turned by a red grandchild on the right. -/
theorem beforeLeft_cases {key : κ} {value : β} {color : FLLRBColor}
    {left right : FLLRBNode κ β} {depth : ℕ}
    (hbalanced : (valueNode key value color left right).Balanced depth)
    (hleft : left.isEmpty = false) :
    left.Ready ∧
        (valueNode key value color left right).beforeLeft =
          valueNode key value color left right ∨
      (∃ leftKey leftValue outer inner rightKey rightValue near far,
        left = valueNode leftKey leftValue .black outer inner ∧
        right = valueNode rightKey rightValue .black near far ∧
        outer.isRed = false ∧ near.isRed = false ∧
        (valueNode key value color left right).beforeLeft =
          valueNode key value color.flip
            (valueNode leftKey leftValue .red outer inner)
            (valueNode rightKey rightValue .red near far)) ∨
      ∃ leftKey leftValue outer inner rightKey rightValue nearKey nearValue
          first second far,
        left = valueNode leftKey leftValue .black outer inner ∧
        right = valueNode rightKey rightValue .black
          (valueNode nearKey nearValue .red first second) far ∧
        outer.isRed = false ∧
        (valueNode key value color left right).beforeLeft =
          valueNode nearKey nearValue color
            (valueNode key value .black
              (valueNode leftKey leftValue .red outer inner) first)
            (valueNode rightKey rightValue .black second far) := by
  by_cases hready : left.Ready
  · refine Or.inl ⟨hready, ?_⟩
    rcases hready with hred | hred
    · simp [beforeLeft, hred]
    · simp [beforeLeft, hred]
  · simp only [Ready, not_or, Bool.not_eq_true] at hready
    rcases hready with ⟨hleftBlack, houterBlack⟩
    cases left with
    | emptyNode => contradiction
    | valueNode leftKey leftValue leftColor outer inner =>
        cases leftColor with
        | red => contradiction
        | black =>
            -- as many black nodes on the right, so there is one
            have hright : ∃ rightKey rightValue near far,
                right = valueNode rightKey rightValue .black near far := by
              obtain ⟨below, -, hbelow, hright, -, hrightBlack⟩ :=
                hbalanced.parts
              cases hbelow with
              | black =>
                  cases hright with
                  | red => contradiction
                  | black => exact ⟨_, _, _, _, rfl⟩
            obtain ⟨rightKey, rightValue, near, far, hright⟩ := hright
            subst hright
            by_cases hnear : near.isRed = true
            · obtain ⟨nearKey, nearValue, first, second, hnode⟩ :=
                exists_valueNode_of_isRed hnear
              subst hnode
              refine Or.inr (Or.inr ⟨leftKey, leftValue, outer, inner,
                rightKey, rightValue, nearKey, nearValue, first, second, far,
                rfl, rfl, houterBlack, ?_⟩)
              simp only [left_valueNode] at houterBlack
              cases color <;>
                simp [beforeLeft, isEmpty, houterBlack, moveRedLeft,
                  colorFlip, flipped, FLLRBColor.flip, rotateRight,
                  rotateLeft, withRight]
            · rw [Bool.not_eq_true] at hnear
              refine Or.inr (Or.inl ⟨leftKey, leftValue, outer, inner,
                rightKey, rightValue, near, far, rfl, rfl, houterBlack,
                hnear, ?_⟩)
              simp only [left_valueNode] at houterBlack
              simp [beforeLeft, isEmpty, houterBlack, moveRedLeft,
                colorFlip, flipped, FLLRBColor.flip, hnear]

/-- The grandchildren under two black children. -/
theorem Balanced.black_children {key leftKey rightKey : κ}
    {value leftValue rightValue : β} {color : FLLRBColor}
    {outer inner near far : FLLRBNode κ β} {depth : ℕ}
    (hbalanced : (valueNode key value color
      (valueNode leftKey leftValue .black outer inner)
      (valueNode rightKey rightValue .black near far)).Balanced depth) :
    ∃ below, depth = below + 1 + (if color = .red then 0 else 1) ∧
      (outer.Balanced below ∧ inner.Balanced below ∧ inner.isRed = false) ∧
      near.Balanced below ∧ far.Balanced below ∧ far.isRed = false := by
  obtain ⟨depth, rfl, hleft, hright, -⟩ := hbalanced.parts
  cases hleft with
  | black houter hinner hinnerBlack =>
      cases hright with
      | black hnear hfar hfarBlack =>
          exact ⟨_, rfl, ⟨houter, hinner, hinnerBlack⟩, hnear, hfar,
            hfarBlack⟩

/-- The loan comes back to the node. -/
theorem same_returned {key leftKey rightKey topKey : κ}
    {value leftValue rightValue topValue : β} {color : FLLRBColor}
    {left right outer inner near far : FLLRBNode κ β} {below : ℕ}
    (houter : outer.Balanced below) (hinner : inner.Balanced below)
    (hinnerBlack : inner.isRed = false) (hnear : near.Balanced below)
    (hfar : far.Balanced below) (hfarBlack : far.isRed = false) :
    Same (valueNode key value color left right)
      (below + 1 + if color = .red then 0 else 1)
      (valueNode topKey topValue color.flip.flip
        (valueNode leftKey leftValue .black outer inner)
        (valueNode rightKey rightValue .black near far)) := by
  cases color with
  | red =>
      exact ⟨.red (.black houter hinner hinnerBlack)
        (.black hnear hfar hfarBlack) rfl rfl, rfl⟩
  | black =>
      exact ⟨.black (.black houter hinner hinnerBlack)
        (.black hnear hfar hfarBlack) rfl, rfl⟩

/-- The loan stays with a red left child; at a black node over a black left
child the root has to be blackened. -/
theorem settled_lent {key topKey : κ} {value topValue : β}
    {color : FLLRBColor} {left right lent rest : FLLRBNode κ β} {below : ℕ}
    (hleft : left.isRed = false) (hlent : lent.Balanced below)
    (hrest : rest.Balanced below) (hrestBlack : rest.isRed = false) :
    Settled (valueNode key value color left right)
      (below + 1 + if color = .red then 0 else 1)
      (valueNode topKey topValue color.flip lent rest) := by
  cases color with
  | red =>
      apply Kept.settled
      exact ⟨.black hlent hrest hrestBlack, fun _ => rfl⟩
  | black =>
      refine ⟨fun hready => ?_, below + 1, .black hlent hrest hrestBlack⟩
      rcases hready with hready | hready
      · contradiction
      · simp [hleft] at hready

/-- The loan to the left comes back when the child is red afterwards. -/
theorem settled_left_loan {key leftKey rightKey : κ}
    {value leftValue rightValue : β} {color : FLLRBColor}
    {outer inner near far new : FLLRBNode κ β} {below : ℕ}
    (hnearBlack : near.isRed = false) (hnear : near.Balanced below)
    (hfar : far.Balanced below) (hfarBlack : far.isRed = false)
    (hnew : new.Balanced below) :
    Settled
        (valueNode key value color
          (valueNode leftKey leftValue .black outer inner)
          (valueNode rightKey rightValue .black near far))
        (below + 1 + if color = .red then 0 else 1)
        (valueNode key value color.flip new
          (valueNode rightKey rightValue .red near far)).fixUp ∧
      (new.isRed = true →
        Same
          (valueNode key value color
            (valueNode leftKey leftValue .black outer inner)
            (valueNode rightKey rightValue .black near far))
          (below + 1 + if color = .red then 0 else 1)
          (valueNode key value color.flip new
            (valueNode rightKey rightValue .red near far)).fixUp) := by
  by_cases hred : new.isRed = true
  · cases hnew with
    | empty => contradiction
    | black => contradiction
    | red hfirst hsecond hfirstBlack hsecondBlack =>
        rw [fixUp_red_children hfirstBlack]
        suffices hsame : Same _ _ _ from
          ⟨hsame.kept.settled, fun _ => hsame⟩
        exact same_returned hfirst hsecond hsecondBlack hnear hfar hfarBlack
  · refine ⟨?_, fun hnewRed => absurd hnewRed hred⟩
    rw [Bool.not_eq_true] at hred
    rw [fixUp_red_right hred hfarBlack]
    exact settled_lent rfl (.red hnew hnear hred hnearBlack) hfar hfarBlack

theorem settled_right_loan {key leftKey rightKey newKey : κ}
    {value leftValue rightValue newValue : β} {color : FLLRBColor}
    {outer inner near far new : FLLRBNode κ β} {below : ℕ}
    (houterBlack : outer.isRed = false) (houter : outer.Balanced below)
    (hinner : inner.Balanced below) (hinnerBlack : inner.isRed = false)
    (hnew : new.Balanced below) :
    Settled
      (valueNode key value color
        (valueNode leftKey leftValue .black outer inner)
        (valueNode rightKey rightValue .black near far))
      (below + 1 + if color = .red then 0 else 1)
      (valueNode newKey newValue color.flip
        (valueNode leftKey leftValue .red outer inner) new).fixUp := by
  by_cases hred : new.isRed = true
  · cases hnew with
    | empty => contradiction
    | black => contradiction
    | red hfirst hsecond hfirstBlack hsecondBlack =>
        rw [fixUp_red_children houterBlack]
        exact (same_returned houter hinner hinnerBlack hfirst hsecond
          hsecondBlack).kept.settled
  · rw [Bool.not_eq_true] at hred
    have hleftLeft :
        (valueNode leftKey leftValue .red outer inner).left.isRed = false :=
      houterBlack
    rw [fixUp_eq_self hred (Or.inr hleftLeft)]
    exact settled_lent rfl (.red houter hinner houterBlack hinnerBlack) hnew
      hred

/-! ## The smallest entry -/

/-- A child which was changed in its place. -/
theorem same_stayed {key topKey : κ} {value topValue : β}
    {color : FLLRBColor} {left right newLeft newRight : FLLRBNode κ β}
    {depth : ℕ} (hleft : newLeft.Balanced depth)
    (hright : newRight.Balanced depth)
    (hleftBlack : color = .red → newLeft.isRed = false)
    (hrightBlack : newRight.isRed = false) :
    Same (valueNode key value color left right)
      (depth + if color = .red then 0 else 1)
      (valueNode topKey topValue color newLeft newRight).fixUp := by
  rw [fixUp_eq_self hrightBlack hleft.left_black]
  exact ⟨.ofColor hleft hright hleftBlack hrightBlack, rfl⟩

/-- Below the node a removal goes on at a child for which it is ready, and
what becomes of the child settles the node. -/
theorem exists_down_left {key : κ} {value : β} {color : FLLRBColor}
    {left right : FLLRBNode κ β} {depth : ℕ}
    (hbalanced : (valueNode key value color left right).Balanced depth)
    (hleft : left.isEmpty = false) :
    ∃ topKey topValue topColor down rest below,
      (valueNode key value color left right).beforeLeft =
        valueNode topKey topValue topColor down rest ∧
      (topKey = key ∨ (key, value) ∈ down.inorderTraversal) ∧
      (down.Balanced below ∧ down.Ready) ∧
      ∀ new,
        (Kept down below new →
          Settled (valueNode key value color left right) depth
            (valueNode topKey topValue topColor new rest).fixUp) ∧
        (Same down below new →
          Same (valueNode key value color left right) depth
            (valueNode topKey topValue topColor new rest).fixUp) := by
  rcases beforeLeft_cases hbalanced hleft with
    ⟨hready, hstay⟩ |
    ⟨leftKey, leftValue, outer, inner, rightKey, rightValue, near, far, rfl,
      rfl, houterBlack, hnearBlack, hloan⟩ |
    ⟨leftKey, leftValue, outer, inner, rightKey, rightValue, nearKey,
      nearValue, first, second, far, rfl, rfl, houterBlack, hturned⟩
  · obtain ⟨below, rfl, hdown, hright, hleftBlack, hrightBlack⟩ :=
      hbalanced.parts
    refine ⟨_, _, _, _, _, below, hstay, Or.inl rfl, ⟨hdown, hready⟩,
      fun new => ?_⟩
    have hstayed : Kept left below new →
        Same (valueNode key value color left right)
          (below + if color = .red then 0 else 1)
          (valueNode key value color new right).fixUp := by
      intro hnew
      exact same_stayed hnew.1 hright
        (fun hred => hnew.2 (hleftBlack hred)) hrightBlack
    exact ⟨fun hnew => (hstayed hnew).kept.settled,
      fun hnew => hstayed hnew.kept⟩
  · obtain ⟨below, rfl, ⟨houter, hinner, hinnerBlack⟩, hnear, hfar,
      hfarBlack⟩ := hbalanced.black_children
    refine ⟨_, _, _, _, _, below, hloan, Or.inl rfl,
      ⟨.red houter hinner houterBlack hinnerBlack, Or.inl rfl⟩,
      fun new => ⟨fun hnew => ?_, fun hnew => ?_⟩⟩
    · exact (settled_left_loan hnearBlack hnear hfar hfarBlack hnew.1).1
    · exact (settled_left_loan hnearBlack hnear hfar hfarBlack hnew.1).2
        hnew.2
  · obtain ⟨below, rfl, ⟨houter, hinner, hinnerBlack⟩, hnear, hfar,
      hfarBlack⟩ := hbalanced.black_children
    cases hnear with
    | red hfirst hsecond hfirstBlack hsecondBlack =>
        refine ⟨_, _, _, _, _, below + 1, hturned,
          Or.inr (by simp [inorderTraversal]),
          ⟨.black (.red houter hinner houterBlack hinnerBlack) hfirst
            hfirstBlack, Or.inr rfl⟩, fun new => ?_⟩
        refine ⟨fun hnew => Same.kept ?_ |>.settled, fun hnew => ?_⟩
        · exact same_stayed hnew.1 (.black hsecond hfar hfarBlack)
            (fun _ => hnew.2 rfl) rfl
        · exact same_stayed hnew.1 (.black hsecond hfar hfarBlack)
            (fun _ => hnew.2) rfl

/-- A path down to the left reaches a child with fewer entries. -/
theorem count_down_lt {node down rest : FLLRBNode κ β} {key : κ} {value : β}
    {color : FLLRBColor}
    (htop : node.beforeLeft = valueNode key value color down rest) :
    down.count < node.count := by
  have hcount := count_beforeLeft_le node
  rw [htop, count] at hcount
  omega

theorem kept_removeMin {node : FLLRBNode κ β} {depth : ℕ}
    (hbalanced : node.Balanced depth) (hready : node.Ready) :
    Kept node depth node.removeMin ∧
      node.removeMin.inorderTraversal = node.inorderTraversal.tail := by
  induction hcount : node.count using Nat.strongRecOn generalizing node depth
    with
  | ind bound ih =>
      cases node with
      | emptyNode => rcases hready with hready | hready <;> contradiction
      | valueNode key value color left right =>
          by_cases hleft : left.isEmpty = true
          · rw [removeMin, if_pos hleft]
            have hnode := isEmpty_iff.mp hleft
            subst hnode
            cases hbalanced with
            | red hleft hright hleftBlack hrightBlack =>
                cases hleft
                cases hright with
                | red => contradiction
                | empty => exact ⟨⟨.empty, fun _ => rfl⟩, rfl⟩
            | black => rcases hready with hready | hready <;> contradiction
          · rw [removeMin, if_neg hleft]
            rw [Bool.not_eq_true] at hleft
            obtain ⟨topKey, topValue, topColor, down, rest, below, htop, -,
              ⟨hdown, hdownReady⟩, hsettle⟩ :=
              exists_down_left hbalanced hleft
            have hsmaller := hcount ▸ count_down_lt htop
            obtain ⟨hkept, htail⟩ := ih _ hsmaller hdown hdownReady rfl
            have hentries := inorderTraversal_beforeLeft
              (valueNode key value color left right)
            have hsome : down.inorderTraversal ≠ [] := by
              rw [ne_eq, inorderTraversal_eq_nil_iff]
              rintro rfl
              rcases hdownReady with hready | hready <;> contradiction
            simp only [htop, left_valueNode, withLeft]
            refine ⟨((hsettle _).1 hkept).1 hready, ?_⟩
            rw [inorderTraversal_fixUp, ← hentries, htop]
            simp only [inorderTraversal, htail]
            exact (List.tail_append_of_ne_nil hsome).symm

/-! ## Removal of a key -/

theorem remove_of_lt {comparator : κ → κ → Ordering} {aKey key : κ}
    {value : β} {color : FLLRBColor} {left right : FLLRBNode κ β}
    (hkey : comparator aKey key = .lt) :
    (valueNode key value color left right).remove comparator aKey =
      ((valueNode key value color left right).beforeLeft.withLeft
        ((valueNode key value color left right).beforeLeft.left.remove
          comparator aKey)).fixUp := by
  rw [remove, if_pos hkey]

/-- What the removal does at the node after `beforeRight`. -/
def removeRight (comparator : κ → κ → Ordering) (aKey : κ) :
    FLLRBNode κ β → FLLRBNode κ β
  | emptyNode => emptyNode
  | valueNode key value color lower higher =>
      if comparator aKey key = .eq then
        match higher.min with
        | none => emptyNode
        | some smallest =>
            (valueNode smallest.1 smallest.2 color lower
              (higher.removeMin.remove comparator aKey)).fixUp
      else
        (valueNode key value color lower
          (higher.remove comparator aKey)).fixUp

theorem remove_of_not_lt {comparator : κ → κ → Ordering} {aKey key : κ}
    {value : β} {color : FLLRBColor} {left right : FLLRBNode κ β}
    (hkey : comparator aKey key ≠ .lt) :
    (valueNode key value color left right).remove comparator aKey =
      removeRight comparator aKey
        (valueNode key value color left right).beforeRight := by
  rw [remove, if_neg hkey]
  split
  next htop => rw [htop, removeRight]
  next htop =>
    rw [htop]
    rfl

theorem removeRight_of_gt {comparator : κ → κ → Ordering} {aKey key : κ}
    {value : β} {color : FLLRBColor} {lower higher : FLLRBNode κ β}
    (hkey : comparator aKey key = .gt) :
    removeRight comparator aKey (valueNode key value color lower higher) =
      (valueNode key value color lower
        (higher.remove comparator aKey)).fixUp := by
  simp [removeRight, hkey]

/-- Of a key below all entries nothing is removed, and the turns on the way
down keep the color of the node. -/
theorem remove_below_all {comparator : κ → κ → Ordering} {aKey : κ}
    {node : FLLRBNode κ β} {depth : ℕ} (hbalanced : node.Balanced depth)
    (hbelow : ∀ entry ∈ node.inorderTraversal,
      comparator aKey entry.1 = .lt) :
    ((node.remove comparator aKey).Balanced depth ∧
        (node.remove comparator aKey).isRed = node.isRed) ∧
      (node.remove comparator aKey).inorderTraversal =
        node.inorderTraversal := by
  induction hcount : node.count using Nat.strongRecOn generalizing node depth
    with
  | ind bound ih =>
      cases node with
      | emptyNode =>
          rw [remove]
          exact ⟨⟨hbalanced, rfl⟩, rfl⟩
      | valueNode key value color left right =>
          have hkey : comparator aKey key = .lt :=
            hbelow (key, value) (by simp [inorderTraversal])
          have hentries := inorderTraversal_beforeLeft
            (valueNode key value color left right)
          rw [remove_of_lt hkey]
          by_cases hleft : left.isEmpty = true
          · have hnode := isEmpty_iff.mp hleft
            subst hnode
            have hself : (valueNode key value color emptyNode
                right).beforeLeft = valueNode key value color emptyNode right :=
              by simp [beforeLeft, isEmpty]
            obtain ⟨below, rfl, hdown, hright, -, hrightBlack⟩ :=
              hbalanced.parts
            simp only [hself, withLeft, left_valueNode, remove]
            refine ⟨same_stayed hdown hright (fun _ => rfl) hrightBlack, ?_⟩
            rw [inorderTraversal_fixUp]
          · rw [Bool.not_eq_true] at hleft
            obtain ⟨topKey, topValue, topColor, down, rest, below, htop, -,
              ⟨hdown, -⟩, hsettle⟩ := exists_down_left hbalanced hleft
            have hsmaller := hcount ▸ count_down_lt htop
            rw [htop] at hentries
            obtain ⟨hsame, hkept⟩ := ih _ hsmaller hdown (by
              intro entry hentry
              apply hbelow
              rw [← hentries]
              simp [inorderTraversal, hentry]) rfl
            simp only [htop, left_valueNode, withLeft]
            refine ⟨(hsettle _).2 hsame, ?_⟩
            rw [inorderTraversal_fixUp, ← hentries]
            simp only [inorderTraversal, hkept]

/-! ## Going down to the right -/

/-- The ways down to the right: no child at all, the node as it is, a red left
child turned over the node, the right child on a red loan of its parent, and
the loan turned by a red grandchild on the left. -/
theorem beforeRight_cases {key : κ} {value : β} {color : FLLRBColor}
    {left right : FLLRBNode κ β} {depth : ℕ}
    (hbalanced : (valueNode key value color left right).Balanced depth) :
    left = emptyNode ∧ right = emptyNode ∧
        (valueNode key value color left right).beforeRight =
          valueNode key value color emptyNode emptyNode ∨
      left.isRed = false ∧ right.Ready ∧
        (valueNode key value color left right).beforeRight =
          valueNode key value color left right ∨
      (∃ leftKey leftValue outer inner,
        left = valueNode leftKey leftValue .red outer inner ∧
        color = .black ∧
        (valueNode key value color left right).beforeRight =
          valueNode leftKey leftValue .black outer
            (valueNode key value .red inner right)) ∨
      (∃ leftKey leftValue outer inner rightKey rightValue near far,
        left = valueNode leftKey leftValue .black outer inner ∧
        right = valueNode rightKey rightValue .black near far ∧
        outer.isRed = false ∧ near.isRed = false ∧
        (valueNode key value color left right).beforeRight =
          valueNode key value color.flip
            (valueNode leftKey leftValue .red outer inner)
            (valueNode rightKey rightValue .red near far)) ∨
      ∃ leftKey leftValue outerKey outerValue first second inner rightKey
          rightValue near far,
        left = valueNode leftKey leftValue .black
          (valueNode outerKey outerValue .red first second) inner ∧
        right = valueNode rightKey rightValue .black near far ∧
        near.isRed = false ∧
        (valueNode key value color left right).beforeRight =
          valueNode leftKey leftValue color
            (valueNode outerKey outerValue .black first second)
            (valueNode key value .black inner
              (valueNode rightKey rightValue .red near far)) := by
  obtain ⟨below, -, hleft, hright, hleftBlack, hrightBlack⟩ := hbalanced.parts
  by_cases hred : left.isRed = true
  · obtain ⟨leftKey, leftValue, outer, inner, hnode⟩ :=
      exists_valueNode_of_isRed hred
    subst hnode
    have hcolor : color = .black := by
      cases color with
      | red => exact absurd (hleftBlack rfl) (by simp)
      | black => rfl
    refine Or.inr (Or.inr (Or.inl ⟨_, _, _, _, rfl, hcolor, ?_⟩))
    simp [beforeRight, rotateRight, hcolor]
  · rw [Bool.not_eq_true] at hred
    cases right with
    | emptyNode =>
        cases hright
        cases hleft with
        | red => contradiction
        | empty => exact Or.inl ⟨rfl, rfl, by simp [beforeRight, isEmpty]⟩
    | valueNode rightKey rightValue rightColor near far =>
        cases rightColor with
        | red => contradiction
        | black =>
            by_cases hnear : near.isRed = true
            · refine Or.inr (Or.inl ⟨hred, Or.inr hnear, ?_⟩)
              simp [beforeRight, hred, hnear]
            · rw [Bool.not_eq_true] at hnear
              cases hright with
              | black =>
                  cases hleft with
                  | red => contradiction
                  | @black leftKey leftValue outer inner =>
                      by_cases houter : outer.isRed = true
                      · obtain ⟨outerKey, outerValue, first, second, hnode⟩ :=
                          exists_valueNode_of_isRed houter
                        subst hnode
                        refine Or.inr (Or.inr (Or.inr (Or.inr
                          ⟨_, _, _, _, _, _, _, _, _, _, _, rfl, rfl, hnear,
                            ?_⟩)))
                        cases color <;>
                          simp [beforeRight, isEmpty, hnear, moveRedRight,
                            colorFlip, flipped, FLLRBColor.flip, rotateRight]
                      · rw [Bool.not_eq_true] at houter
                        refine Or.inr (Or.inr (Or.inr (Or.inl
                          ⟨_, _, _, _, _, _, _, _, rfl, rfl, houter, hnear,
                            ?_⟩)))
                        simp [beforeRight, isEmpty, hnear, moveRedRight,
                          colorFlip, flipped, FLLRBColor.flip, houter]

theorem count_lower_lt {node lower higher : FLLRBNode κ β} {key : κ}
    {value : β} {color : FLLRBColor}
    (htop : node.beforeRight = valueNode key value color lower higher) :
    higher.count < node.count := by
  have hcount := count_beforeRight_le node
  rw [htop, count] at hcount
  omega

theorem isRed_fixUp_black {key : κ} {value : β} {left right : FLLRBNode κ β}
    {depth : ℕ} (hleft : left.isRed = false) (hright : right.Balanced depth) :
    (valueNode key value .black left right).fixUp.isRed = false := by
  by_cases hred : right.isRed = true
  · cases hright with
    | empty => contradiction
    | black => contradiction
    | red hinner houter hinnerBlack houterBlack =>
        rw [fixUp_red_right hleft houterBlack]
        rfl
  · rw [fixUp_eq_self (by simpa using hred) (Or.inl hleft)]
    rfl

/-- The removal settles the node and takes out the key and nothing else. -/
def Removes (comparator : κ → κ → Ordering) (aKey : κ)
    (node : FLLRBNode κ β) : Prop :=
  ∀ depth, SortedEntries.Ascending comparator node.inorderTraversal →
    node.Balanced depth →
    Settled node depth (node.remove comparator aKey) ∧
      (node.remove comparator aKey).inorderTraversal =
        SortedEntries.erase comparator aKey node.inorderTraversal

theorem Removes.kept {comparator : κ → κ → Ordering} {aKey : κ}
    {node : FLLRBNode κ β} {depth : ℕ}
    (hremoves : Removes comparator aKey node)
    (hasc : SortedEntries.Ascending comparator node.inorderTraversal)
    (hbalanced : node.Balanced depth) (hready : node.Ready) :
    Kept node depth (node.remove comparator aKey) ∧
      (node.remove comparator aKey).inorderTraversal =
        SortedEntries.erase comparator aKey node.inorderTraversal :=
  (hremoves depth hasc hbalanced).imp_left fun hsettled => hsettled.1 hready

section Remove

variable {comparator : κ → κ → Ordering} [Std.TransCmp comparator] {aKey : κ}

/-- The right child keeps its balance, whether the key is removed further down
or its place is taken by the smallest entry of the child. -/
theorem exists_removeRight {key : κ} {value : β} {color : FLLRBColor}
    {lower higher : FLLRBNode κ β} {below : ℕ}
    (hasc : SortedEntries.Ascending comparator
      (valueNode key value color lower higher).inorderTraversal)
    (hkey : comparator aKey key ≠ .lt)
    (hhigher : higher.Balanced below) (hready : higher.Ready)
    (hremove : Kept higher below (higher.remove comparator aKey) ∧
      (higher.remove comparator aKey).inorderTraversal =
        SortedEntries.erase comparator aKey higher.inorderTraversal) :
    ∃ topKey topValue new,
      removeRight comparator aKey (valueNode key value color lower higher) =
        (valueNode topKey topValue color lower new).fixUp ∧
      Kept higher below new ∧
      (valueNode topKey topValue color lower new).inorderTraversal =
        SortedEntries.erase comparator aKey
          (valueNode key value color lower higher).inorderTraversal := by
  simp only [inorderTraversal] at hasc ⊢
  by_cases hsame : comparator aKey key = .eq
  · -- the successor comes up, and the search goes on above it
    obtain ⟨hmin, htail⟩ := kept_removeMin hhigher hready
    obtain ⟨smallest, rest, hentries⟩ :
        ∃ smallest rest, higher.inorderTraversal = smallest :: rest := by
      cases higher with
      | emptyNode => rcases hready with hready | hready <;> contradiction
      | valueNode => exact List.exists_cons_of_ne_nil (by simp [inorderTraversal])
    have hsmallest : higher.min = some smallest := by
      rw [min_eq_head?, hentries, List.head?_cons]
    rw [hentries, List.tail_cons] at htail
    have habove : ∀ entry ∈ higher.removeMin.inorderTraversal,
        comparator aKey entry.1 = .lt := by
      intro entry hentry
      rw [htail] at hentry
      rcases SortedEntries.ascending_append_cons.mp hasc with ⟨-, -, hlater, -⟩
      refine Std.TransCmp.lt_of_eq_of_lt hsame (hlater entry ?_)
      rw [hentries]
      exact List.mem_cons_of_mem smallest hentry
    obtain ⟨⟨hbalanced, hcolor⟩, hkept⟩ := remove_below_all hmin.1 habove
    refine ⟨smallest.1, smallest.2, _, ?_, ⟨hbalanced, fun hblack => ?_⟩, ?_⟩
    · simp only [removeRight, if_pos hsame, hsmallest]
    · rw [hcolor, hmin.2 hblack]
    · rw [hkept, htail, SortedEntries.erase_here hasc hsame, hentries]
  · have hgt : comparator aKey key = .gt := by
      cases hcompare : comparator aKey key with
      | lt => contradiction
      | eq => contradiction
      | gt => rfl
    refine ⟨key, value, _, ?_, hremove.1, ?_⟩
    · simp only [removeRight, if_neg hsame]
    · rw [hremove.2, SortedEntries.erase_right hasc hgt]

/-- The removal passes a black node whose right child is red. -/
theorem same_remove_red_right {key : κ} {value : β}
    {left right : FLLRBNode κ β} {below : ℕ}
    (hasc : SortedEntries.Ascending comparator
      (valueNode key value .black left right).inorderTraversal)
    (hkey : comparator aKey key ≠ .lt)
    (hleft : left.Balanced below) (hleftBlack : left.isRed = false)
    (hright : right.Balanced below) (hred : right.isRed = true)
    (hremove : Kept right below (right.remove comparator aKey) ∧
      (right.remove comparator aKey).inorderTraversal =
        SortedEntries.erase comparator aKey right.inorderTraversal) :
    Same (valueNode key value .black left right) (below + 1)
        ((valueNode key value .black left right).remove comparator aKey) ∧
      ((valueNode key value .black left right).remove
          comparator aKey).inorderTraversal =
        SortedEntries.erase comparator aKey
          (valueNode key value .black left right).inorderTraversal := by
  have hself : (valueNode key value .black left right).beforeRight =
      valueNode key value .black left right := by
    simp [beforeRight, hleftBlack, hred]
  obtain ⟨topKey, topValue, new, hresult, hkept, hentries⟩ :=
    exists_removeRight hasc hkey hright (Or.inl hred) hremove
  rw [remove_of_not_lt hkey, hself, hresult, inorderTraversal_fixUp]
  exact ⟨⟨balanced_fixUp_black hleft hkept.1,
    isRed_fixUp_black hleftBlack hkept.1⟩, hentries⟩

theorem removes_left {key : κ} {value : β} {color : FLLRBColor}
    {left right : FLLRBNode κ β} (hkey : comparator aKey key = .lt)
    (ih : ∀ smaller : FLLRBNode κ β,
      smaller.count < (valueNode key value color left right).count →
        Removes comparator aKey smaller) :
    Removes comparator aKey (valueNode key value color left right) := by
  intro depth hasc hbalanced
  have hentries := inorderTraversal_beforeLeft
    (valueNode key value color left right)
  rw [remove_of_lt hkey, inorderTraversal_fixUp]
  by_cases hleft : left.isEmpty = true
  · have hnode := isEmpty_iff.mp hleft
    subst hnode
    have hself : (valueNode key value color emptyNode right).beforeLeft =
        valueNode key value color emptyNode right := by
      simp [beforeLeft, isEmpty]
    obtain ⟨below, rfl, hdown, hright, -, hrightBlack⟩ := hbalanced.parts
    simp only [hself, withLeft, left_valueNode, remove]
    refine ⟨Same.kept ?_ |>.settled,
      (SortedEntries.erase_left hasc hkey).symm⟩
    exact same_stayed hdown hright (fun _ => rfl) hrightBlack
  · rw [Bool.not_eq_true] at hleft
    obtain ⟨topKey, topValue, topColor, down, rest, below, htop, hbelow,
      ⟨hdown, hready⟩, hsettle⟩ := exists_down_left hbalanced hleft
    rw [htop] at hentries
    rw [← hentries] at hasc ⊢
    have hdownAsc := (SortedEntries.ascending_append_cons.mp hasc).1.1
    have htopKey : comparator aKey topKey = .lt := by
      rcases hbelow with hsame | hmem
      · exact hsame ▸ hkey
      · exact Std.TransCmp.lt_trans hkey
          ((SortedEntries.ascending_append_cons.mp hasc).2.1 _ hmem)
    obtain ⟨hkept, herase⟩ :=
      (ih down (count_down_lt htop)).kept hdownAsc hdown hready
    simp only [htop, left_valueNode, withLeft]
    refine ⟨(hsettle _).1 hkept, ?_⟩
    simp only [inorderTraversal, herase]
    exact (SortedEntries.erase_left hasc htopKey).symm

theorem removes_right {key : κ} {value : β} {color : FLLRBColor}
    {left right : FLLRBNode κ β} (hkey : comparator aKey key ≠ .lt)
    (ih : ∀ smaller : FLLRBNode κ β,
      smaller.count < (valueNode key value color left right).count →
        Removes comparator aKey smaller) :
    Removes comparator aKey (valueNode key value color left right) := by
  intro depth hasc hbalanced
  have hentries := inorderTraversal_beforeRight
    (valueNode key value color left right)
  have hpast (passed : κ) (hpassed : comparator passed key = .lt) :
      comparator aKey passed = .gt := by
    have hother : comparator key aKey ≠ .gt :=
      fun hgt => hkey (Std.OrientedCmp.lt_of_gt hgt)
    have hle : (comparator key aKey).isLE := by
      cases hcompare : comparator key aKey <;> simp_all
    exact Std.OrientedCmp.gt_of_lt (Std.TransCmp.lt_of_lt_of_isLE hpassed hle)
  rw [remove_of_not_lt hkey]
  rcases beforeRight_cases hbalanced with
    ⟨rfl, rfl, htop⟩ | ⟨hleftBlack, hready, htop⟩ |
    ⟨leftKey, leftValue, outer, inner, rfl, rfl, htop⟩ |
    ⟨leftKey, leftValue, outer, inner, rightKey, rightValue, near, far, rfl,
      rfl, houterBlack, hnearBlack, htop⟩ |
    ⟨leftKey, leftValue, outerKey, outerValue, first, second, inner, rightKey,
      rightValue, near, far, rfl, rfl, hnearBlack, htop⟩
  · obtain ⟨below, rfl, hempty, -⟩ := hbalanced.parts
    rw [htop]
    by_cases hsame : comparator aKey key = .eq
    · have hgone : removeRight comparator aKey
          (valueNode key value color emptyNode emptyNode) = emptyNode := by
        simp [removeRight, hsame, min]
      rw [hgone]
      refine ⟨⟨fun hready => ?_, 0, .empty⟩,
        (SortedEntries.erase_here hasc hsame).symm⟩
      rcases hready with hred | hred
      · cases color with
        | red => exact ⟨hempty, fun _ => rfl⟩
        | black => contradiction
      · contradiction
    · have hgt : comparator aKey key = .gt := by
        cases hcompare : comparator aKey key with
        | lt => contradiction
        | eq => contradiction
        | gt => rfl
      rw [removeRight_of_gt hgt, inorderTraversal_fixUp, remove]
      refine ⟨Same.kept ?_ |>.settled,
        (SortedEntries.erase_right hasc hgt).symm⟩
      exact same_stayed hempty hempty (fun _ => rfl) rfl
  · obtain ⟨below, rfl, hleft, hright, -, hrightBlack⟩ := hbalanced.parts
    have hrightAsc := (SortedEntries.ascending_append_cons.mp hasc).1.2
    obtain ⟨topKey, topValue, new, hresult, hkept, herase⟩ :=
      exists_removeRight hasc hkey hright hready
        ((ih right (count_lower_lt htop)).kept hrightAsc hright hready)
    rw [htop, hresult, inorderTraversal_fixUp]
    refine ⟨Same.kept ?_ |>.settled, herase⟩
    exact same_stayed hleft hkept.1 (fun _ => hleftBlack)
      (hkept.2 hrightBlack)
  · -- the red left child comes up and the node goes down
    rw [htop] at hentries
    rw [← hentries] at hasc ⊢
    have hsplit := SortedEntries.ascending_append_cons.mp hasc
    have hpassed := hpast leftKey
      (hsplit.2.2.1 (key, value) (by simp [inorderTraversal]))
    cases hbalanced with
    | black hleft hright hrightBlack =>
        cases hleft with
        | red houter hinner houterBlack hinnerBlack =>
            have hdown : (valueNode key value .red inner right).Balanced _ :=
              .red hinner hright hinnerBlack hrightBlack
            obtain ⟨hkept, herase⟩ :=
              (ih _ (count_lower_lt htop)).kept hsplit.1.2 hdown (Or.inl rfl)
            rw [htop, removeRight_of_gt hpassed, inorderTraversal_fixUp]
            refine ⟨Same.kept ⟨?_, ?_⟩ |>.settled, ?_⟩
            · exact balanced_fixUp_black houter hkept.1
            · exact isRed_fixUp_black houterBlack hkept.1
            · simp only [inorderTraversal] at herase ⊢
              rw [herase]
              exact (SortedEntries.erase_right hasc hpassed).symm
  · obtain ⟨below, rfl, ⟨houter, hinner, hinnerBlack⟩, hnear, hfar,
      hfarBlack⟩ := hbalanced.black_children
    rw [htop] at hentries
    rw [← hentries] at hasc ⊢
    have hdown : (valueNode rightKey rightValue .red near far).Balanced _ :=
      .red hnear hfar hnearBlack hfarBlack
    have hdownAsc := (SortedEntries.ascending_append_cons.mp hasc).1.2
    obtain ⟨topKey, topValue, new, hresult, hkept, herase⟩ :=
      exists_removeRight hasc hkey hdown (Or.inl rfl)
        ((ih _ (count_lower_lt htop)).kept hdownAsc hdown (Or.inl rfl))
    rw [htop, hresult, inorderTraversal_fixUp]
    exact ⟨settled_right_loan houterBlack houter hinner hinnerBlack hkept.1,
      herase⟩
  · obtain ⟨below, rfl, ⟨houter, hinner, hinnerBlack⟩, hnear, hfar,
      hfarBlack⟩ := hbalanced.black_children
    rw [htop] at hentries
    rw [← hentries] at hasc ⊢
    have hsplit := SortedEntries.ascending_append_cons.mp hasc
    have hpassed := hpast leftKey
      (hsplit.2.2.1 (key, value) (by simp [inorderTraversal]))
    have hdown : (valueNode rightKey rightValue .red near far).Balanced _ :=
      .red hnear hfar hnearBlack hfarBlack
    have hdownAsc := (SortedEntries.ascending_append_cons.mp hsplit.1.2).1.2
    have hsmaller : (valueNode rightKey rightValue .red near far).count <
        (valueNode key value color
          (valueNode leftKey leftValue .black
            (valueNode outerKey outerValue .red first second) inner)
          (valueNode rightKey rightValue .black near far)).count := by
      simp only [count]
      omega
    obtain ⟨hsame, herase⟩ :=
      same_remove_red_right hsplit.1.2 hkey hinner hinnerBlack hdown rfl
        ((ih _ hsmaller).kept hdownAsc hdown (Or.inl rfl))
    rw [htop, removeRight_of_gt hpassed, inorderTraversal_fixUp]
    cases houter with
    | red hfirst hsecond hfirstBlack hsecondBlack =>
        refine ⟨Same.kept ?_ |>.settled, ?_⟩
        · exact same_stayed (.black hfirst hsecond hsecondBlack) hsame.1
            (fun _ => rfl) hsame.2
        · rw [inorderTraversal, herase]
          exact (SortedEntries.erase_right hasc hpassed).symm

theorem removes (node : FLLRBNode κ β) : Removes comparator aKey node := by
  induction hcount : node.count using Nat.strongRecOn generalizing node with
  | ind bound ih =>
      have hsmaller : ∀ smaller : FLLRBNode κ β,
          smaller.count < node.count → Removes comparator aKey smaller :=
        fun smaller hless => ih _ (hcount ▸ hless) smaller rfl
      cases node with
      | emptyNode =>
          intro depth hasc hbalanced
          rw [remove]
          exact ⟨Same.kept ⟨hbalanced, rfl⟩ |>.settled, rfl⟩
      | valueNode key value color left right =>
          by_cases hkey : comparator aKey key = .lt
          · exact removes_left hkey hsmaller
          · exact removes_right hkey hsmaller

end Remove

end FLLRBNode

end FirebaseDatabase
