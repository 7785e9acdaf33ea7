import Mathlib.Data.List.Perm.Basic
import Mathlib.Tactic

/-!
# Fan-out rounds and dispatch groups

A round starts one request for each element of a list and collects what the
replies contribute, in whatever order they arrive.  A reply slot is `none`
while its request is in flight.  What a round has gathered is a function of
its slots alone, up to order, so arrival orders never have to be compared
with each other.

A dispatch group only counts: every request enters it, and its notification
block may run once the leaves have caught up with the enters.
-/

universe u v

namespace FanOut

variable {ρ : Type u} {β : Type v} (contribution : ℕ → ρ → Option β)

def start (count : ℕ) : List (Option ρ) := List.replicate count none

def Settled (slots : List (Option ρ)) : Prop := none ∉ slots

instance (slots : List (Option ρ)) [DecidableEq ρ] :
    Decidable (Settled slots) :=
  inferInstanceAs (Decidable (none ∉ slots))

/-- What the replies of the slots contribute, the first slot having the
number `first`. -/
def gatherFrom (first : ℕ) : List (Option ρ) → List β
  | [] => []
  | none :: slots => gatherFrom (first + 1) slots
  | some reply :: slots =>
      (contribution first reply).toList ++ gatherFrom (first + 1) slots

def gather (slots : List (Option ρ)) : List β :=
  gatherFrom contribution 0 slots

theorem gatherFrom_start (first count : ℕ) :
    gatherFrom contribution first (start count) = [] := by
  induction count generalizing first with
  | zero => rfl
  | succ count ih =>
      simp only [start, List.replicate_succ, gatherFrom]
      exact ih (first + 1)

@[simp] theorem gather_start (count : ℕ) :
    gather contribution (start count) = [] :=
  gatherFrom_start contribution 0 count

variable {contribution}

theorem gatherFrom_set_perm {first slot : ℕ} {slots : List (Option ρ)}
    {reply : ρ} {value : β}
    (hflight : slots[slot]? = some none)
    (hvalue : contribution (first + slot) reply = some value) :
    (gatherFrom contribution first (slots.set slot (some reply))).Perm
      (gatherFrom contribution first slots ++ [value]) := by
  induction slots generalizing first slot with
  | nil => simp at hflight
  | cons head slots ih =>
      cases slot with
      | zero =>
          have hhead : head = none := by simpa using hflight
          have hvalue : contribution first reply = some value := hvalue
          subst head
          simp only [List.set_cons_zero, gatherFrom, hvalue,
            Option.toList_some, List.singleton_append]
          exact (List.perm_append_singleton _ _).symm
      | succ slot =>
          have htail : slots[slot]? = some none := by simpa using hflight
          have hvalue : contribution (first + 1 + slot) reply = some value := by
            rw [← hvalue]
            congr 1
            omega
          cases head with
          | none => exact ih htail hvalue
          | some other =>
              simp only [List.set_cons_succ, gatherFrom, List.append_assoc]
              exact (ih htail hvalue).append_left _

theorem gather_set_perm {slot : ℕ} {slots : List (Option ρ)} {reply : ρ}
    {value : β} (hflight : slots[slot]? = some none)
    (hvalue : contribution slot reply = some value) :
    (gather contribution (slots.set slot (some reply))).Perm
      (gather contribution slots ++ [value]) :=
  gatherFrom_set_perm hflight (by simpa using hvalue)

theorem gatherFrom_set_none {first slot : ℕ} {slots : List (Option ρ)}
    {reply : ρ} (hflight : slots[slot]? = some none)
    (hvalue : contribution (first + slot) reply = none) :
    gatherFrom contribution first (slots.set slot (some reply)) =
      gatherFrom contribution first slots := by
  induction slots generalizing first slot with
  | nil => simp at hflight
  | cons head slots ih =>
      cases slot with
      | zero =>
          have hhead : head = none := by simpa using hflight
          have hvalue : contribution first reply = none := hvalue
          subst head
          simp [gatherFrom, hvalue]
      | succ slot =>
          have htail : slots[slot]? = some none := by simpa using hflight
          have hvalue : contribution (first + 1 + slot) reply = none := by
            rw [← hvalue]
            congr 1
            omega
          cases head <;> simp [gatherFrom, ih htail hvalue]

theorem gather_set_none {slot : ℕ} {slots : List (Option ρ)} {reply : ρ}
    (hflight : slots[slot]? = some none)
    (hvalue : contribution slot reply = none) :
    gather contribution (slots.set slot (some reply)) =
      gather contribution slots :=
  gatherFrom_set_none hflight (by simpa using hvalue)

theorem length_gatherFrom_le (first : ℕ) (slots : List (Option ρ)) :
    (gatherFrom contribution first slots).length ≤ slots.length := by
  induction slots generalizing first with
  | nil => simp [gatherFrom]
  | cons head slots ih =>
      have hrest := ih (first + 1)
      cases head with
      | none =>
          simp only [gatherFrom, List.length_cons]
          omega
      | some reply =>
          cases hvalue : contribution first reply <;>
            simp only [gatherFrom, hvalue, Option.toList, List.length_append,
              List.length_nil, List.length_cons] <;> omega

theorem length_gatherFrom_eq_iff (first : ℕ) (slots : List (Option ρ)) :
    (gatherFrom contribution first slots).length = slots.length ↔
      ∀ slot, slot < slots.length →
        ∃ reply, slots[slot]? = some (some reply) ∧
          (contribution (first + slot) reply).isSome := by
  induction slots generalizing first with
  | nil => simp [gatherFrom]
  | cons head slots ih =>
      have hle :
          (gatherFrom contribution (first + 1) slots).length ≤
            slots.length :=
        length_gatherFrom_le (first + 1) slots
      have hshift : ∀ slot, first + 1 + slot = first + (slot + 1) := by
        intro slot
        omega
      have hsplit :
          (∀ slot, slot < (head :: slots).length →
            ∃ reply, (head :: slots)[slot]? = some (some reply) ∧
              (contribution (first + slot) reply).isSome) ↔
          (∃ reply, head = some reply ∧
            (contribution first reply).isSome) ∧
          (gatherFrom contribution (first + 1) slots).length =
            slots.length := by
        rw [ih (first + 1)]
        constructor
        · intro hall
          refine ⟨?_, fun slot hslot => ?_⟩
          · simpa using hall 0 (by simp)
          · rw [hshift slot]
            simpa using hall (slot + 1) (by simpa using hslot)
        · rintro ⟨hhead, htail⟩ slot hslot
          cases slot with
          | zero => simpa using hhead
          | succ slot =>
              rw [← hshift slot]
              simpa using htail slot (by simpa using hslot)
      rw [hsplit]
      cases head with
      | none =>
          simp only [gatherFrom, List.length_cons, reduceCtorEq, false_and,
            exists_false, iff_false]
          omega
      | some reply =>
          cases hvalue : contribution first reply with
          | none =>
              simp [gatherFrom, hvalue]
              omega
          | some value => simp [gatherFrom, hvalue]

theorem length_gather_eq_iff (slots : List (Option ρ)) :
    (gather contribution slots).length = slots.length ↔
      ∀ slot, slot < slots.length →
        ∃ reply, slots[slot]? = some (some reply) ∧
          (contribution slot reply).isSome := by
  have hfrom := @length_gatherFrom_eq_iff ρ β contribution 0 slots
  simpa [gather] using hfrom

end FanOut

/-- The counters of one dispatch group and how often its notification block
has run. -/
structure DispatchGroup where
  enters : ℕ
  leaves : ℕ
  notified : ℕ
deriving DecidableEq, Repr

namespace DispatchGroup

def new : DispatchGroup := { enters := 0, leaves := 0, notified := 0 }

def enter (group : DispatchGroup) : DispatchGroup :=
  { group with enters := group.enters + 1 }

def leave (group : DispatchGroup) : DispatchGroup :=
  { group with leaves := group.leaves + 1 }

def notify (group : DispatchGroup) : DispatchGroup :=
  { group with notified := group.notified + 1 }

def Balanced (group : DispatchGroup) : Prop := group.leaves = group.enters

def Ready (group : DispatchGroup) : Prop :=
  group.Balanced ∧ group.notified = 0

instance (group : DispatchGroup) : Decidable group.Balanced :=
  inferInstanceAs (Decidable (group.leaves = group.enters))

instance (group : DispatchGroup) : Decidable group.Ready :=
  inferInstanceAs (Decidable (group.Balanced ∧ group.notified = 0))

theorem foldl_enter {α : Type u} (elements : List α) (group : DispatchGroup) :
    elements.foldl (fun group _ => group.enter) group =
      { group with enters := group.enters + elements.length } := by
  induction elements generalizing group with
  | nil => rfl
  | cons element elements ih =>
      rw [List.foldl_cons, ih]
      simp only [enter, List.length_cons, mk.injEq, and_true]
      omega

end DispatchGroup
