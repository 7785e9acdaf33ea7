import Mathlib.Tactic

/-!
# Maximal runs

A text is cut into the items without a property and the maximal runs of items
with it.  A law about all maximal runs of a text is read off item by item and
run by run, and an induction over texts may take a whole run at once.
-/

universe u

variable {α : Type u}

structure MaximalRun (property : α → Prop)
    (text before run after : List α) : Prop where
  text_eq : text = before ++ (run ++ after)
  nonempty : run ≠ []
  within : ∀ item ∈ run, property item
  left : ∀ item ∈ before.getLast?, ¬ property item
  right : ∀ item ∈ after.head?, ¬ property item

namespace MaximalRun

variable {property : α → Prop} {item : α}
  {text before run after : List α}

theorem leading (hne : run ≠ []) (hwithin : ∀ item ∈ run, property item)
    (hright : ∀ item ∈ after.head?, ¬ property item) :
    MaximalRun property (run ++ after) [] run after where
  text_eq := rfl
  nonempty := hne
  within := hwithin
  left := by simp
  right := hright

/-! ## One item in front -/

theorem cons (hitem : ¬ property item)
    (hrun : MaximalRun property text before run after) :
    MaximalRun property (item :: text) (item :: before) run after where
  text_eq := by rw [hrun.text_eq, List.cons_append]
  nonempty := hrun.nonempty
  within := hrun.within
  left := by
    intro last hlast
    cases hbefore : before.getLast? with
    | none =>
        have heq : item = last := by
          simpa [List.getLast?_cons, hbefore] using hlast
        exact heq ▸ hitem
    | some other =>
        have heq : other = last := by
          simpa [List.getLast?_cons, hbefore] using hlast
        exact heq ▸ hrun.left other hbefore
  right := hrun.right

theorem of_cons (hitem : ¬ property item)
    (hrun : MaximalRun property (item :: text) before run after) :
    ∃ rest, MaximalRun property text rest run after := by
  have htext := hrun.text_eq
  cases before with
  | nil =>
      rcases List.exists_cons_of_ne_nil hrun.nonempty with ⟨first, run, rfl⟩
      have heq : item = first := (List.cons.inj htext).1
      have hfirst : property first := hrun.within first List.mem_cons_self
      exact absurd (heq ▸ hfirst) hitem
  | cons first rest =>
      rcases List.cons.inj htext with ⟨rfl, htail⟩
      refine ⟨rest, htail, hrun.nonempty, hrun.within, ?_, hrun.right⟩
      intro last hlast
      apply hrun.left last
      have hsome : rest.getLast? = some last := hlast
      simp [List.getLast?_cons, hsome]

/-! ## One run in front -/

theorem leading_unique {first second firstAfter secondAfter : List α}
    (hfirst : ∀ item ∈ first, property item)
    (hsecond : ∀ item ∈ second, property item)
    (hfirstAfter : ∀ item ∈ firstAfter.head?, ¬ property item)
    (hsecondAfter : ∀ item ∈ secondAfter.head?, ¬ property item)
    (heq : first ++ firstAfter = second ++ secondAfter) :
    first = second ∧ firstAfter = secondAfter := by
  induction first generalizing second with
  | nil =>
      cases second with
      | nil => exact ⟨rfl, heq⟩
      | cons item second =>
          have hhead : item ∈ firstAfter.head? := by
            rw [List.nil_append] at heq
            rw [heq]
            rfl
          exact absurd (hsecond item List.mem_cons_self)
            (hfirstAfter item hhead)
  | cons item first ih =>
      cases second with
      | nil =>
          have hhead : item ∈ secondAfter.head? := by
            rw [List.nil_append] at heq
            rw [← heq]
            rfl
          exact absurd (hfirst item List.mem_cons_self)
            (hsecondAfter item hhead)
      | cons other second =>
          rcases List.cons.inj heq with ⟨rfl, hrest⟩
          rcases ih (List.forall_mem_cons.mp hfirst).2
            (List.forall_mem_cons.mp hsecond).2 hrest with ⟨rfl, hafter⟩
          exact ⟨rfl, hafter⟩

theorem append {front : List α}
    (hfront : ∀ item ∈ text.head?, ¬ property item)
    (hrun : MaximalRun property text before run after) :
    MaximalRun property (front ++ text) (front ++ before) run after where
  text_eq := by rw [hrun.text_eq, List.append_assoc]
  nonempty := hrun.nonempty
  within := hrun.within
  left := by
    intro last hlast
    rcases List.eq_nil_or_concat before with rfl | ⟨init, other, rfl⟩
    · rcases List.exists_cons_of_ne_nil hrun.nonempty with
        ⟨first, rest, rfl⟩
      have hhead : first ∈ text.head? := by
        rw [hrun.text_eq]
        rfl
      exact absurd (hrun.within first List.mem_cons_self)
        (hfront first hhead)
    · apply hrun.left last
      simpa using hlast
  right := hrun.right

theorem of_append {front : List α}
    (hwithin : ∀ item ∈ front, property item)
    (hfront : ∀ item ∈ text.head?, ¬ property item)
    (hrun : MaximalRun property (front ++ text) before run after) :
    (run = front ∧ after = text) ∨
      ∃ rest, MaximalRun property text rest run after := by
  rcases List.append_eq_append_iff.mp hrun.text_eq with
    ⟨rest, hbefore, htext⟩ | ⟨rest, hrest, htext⟩
  · right
    refine ⟨rest, htext, hrun.nonempty, hrun.within, ?_, hrun.right⟩
    intro last hlast
    apply hrun.left last
    have hsome : rest.getLast? = some last := hlast
    simp [hbefore, hsome]
  · left
    have hnil : before = [] := by
      rcases List.eq_nil_or_concat before with hnil | ⟨init, last, rfl⟩
      · exact hnil
      · have hlast : property last := by
          apply hwithin
          simp [hrest]
        exact absurd hlast (hrun.left last (by simp))
    rw [hnil, List.nil_append] at hrest
    subst hrest
    exact leading_unique hrun.within hwithin hrun.right hfront htext

/-! ## Laws about every run -/

theorem forall_cons {law : List α → List α → Prop}
    (hitem : ¬ property item) :
    (∀ before run after,
        MaximalRun property (item :: text) before run after →
          law run after) ↔
      ∀ before run after, MaximalRun property text before run after →
        law run after := by
  constructor
  · intro hall before run after hrun
    exact hall (item :: before) run after (hrun.cons hitem)
  · intro hall before run after hrun
    rcases hrun.of_cons hitem with ⟨rest, hrest⟩
    exact hall rest run after hrest

theorem forall_append {law : List α → List α → Prop} {front : List α}
    (hne : front ≠ []) (hwithin : ∀ item ∈ front, property item)
    (hfront : ∀ item ∈ text.head?, ¬ property item) :
    (∀ before run after,
        MaximalRun property (front ++ text) before run after →
          law run after) ↔
      law front text ∧
        ∀ before run after, MaximalRun property text before run after →
          law run after := by
  constructor
  · intro hall
    refine ⟨hall [] front text (leading hne hwithin hfront), ?_⟩
    intro before run after hrun
    exact hall (front ++ before) run after (hrun.append hfront)
  · rintro ⟨hlaw, hall⟩ before run after hrun
    rcases hrun.of_append hwithin hfront with ⟨rfl, rfl⟩ | ⟨rest, hrest⟩
    · exact hlaw
    · exact hall rest run after hrest

theorem not_nil : ¬ MaximalRun property [] before run after := by
  intro hrun
  have htext := hrun.text_eq.symm
  have hempty := (List.append_eq_nil_iff.mp htext).2
  exact hrun.nonempty (List.append_eq_nil_iff.mp hempty).1

/-! ## Induction by runs -/

theorem exists_leading (hitem : property item) (text : List α) :
    ∃ run after, item :: text = run ++ after ∧ run ≠ [] ∧
      (∀ other ∈ run, property other) ∧
      ∀ other ∈ after.head?, ¬ property other := by
  induction text generalizing item with
  | nil => exact ⟨[item], [], rfl, by simp, by simpa using hitem, by simp⟩
  | cons next text ih =>
      by_cases hnext : property next
      · rcases ih hnext with ⟨run, after, heq, -, hwithin, hright⟩
        refine ⟨item :: run, after, by rw [heq, List.cons_append],
          List.cons_ne_nil item run, ?_, hright⟩
        exact List.forall_mem_cons.mpr ⟨hitem, hwithin⟩
      · exact ⟨[item], next :: text, rfl, by simp, by simpa using hitem,
          by simpa using hnext⟩

theorem induction_on {motive : List α → Prop} (property : α → Prop)
    (hnil : motive [])
    (hcons : ∀ item text, ¬ property item → motive text →
      motive (item :: text))
    (hrun : ∀ run after, run ≠ [] → (∀ item ∈ run, property item) →
      (∀ item ∈ after.head?, ¬ property item) → motive after →
        motive (run ++ after))
    (text : List α) : motive text := by
  induction hlength : text.length using Nat.strong_induction_on
    generalizing text with
  | _ length ih =>
      cases text with
      | nil => exact hnil
      | cons item text =>
          subst hlength
          by_cases hitem : property item
          · rcases exists_leading hitem text with
              ⟨run, after, heq, hne, hwithin, hright⟩
            have hshorter : after.length < (item :: text).length := by
              have hpos : 0 < run.length := List.length_pos_iff.mpr hne
              rw [heq, List.length_append]
              omega
            rw [heq]
            exact hrun run after hne hwithin hright
              (ih after.length hshorter after rfl)
          · have hshorter : text.length < (item :: text).length := by simp
            exact hcons item text hitem (ih text.length hshorter text rfl)

end MaximalRun
