import Mathlib.Tactic

/-!
# The last write to a register

Some of the events of a list write a value and the others leave what is there.
After the list a register holds the value of the last event that wrote, or
what it held at first when none did.
-/

universe u v w x

variable {Event : Type u} {Value : Type v}

def lastWrite (write : Event → Option Value) (events : List Event) :
    Option Value :=
  (events.filterMap write).getLast?

theorem lastWrite_cons (write : Event → Option Value) (event : Event)
    (events : List Event) :
    lastWrite write (event :: events) =
      (lastWrite write events).or (write event) := by
  unfold lastWrite
  cases hwrite : write event with
  | none => simp [hwrite]
  | some value =>
      rw [List.filterMap_cons_some hwrite, List.getLast?_cons]
      cases (events.filterMap write).getLast? <;> rfl

theorem lastWrite_concat (write : Event → Option Value)
    (events : List Event) (event : Event) :
    lastWrite write (events ++ [event]) =
      (write event).or (lastWrite write events) := by
  unfold lastWrite
  rw [List.filterMap_append, List.getLast?_append]
  cases hwrite : write event <;> simp [hwrite]

theorem lastWrite_append (write : Event → Option Value)
    (first second : List Event) :
    lastWrite write (first ++ second) =
      (lastWrite write second).or (lastWrite write first) := by
  unfold lastWrite
  rw [List.filterMap_append, List.getLast?_append]

theorem lastWrite_eq_none_iff {write : Event → Option Value}
    {events : List Event} :
    lastWrite write events = none ↔ ∀ event ∈ events, write event = none := by
  unfold lastWrite
  rw [List.getLast?_eq_none_iff, List.filterMap_eq_nil_iff]

theorem lastWrite_isSome {write : Event → Option Value}
    {events : List Event} {event : Event} (hevent : event ∈ events)
    (hwrite : (write event).isSome) : (lastWrite write events).isSome := by
  rw [Option.isSome_iff_ne_none] at hwrite ⊢
  intro hnone
  exact hwrite (lastWrite_eq_none_iff.mp hnone event hevent)

/-- A register which every event either overwrites, with something made of
the value it writes, or leaves alone. -/
theorem foldl_eq_lastWrite {State : Type w} {Content : Type x}
    {read : State → Content} {content : Value → Content}
    {step : State → Event → State} {write : Event → Option Value}
    (hread : ∀ state event,
      read (step state event) =
        ((write event).map content).getD (read state))
    (state : State) (events : List Event) :
    read (events.foldl step state) =
      ((lastWrite write events).map content).getD (read state) := by
  induction events using List.reverseRecOn with
  | nil => rfl
  | append_singleton events event ih =>
      rw [List.foldl_append, List.foldl_cons, List.foldl_nil, hread, ih,
        lastWrite_concat]
      cases write event <;> rfl
