import Mathlib.Data.List.Induction
import Mathlib.Tactic

/-!
# Event machines

A screen, a controller or a protocol party is a state together with a partial
step: an event either cannot occur in a state, or it leads to exactly one next
state.  All nondeterminism (arrival orders, outcomes, user input) sits in the
list of events of a run, so a statement about every run is a statement about
every list of events.

The rules below are the only inductions over runs of the development: the
invariant and history rules, the rules which compare what a run should obey
with the guard its steps meet, and the simulation of one machine by another.
-/

universe u v w x

/-- `step state event` is `none` when the event cannot occur in the state. -/
structure EventMachine (State : Type u) (Event : Type v) where
  step : State → Event → Option State

namespace EventMachine

variable {State : Type u} {Event : Type v}
  {machine : EventMachine State Event}

def run (machine : EventMachine State Event) :
    State → List Event → Option State
  | state, [] => some state
  | state, event :: events =>
      (machine.step state event).bind fun next => machine.run next events

def AllStates
    (machine : EventMachine State Event) (property : State → Prop) :
    State → List Event → Prop
  | state, [] => property state
  | state, event :: events =>
      property state ∧
        ∀ next, machine.step state event = some next →
          machine.AllStates property next events

def AllSteps
    (machine : EventMachine State Event)
    (law : State → Event → State → Prop) :
    State → List Event → Prop
  | _, [] => True
  | state, event :: events =>
      ∀ next, machine.step state event = some next →
        law state event next ∧ machine.AllSteps law next events

@[simp] theorem run_nil (state : State) :
    machine.run state [] = some state := rfl

@[simp] theorem run_cons (state : State) (event : Event)
    (events : List Event) :
    machine.run state (event :: events) =
      (machine.step state event).bind
        fun next => machine.run next events := rfl

theorem run_singleton (state : State) (event : Event) :
    machine.run state [event] = machine.step state event := by
  rw [run_cons]
  exact Option.bind_fun_some (machine.step state event)

theorem run_append (state : State) (before after : List Event) :
    machine.run state (before ++ after) =
      (machine.run state before).bind
        fun middle => machine.run middle after := by
  induction before generalizing state with
  | nil => rfl
  | cons event events ih =>
      simp only [List.cons_append, run_cons]
      cases machine.step state event with
      | none => rfl
      | some next => exact ih next

theorem run_trans {state middle final : State} {before after : List Event}
    (hbefore : machine.run state before = some middle)
    (hafter : machine.run middle after = some final) :
    machine.run state (before ++ after) = some final := by
  rw [run_append, hbefore]
  exact hafter

theorem run_concat_eq_some {state final : State} {events : List Event}
    {event : Event} :
    machine.run state (events ++ [event]) = some final ↔
      ∃ middle, machine.run state events = some middle ∧
        machine.step middle event = some final := by
  simp [run_append, Option.bind_eq_some_iff]

/-! ## Invariants and histories -/

theorem invariant_run_on {invariant : State → Prop} {domain : Event → Prop}
    (hstep : ∀ {state event next},
      invariant state → domain event →
        machine.step state event = some next → invariant next)
    {state final : State} {events : List Event}
    (hstate : invariant state)
    (hdomain : ∀ event ∈ events, domain event)
    (hrun : machine.run state events = some final) :
    invariant final := by
  induction events generalizing state with
  | nil =>
      simp only [run_nil, Option.some.injEq] at hrun
      exact hrun ▸ hstate
  | cons event events ih =>
      rcases Option.bind_eq_some_iff.mp hrun with ⟨next, hnext, hrest⟩
      have hevent : domain event := hdomain event List.mem_cons_self
      apply ih (hstep hstate hevent hnext) _ hrest
      intro other hother
      exact hdomain other (List.mem_cons_of_mem event hother)

theorem invariant_run {invariant : State → Prop}
    (hstep : ∀ {state event next},
      invariant state → machine.step state event = some next →
        invariant next)
    {state final : State} {events : List Event}
    (hstate : invariant state)
    (hrun : machine.run state events = some final) :
    invariant final :=
  @invariant_run_on _ _ machine invariant (fun _ => True)
    (fun hstate _ hnext => hstep hstate hnext) _ _ _ hstate
    (fun _ _ => trivial) hrun

theorem history_run {history : List Event → State → Prop}
    (hstep : ∀ {events state event next},
      history events state → machine.step state event = some next →
        history (events ++ [event]) next)
    {initial final : State} {events : List Event}
    (hinitial : history [] initial)
    (hrun : machine.run initial events = some final) :
    history events final := by
  induction events using List.reverseRecOn generalizing final with
  | nil =>
      simp only [run_nil, Option.some.injEq] at hrun
      exact hrun ▸ hinitial
  | append_singleton events event ih =>
      rcases run_concat_eq_some.mp hrun with ⟨middle, hmiddle, hlast⟩
      exact hstep (ih hmiddle) hlast

/-! ## Laws and guards

The invariant of these rules is the one that holds while every step has met
the guard; it may be stronger than the property, which only has to follow
from it. -/

theorem AllStates.head {property : State → Prop} {state : State}
    {events : List Event}
    (hall : machine.AllStates property state events) :
    property state := by
  cases events with
  | nil => exact hall
  | cons event events => exact hall.1

theorem AllStates.of_run {property : State → Prop}
    {state final : State} {events : List Event}
    (hall : machine.AllStates property state events)
    (hrun : machine.run state events = some final) :
    property final := by
  induction events generalizing state with
  | nil =>
      simp only [run_nil, Option.some.injEq] at hrun
      exact hrun ▸ hall
  | cons event events ih =>
      rcases Option.bind_eq_some_iff.mp hrun with ⟨next, hnext, hrest⟩
      exact ih (hall.2 next hnext) hrest

theorem allSteps_append {law : State → Event → State → Prop}
    {state : State} {before after : List Event} :
    machine.AllSteps law state (before ++ after) ↔
      machine.AllSteps law state before ∧
        ∀ middle, machine.run state before = some middle →
          machine.AllSteps law middle after := by
  induction before generalizing state with
  | nil => simp [AllSteps]
  | cons event before ih =>
      constructor
      · intro hall
        refine ⟨fun next hnext => ?_, fun middle hrun => ?_⟩
        · rcases hall next hnext with ⟨hfirst, hrest⟩
          exact ⟨hfirst, (ih.mp hrest).1⟩
        · rcases Option.bind_eq_some_iff.mp hrun with ⟨next, hnext, hrest⟩
          exact (ih.mp (hall next hnext).2).2 middle hrest
      · rintro ⟨hbefore, hafter⟩ next hnext
        rcases hbefore next hnext with ⟨hfirst, hrest⟩
        refine ⟨hfirst, ih.mpr ⟨hrest, fun middle hrun => ?_⟩⟩
        apply hafter middle
        rw [run_cons, hnext]
        exact hrun

theorem allSteps_concat {law : State → Event → State → Prop}
    {state : State} {events : List Event} {event : Event} :
    machine.AllSteps law state (events ++ [event]) ↔
      machine.AllSteps law state events ∧
        ∀ middle next, machine.run state events = some middle →
          machine.step middle event = some next →
            law middle event next := by
  rw [allSteps_append]
  refine and_congr_right fun _ => forall_congr' fun middle => ?_
  simp only [AllSteps, and_true]
  constructor
  · intro hlaw next hrun
    exact hlaw hrun next
  · intro hlaw hrun next
    exact hlaw next hrun

theorem AllSteps.and {law other : State → Event → State → Prop}
    {state : State} {events : List Event}
    (hlaw : machine.AllSteps law state events)
    (hother : machine.AllSteps other state events) :
    machine.AllSteps
      (fun state event next => law state event next ∧ other state event next)
      state events := by
  induction events generalizing state with
  | nil => trivial
  | cons event events ih =>
      intro next hnext
      rcases hlaw next hnext with ⟨hfirst, hrest⟩
      rcases hother next hnext with ⟨hsecond, hothers⟩
      exact ⟨⟨hfirst, hsecond⟩, ih hrest hothers⟩

theorem AllSteps.last {law : State → Event → State → Prop}
    {state middle final : State} (events : List Event) {event : Event}
    (hall : machine.AllSteps law state (events ++ [event]))
    (hrun : machine.run state events = some middle)
    (hstep : machine.step middle event = some final) :
    law middle event final :=
  (allSteps_concat.mp hall).2 middle final hrun hstep

theorem allSteps_of_forall {law : State → Event → State → Prop}
    (hlaw : ∀ {state event next},
      machine.step state event = some next → law state event next)
    (state : State) (events : List Event) :
    machine.AllSteps law state events := by
  induction events generalizing state with
  | nil => trivial
  | cons event events ih => exact fun next hnext => ⟨hlaw hnext, ih next⟩

theorem allSteps_congr {law other : State → Event → State → Prop}
    (hiff : ∀ {state event next},
      machine.step state event = some next →
        (law state event next ↔ other state event next))
    (state : State) (events : List Event) :
    machine.AllSteps law state events ↔
      machine.AllSteps other state events := by
  induction events generalizing state with
  | nil => rfl
  | cons event events ih =>
      refine forall_congr' fun next => imp_congr_right fun hnext => ?_
      exact and_congr (hiff hnext) (ih next)

/-- The law holds of every step exactly when the guard does, provided they
agree wherever the invariant holds; the guard may be needed to keep it. -/
theorem allSteps_iff_guard {invariant : State → Prop}
    {law guard : State → Event → State → Prop}
    (hkeep : ∀ {state event next},
      invariant state → machine.step state event = some next →
        guard state event next → invariant next)
    (hiff : ∀ {state event next},
      invariant state → machine.step state event = some next →
        (law state event next ↔ guard state event next))
    {state : State} (hstate : invariant state) (events : List Event) :
    machine.AllSteps law state events ↔
      machine.AllSteps guard state events := by
  induction events generalizing state with
  | nil => rfl
  | cons event events ih =>
      refine forall_congr' fun next => imp_congr_right fun hnext => ?_
      rw [hiff hstate hnext]
      refine and_congr_right fun hguard => ?_
      exact ih (hkeep hstate hnext hguard)

theorem allStates_of_guard {invariant property : State → Prop}
    {guard : State → Event → State → Prop}
    (hproperty : ∀ {state}, invariant state → property state)
    (hkeep : ∀ {state event next},
      invariant state → machine.step state event = some next →
        guard state event next → invariant next)
    {state : State} (hstate : invariant state) (events : List Event)
    (hguard : machine.AllSteps guard state events) :
    machine.AllStates property state events := by
  induction events generalizing state with
  | nil => exact hproperty hstate
  | cons event events ih =>
      refine ⟨hproperty hstate, fun next hnext => ?_⟩
      rcases hguard next hnext with ⟨hfirst, hrest⟩
      exact ih (hkeep hstate hnext hfirst) hrest

theorem allStates_iff_guard {invariant property : State → Prop}
    {guard : State → Event → State → Prop}
    (hproperty : ∀ {state}, invariant state → property state)
    (hkeep : ∀ {state event next},
      invariant state → machine.step state event = some next →
        guard state event next → invariant next)
    (hbreak : ∀ {state event next},
      invariant state → machine.step state event = some next →
        property next → guard state event next)
    {state : State} (hstate : invariant state) (events : List Event) :
    machine.AllStates property state events ↔
      machine.AllSteps guard state events := by
  refine ⟨fun hall => ?_, allStates_of_guard hproperty hkeep hstate events⟩
  induction events generalizing state with
  | nil => trivial
  | cons event events ih =>
      intro next hnext
      have hrest := hall.2 next hnext
      have hfirst := hbreak hstate hnext hrest.head
      exact ⟨hfirst, ih (hkeep hstate hnext hfirst) hrest⟩

/-! ## Guards on histories -/

def AllEvents (guard : List Event → Event → Prop) (events : List Event) :
    Prop :=
  ∀ before event after, events = before ++ event :: after →
    guard before event

theorem allEvents_concat {guard : List Event → Event → Prop}
    {events : List Event} {event : Event} :
    AllEvents guard (events ++ [event]) ↔
      AllEvents guard events ∧ guard events event := by
  constructor
  · intro hall
    refine ⟨fun before first after hsplit => ?_, hall events event [] rfl⟩
    apply hall before first (after ++ [event])
    rw [hsplit, List.append_assoc, List.cons_append]
  · rintro ⟨hall, hlast⟩ before first after hsplit
    rcases List.eq_nil_or_concat after with hnil | ⟨rest, last, hrest⟩
    · subst hnil
      rcases List.append_inj' hsplit rfl with ⟨hbefore, hevent⟩
      cases hevent
      exact hbefore ▸ hlast
    · subst hrest
      have hsplit : events ++ [event] = (before ++ first :: rest) ++ [last] := by
        simpa using hsplit
      exact hall before first rest (List.append_inj' hsplit rfl).1

/-- The law holds of every step of a run exactly when the guard holds of
every event of it, provided they agree wherever the history holds.  The
events of the run are in the domain. -/
theorem allSteps_iff_history {history : List Event → State → Prop}
    {law : State → Event → State → Prop}
    {guard : List Event → Event → Prop} {domain : Event → Prop}
    (hkeep : ∀ {events state event next},
      history events state → domain event →
        machine.step state event = some next →
          history (events ++ [event]) next)
    (hiff : ∀ {events state event next},
      history events state → domain event →
        machine.step state event = some next →
          (law state event next ↔ guard events event))
    {initial final : State} (hinitial : history [] initial)
    {events : List Event} (hdomain : ∀ event ∈ events, domain event)
    (hrun : machine.run initial events = some final) :
    machine.AllSteps law initial events ↔ AllEvents guard events := by
  suffices hboth : history events final ∧
      (machine.AllSteps law initial events ↔ AllEvents guard events) from
    hboth.2
  induction events using List.reverseRecOn generalizing final with
  | nil =>
      simp only [run_nil, Option.some.injEq] at hrun
      exact ⟨hrun ▸ hinitial, by simp [AllSteps, AllEvents]⟩
  | append_singleton events event ih =>
      rcases run_concat_eq_some.mp hrun with ⟨middle, hmiddle, hlast⟩
      obtain ⟨hhistory, hall⟩ :=
        ih (fun first hfirst => hdomain first (by simp [hfirst])) hmiddle
      have hevent : domain event := hdomain event (by simp)
      refine ⟨hkeep hhistory hevent hlast, ?_⟩
      rw [allSteps_concat, allEvents_concat, hall]
      refine and_congr_right fun _ => ?_
      rw [← hiff hhistory hevent hlast]
      constructor
      · intro hlaw
        exact hlaw middle final hmiddle hlast
      · intro hlaw other next hother hnext
        rw [hmiddle, Option.some.injEq] at hother
        subst hother
        rw [hlast, Option.some.injEq] at hnext
        exact hnext ▸ hlaw

/-! ## Simulations -/

/-- Every step of the machine is explained by the abstract events of its
label, of which there may be none. -/
structure Simulation {Abstract : Type w} {Label : Type x}
    (machine : EventMachine State Event)
    (spec : EventMachine Abstract Label) where
  related : State → Abstract → Prop
  label : Event → List Label
  simulates : ∀ {state abstract event next},
    related state abstract → machine.step state event = some next →
      ∃ later, spec.run abstract (label event) = some later ∧
        related next later

theorem Simulation.run {Abstract : Type w} {Label : Type x}
    {spec : EventMachine Abstract Label}
    (simulation : Simulation machine spec)
    {state final : State} {abstract : Abstract} {events : List Event}
    (hrelated : simulation.related state abstract)
    (hrun : machine.run state events = some final) :
    ∃ later, spec.run abstract (events.flatMap simulation.label) =
        some later ∧
      simulation.related final later := by
  induction events generalizing state abstract with
  | nil =>
      simp only [run_nil, Option.some.injEq] at hrun
      exact ⟨abstract, rfl, hrun ▸ hrelated⟩
  | cons event events ih =>
      rcases Option.bind_eq_some_iff.mp hrun with ⟨next, hnext, hrest⟩
      obtain ⟨middle, hmiddle, hstill⟩ :=
        simulation.simulates hrelated hnext
      rcases ih hstill hrest with ⟨later, hlater, hfinal⟩
      refine ⟨later, ?_, hfinal⟩
      rw [List.flatMap_cons, run_append, hmiddle]
      exact hlater

end EventMachine
