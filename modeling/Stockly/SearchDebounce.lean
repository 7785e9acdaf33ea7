import Stockly.Debounce
import Stockly.SearchViewController

/-!
# The delayed search

The delayed call does not carry the text it is made for: it reads
`enteredText` when it fires.  Beside the screen stand the time and the
deadlines of the calls that `perform(afterDelay:)` still has to make, and the
screen with them refines a debouncer that keeps each text with its deadline.
-/

namespace Stockly

structure SearchDebounce where
  now : ℚ
  deadlines : List ℚ
  screen : SearchViewController

namespace SearchDebounce

abbrev Edit := Debounce.Edit ℚ String

/-- `afterDelay: 0.5`. -/
def delay : ℚ := 1 / 2

inductive Event where
  | textDidChange (edit : Edit)
  | makeSearchRequest
  | other (event : SearchViewController.Event)

/-- An edit and a delayed call come with their times. -/
def Timed : SearchViewController.Event → Bool
  | .textDidChange _ => true
  | .makeSearchRequest => true
  | _ => false

/-- `cancelPreviousPerformRequests`, and then `perform` where there is a
text. -/
def reschedule (edit : Edit) : List ℚ :=
  match edit.value with
  | none => []
  | some _ => [edit.time + delay]

/-- A call is made at its deadline unless it was cancelled before, so no edit
comes later than a deadline which is still there. -/
def machine : EventMachine SearchDebounce Event where
  step state
    | .textDidChange edit =>
        if state.now ≤ edit.time ∧
            ∀ deadline ∈ state.deadlines, edit.time ≤ deadline then
          (SearchViewController.machine.step state.screen
            (.textDidChange edit.value)).map fun screen =>
              { now := edit.time, deadlines := reschedule edit
                screen := screen }
        else none
    | .makeSearchRequest =>
        match state.deadlines with
        | [] => none
        | deadline :: rest =>
            (SearchViewController.machine.step state.screen
              .makeSearchRequest).map fun screen =>
                { now := deadline, deadlines := rest, screen := screen }
    | .other event =>
        if Timed event then none
        else
          (SearchViewController.machine.step state.screen event).map
            fun screen => { state with screen := screen }

def opened (start : ℚ) : SearchDebounce :=
  { now := start, deadlines := [], screen := .launched }

def Event.edited : Event → Option Edit
  | .textDidChange edit => some edit
  | _ => none

def edits (events : List Event) : List Edit :=
  events.filterMap Event.edited

theorem edits_append (before after : List Event) :
    edits (before ++ after) = edits before ++ edits after :=
  List.filterMap_append

/-- The texts that should be searched for: the nonempty ones whose next edit,
if any, comes more than the delay later. -/
def searched (edits : List Edit) : List String :=
  (Debounce.sent delay edits).filter fun text => text ≠ ""

/-! ## What the events change -/

theorem texts_answer (requests : List SearchRequest) (number : ℕ)
    (reply : SearchReply) :
    (requests.modify number (SearchRequest.answer reply)).map
        SearchRequest.text =
      requests.map SearchRequest.text := by
  induction requests generalizing number with
  | nil => simp
  | cons request requests ih =>
      cases number with
      | zero => rfl
      | succ number =>
          rw [List.modify_succ_cons, List.map_cons, List.map_cons, ih]

/-- The part of the screen which the delayed search depends on. -/
structure SameSearch (screen next : SearchViewController) : Prop where
  delayed : next.delayed = screen.delayed
  enteredText : next.enteredText = screen.enteredText
  texts : next.requests.map SearchRequest.text =
    screen.requests.map SearchRequest.text

theorem sameSearch_of_step {screen next : SearchViewController}
    {event : SearchViewController.Event} (htimed : Timed event = false)
    (hstep : SearchViewController.machine.step screen event = some next) :
    SameSearch screen next := by
  cases SearchViewController.effect_of_step hstep with
  | clear | edit | skip | request => contradiction
  | results => exact ⟨rfl, rfl, texts_answer _ _ _⟩
  | failure => exact ⟨rfl, rfl, texts_answer _ _ _⟩
  | beginEditing | search | cancel | alert | reload | row | rowOutOfRange
  | select | selectOutOfRange => exact ⟨rfl, rfl, rfl⟩

/-- What a delayed call does, whether it starts a request or not. -/
structure Fired (screen next : SearchViewController) : Prop where
  delayed : next.delayed = screen.delayed - 1
  texts : next.requests.map SearchRequest.text =
    screen.requests.map SearchRequest.text ++
      [screen.enteredText].filter fun text => text ≠ ""
  outOfRange : next.outOfRange = screen.outOfRange

theorem fired_makeSearchRequest (screen : SearchViewController) :
    Fired screen screen.makeSearchRequest := by
  unfold SearchViewController.makeSearchRequest
  by_cases hempty : screen.enteredText = ""
  · constructor <;> simp [hempty]
  · constructor <;> simp [hempty]

/-! ## The debouncer -/

abbrev debouncer :
    EventMachine (Debounce.State ℚ String) (Debounce.Event ℚ String) :=
  Debounce.machine delay

def label : Event → List (Debounce.Event ℚ String)
  | .textDidChange edit => [.edit edit]
  | .makeSearchRequest => [.deadline]
  | .other _ => []

structure Refines (state : SearchDebounce)
    (abstract : Debounce.State ℚ String) : Prop where
  now : abstract.now = state.now
  deadlines : state.deadlines = (abstract.pending.map Prod.fst).toList
  delayed : state.screen.delayed = state.deadlines.length
  enteredText : ∀ call ∈ abstract.pending,
    state.screen.enteredText = call.2
  texts : state.screen.requests.map SearchRequest.text =
    abstract.sent.filter fun text => text ≠ ""

theorem refines_opened (start : ℚ) :
    Refines (opened start) (Debounce.opened start) := by
  constructor
  · rfl
  · rfl
  · rfl
  · intro call hcall
    contradiction
  · rfl

variable {state next : SearchDebounce} {abstract : Debounce.State ℚ String}

theorem Refines.mem_deadlines_iff (hrefines : Refines state abstract)
    {deadline : ℚ} :
    deadline ∈ state.deadlines ↔
      ∃ call, abstract.pending = some call ∧ call.1 = deadline := by
  rw [hrefines.deadlines, Option.mem_toList]
  exact Option.map_eq_some_iff

theorem Refines.deadlines_eq {call : ℚ × String}
    (hrefines : Refines state abstract)
    (hpending : abstract.pending = some call) :
    state.deadlines = [call.1] := by
  rw [hrefines.deadlines, hpending]
  rfl

theorem Refines.edited (hrefines : Refines state abstract) (edit : Edit) :
    Refines
      { now := edit.time, deadlines := reschedule edit
        screen := state.screen.textDidChange edit.value }
      (abstract.replace delay edit) := by
  rcases edit with ⟨time, value⟩
  cases value with
  | none =>
      refine ⟨rfl, rfl, rfl, ?_, hrefines.texts⟩
      intro call hcall
      contradiction
  | some text =>
      refine ⟨rfl, rfl, rfl, ?_, hrefines.texts⟩
      intro call hcall
      have heq : (time + delay, text) = call := Option.some.inj hcall
      rw [← heq]
      rfl

theorem Refines.fired {call : ℚ × String}
    (hrefines : Refines state abstract)
    (hpending : abstract.pending = some call) :
    Refines
      { now := call.1, deadlines := []
        screen := state.screen.makeSearchRequest }
      (abstract.send call) := by
  have hspec := fired_makeSearchRequest state.screen
  have hdelayed : state.screen.delayed = 1 := by
    rw [hrefines.delayed, hrefines.deadlines_eq hpending]
    rfl
  have htext : state.screen.enteredText = call.2 :=
    hrefines.enteredText call hpending
  constructor
  · rfl
  · rfl
  · exact hspec.delayed.trans (by rw [hdelayed]; rfl)
  · intro other hother
    contradiction
  · calc
      state.screen.makeSearchRequest.requests.map SearchRequest.text =
          state.screen.requests.map SearchRequest.text ++
            [state.screen.enteredText].filter fun text => text ≠ "" :=
        hspec.texts
      _ = abstract.sent.filter (fun text => text ≠ "") ++
            [call.2].filter fun text => text ≠ "" := by
        rw [hrefines.texts, htext]
      _ = (abstract.send call).sent.filter fun text => text ≠ "" :=
        (List.filter_append abstract.sent [call.2]).symm

theorem Refines.textDidChange {edit : Edit}
    (hrefines : Refines state abstract)
    (hstep : machine.step state (.textDidChange edit) = some next) :
    debouncer.step abstract (.edit edit) =
        some (abstract.replace delay edit) ∧
      Refines next (abstract.replace delay edit) := by
  simp only [machine, Option.ite_none_right_eq_some,
    Option.map_eq_some_iff] at hstep
  rcases hstep with ⟨⟨hnow, hdeadlines⟩, screen, hscreen, rfl⟩
  have hhandle :=
    (SearchViewController.machine_step_eq_some.mp hscreen).2
  cases hhandle
  refine ⟨?_, hrefines.edited edit⟩
  apply Debounce.step_edit.mpr
  refine ⟨⟨hrefines.now.trans_le hnow, ?_⟩, rfl⟩
  intro call hcall
  exact hdeadlines call.1 (hrefines.mem_deadlines_iff.mpr ⟨call, hcall, rfl⟩)

theorem Refines.makeSearchRequest (hrefines : Refines state abstract)
    (hstep : machine.step state .makeSearchRequest = some next) :
    ∃ call, debouncer.step abstract .deadline =
        some (abstract.send call) ∧
      Refines next (abstract.send call) := by
  cases hpending : abstract.pending with
  | none =>
      have hnil : state.deadlines = [] := by
        rw [hrefines.deadlines, hpending]
        rfl
      simp [machine, hnil] at hstep
  | some call =>
      simp only [machine, hrefines.deadlines_eq hpending,
        Option.map_eq_some_iff] at hstep
      rcases hstep with ⟨screen, hscreen, rfl⟩
      have hhandle :=
        (SearchViewController.machine_step_eq_some.mp hscreen).2
      rw [SearchViewController.handle,
        Option.ite_none_right_eq_some] at hhandle
      cases hhandle.2
      exact ⟨call, Debounce.step_deadline.mpr ⟨call, hpending, rfl⟩,
        hrefines.fired hpending⟩

theorem Refines.other {event : SearchViewController.Event}
    (hrefines : Refines state abstract)
    (hstep : machine.step state (.other event) = some next) :
    Refines next abstract := by
  simp only [machine, Option.ite_none_left_eq_some, Bool.not_eq_true,
    Option.map_eq_some_iff] at hstep
  rcases hstep with ⟨htimed, screen, hscreen, rfl⟩
  have hsame := sameSearch_of_step htimed hscreen
  constructor
  · exact hrefines.now
  · exact hrefines.deadlines
  · exact hsame.delayed.trans hrefines.delayed
  · intro call hcall
    exact hsame.enteredText.trans (hrefines.enteredText call hcall)
  · exact hsame.texts.trans hrefines.texts

/-- The screen refines the debouncer. -/
def simulation : EventMachine.Simulation machine debouncer where
  related := Refines
  label := label
  simulates := by
    intro state abstract event next hrefines hstep
    cases event with
    | textDidChange edit =>
        rcases hrefines.textDidChange hstep with ⟨habstract, hnext⟩
        exact ⟨_, (EventMachine.run_singleton _ _).trans habstract, hnext⟩
    | makeSearchRequest =>
        rcases hrefines.makeSearchRequest hstep with
          ⟨call, habstract, hnext⟩
        exact ⟨_, (EventMachine.run_singleton _ _).trans habstract, hnext⟩
    | other event => exact ⟨abstract, rfl, hrefines.other hstep⟩

theorem edits_label (events : List Event) :
    Debounce.edits (events.flatMap label) = edits events := by
  induction events with
  | nil => rfl
  | cons event events ih =>
      rw [List.flatMap_cons, Debounce.edits_append, ih]
      cases event <;> rfl

/-! ## Every run of the debouncer is a run of the screen -/

def drive : Debounce.Event ℚ String → List Event
  | .edit edit => [.textDidChange edit]
  | .deadline => [.makeSearchRequest]

structure Follows (abstract : Debounce.State ℚ String)
    (state : SearchDebounce) : Prop where
  refines : Refines state abstract
  inRange : state.screen.outOfRange = false

theorem Follows.edit {edit : Edit} {later : Debounce.State ℚ String}
    (hfollows : Follows abstract state)
    (hstep : debouncer.step abstract (.edit edit) = some later) :
    ∃ next, machine.step state (.textDidChange edit) = some next ∧
      Follows later next := by
  rcases Debounce.step_edit.mp hstep with ⟨⟨hnow, hcalls⟩, rfl⟩
  have hbegin : state.now ≤ edit.time :=
    hfollows.refines.now.symm.trans_le hnow
  have hdeadlines : ∀ deadline ∈ state.deadlines, edit.time ≤ deadline := by
    intro deadline hdeadline
    rcases hfollows.refines.mem_deadlines_iff.mp hdeadline with
      ⟨call, hcall, rfl⟩
    exact hcalls call hcall
  have hscreen : SearchViewController.machine.step state.screen
      (.textDidChange edit.value) =
        some (state.screen.textDidChange edit.value) :=
    SearchViewController.machine_step_eq_some.mpr ⟨hfollows.inRange, rfl⟩
  have hnext : machine.step state (.textDidChange edit) =
      some { now := edit.time, deadlines := reschedule edit
             screen := state.screen.textDidChange edit.value } := by
    simp only [machine, hscreen, Option.map_some]
    rw [if_pos ⟨hbegin, hdeadlines⟩]
  refine ⟨_, hnext, hfollows.refines.edited edit, ?_⟩
  rcases edit with ⟨time, _ | text⟩ <;> exact hfollows.inRange

theorem Follows.deadline {later : Debounce.State ℚ String}
    (hfollows : Follows abstract state)
    (hstep : debouncer.step abstract .deadline = some later) :
    ∃ next, machine.step state .makeSearchRequest = some next ∧
      Follows later next := by
  rcases Debounce.step_deadline.mp hstep with ⟨call, hpending, rfl⟩
  have hone := hfollows.refines.deadlines_eq hpending
  have hdelayed : 0 < state.screen.delayed := by
    rw [hfollows.refines.delayed, hone]
    exact Nat.one_pos
  have hscreen : SearchViewController.machine.step state.screen
      .makeSearchRequest = some state.screen.makeSearchRequest := by
    apply SearchViewController.machine_step_eq_some.mpr
    refine ⟨hfollows.inRange, ?_⟩
    rw [SearchViewController.handle, if_pos hdelayed]
  have hnext : machine.step state .makeSearchRequest =
      some { now := call.1, deadlines := []
             screen := state.screen.makeSearchRequest } := by
    simp only [machine, hone, hscreen, Option.map_some]
  have hrange : state.screen.makeSearchRequest.outOfRange = false :=
    (fired_makeSearchRequest state.screen).outOfRange.trans hfollows.inRange
  exact ⟨_, hnext, hfollows.refines.fired hpending, hrange⟩

def driven : EventMachine.Simulation debouncer machine where
  related := Follows
  label := drive
  simulates := by
    intro abstract state event later hfollows hstep
    cases event with
    | edit edit =>
        rcases hfollows.edit hstep with ⟨next, hnext, hlater⟩
        exact ⟨next, (EventMachine.run_singleton _ _).trans hnext, hlater⟩
    | deadline =>
        rcases hfollows.deadline hstep with ⟨next, hnext, hlater⟩
        exact ⟨next, (EventMachine.run_singleton _ _).trans hnext, hlater⟩

theorem edits_drive (events : List (Debounce.Event ℚ String)) :
    edits (events.flatMap drive) = Debounce.edits events := by
  induction events with
  | nil => rfl
  | cons event events ih =>
      rw [List.flatMap_cons, edits_append, ih]
      cases event <;> rfl

/-! ## The requests of a run -/

theorem exists_run {start : ℚ} {texts : List Edit}
    (hordered : Debounce.Ordered delay start texts) :
    ∃ events final, edits events = texts ∧
      machine.run (opened start) events = some final ∧
      final.deadlines = [] := by
  obtain ⟨events, abstract, hedits, hrun, hpending⟩ :=
    Debounce.exists_run hordered
  have hopened : Follows (Debounce.opened start) (opened start) :=
    ⟨refines_opened start, rfl⟩
  obtain ⟨final, hfinal, hfollows⟩ := driven.run hopened hrun
  refine ⟨events.flatMap drive, final, ?_, hfinal, ?_⟩
  · rw [edits_drive, hedits]
  · rw [hfollows.refines.deadlines, hpending]
    rfl

theorem exists_refines_of_run {start : ℚ} {events : List Event}
    (hrun : machine.run (opened start) events = some state) :
    ∃ abstract, debouncer.run (Debounce.opened start)
        (events.flatMap label) = some abstract ∧
      Refines state abstract :=
  simulation.run (refines_opened start) hrun

theorem pending_of_run {start : ℚ} {events : List Event}
    (hrun : machine.run (opened start) events = some state) :
    state.screen.delayed = state.deadlines.length ∧
      state.deadlines.length ≤ 1 := by
  obtain ⟨abstract, -, hrefines⟩ := exists_refines_of_run hrun
  refine ⟨hrefines.delayed, ?_⟩
  rw [hrefines.deadlines]
  cases abstract.pending <;> simp

theorem texts_of_run {start : ℚ} {events : List Event}
    (hapart : (edits events).IsChain (Debounce.Apart delay))
    (hrun : machine.run (opened start) events = some state)
    (hdone : state.deadlines = []) :
    state.screen.requests.map SearchRequest.text =
      searched (edits events) := by
  obtain ⟨abstract, habstract, hrefines⟩ := exists_refines_of_run hrun
  have hpending : abstract.pending = none := by
    have hdeadlines := hrefines.deadlines
    rw [hdone] at hdeadlines
    cases hcall : abstract.pending with
    | none => rfl
    | some call =>
        rw [hcall] at hdeadlines
        contradiction
  rw [← edits_label] at hapart ⊢
  rw [hrefines.texts, searched,
    Debounce.sent_of_run hapart habstract hpending]

/-- For edits which no deadline meets: there is a run to the end, at most one
call is pending in any state of a run, and a run to the end has sent exactly
what it should. -/
theorem requests_debounced (start : ℚ) (texts : List Edit)
    (hordered : Debounce.Ordered delay start texts) :
    (∃ events final, edits events = texts ∧
      machine.run (opened start) events = some final ∧
      final.deadlines = []) ∧
    ∀ events state, machine.run (opened start) events = some state →
      state.screen.delayed = state.deadlines.length ∧
      state.deadlines.length ≤ 1 ∧
      (edits events = texts → state.deadlines = [] →
        state.screen.requests.map SearchRequest.text = searched texts) := by
  refine ⟨exists_run hordered, ?_⟩
  intro events state hrun
  rcases pending_of_run hrun with ⟨hdelayed, hpending⟩
  refine ⟨hdelayed, hpending, ?_⟩
  rintro rfl hdone
  exact texts_of_run hordered.apart hrun hdone

theorem requests_debounced_three_edits :
    Debounce.Ordered delay 0
        [⟨0, some "A"⟩, ⟨1 / 4, some "AP"⟩, ⟨1, some "APPLE"⟩] ∧
      searched [⟨0, some "A"⟩, ⟨1 / 4, some "AP"⟩, ⟨1, some "APPLE"⟩] =
        ["AP", "APPLE"] ∧
      ∃ events final,
        machine.run (opened 0) events = some final ∧
        final.screen.requests.map SearchRequest.text = ["AP", "APPLE"] := by
  have hordered : Debounce.Ordered delay 0
      [⟨0, some "A"⟩, ⟨1 / 4, some "AP"⟩, ⟨1, some "APPLE"⟩] := by
    constructor
    · simp
    · norm_num
    · simp only [List.isChain_cons_cons, Debounce.Apart, delay]
      norm_num
  have hsearched :
      searched [⟨0, some "A"⟩, ⟨1 / 4, some "AP"⟩, ⟨1, some "APPLE"⟩] =
        ["AP", "APPLE"] := by decide +kernel
  rcases requests_debounced 0 _ hordered with
    ⟨⟨events, final, hedits, hrun, hdone⟩, hall⟩
  obtain ⟨-, -, hsent⟩ := hall events final hrun
  exact ⟨hordered, hsearched, events, final, hrun,
    (hsent hedits hdone).trans hsearched⟩

end SearchDebounce

end Stockly
