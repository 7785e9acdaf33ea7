import Stockly.EventMachine

/-!
# Debouncing

A debouncer keeps at most one value back for a fixed delay.  Every edit drops
the value kept so far and may bring a new one; a value whose deadline comes
first is sent.  The values sent by a run are told from the times of its edits
alone, and edits which no deadline meets have a run to the end.
-/

universe u v

namespace Debounce

structure Edit (Time : Type u) (Value : Type v) where
  time : Time
  value : Option Value
deriving DecidableEq, Repr

structure State (Time : Type u) (Value : Type v) where
  now : Time
  pending : Option (Time × Value)
  sent : List Value

inductive Event (Time : Type u) (Value : Type v) where
  | edit (edit : Edit Time Value)
  | deadline

variable {Time : Type u} {Value : Type v}

def Event.edited : Event Time Value → Option (Edit Time Value)
  | .edit change => some change
  | .deadline => none

def edits (events : List (Event Time Value)) : List (Edit Time Value) :=
  events.filterMap Event.edited

theorem edits_append (before after : List (Event Time Value)) :
    edits (before ++ after) = edits before ++ edits after :=
  List.filterMap_append

variable [LinearOrder Time] [Add Time] {delay : Time}

def opened (start : Time) : State Time Value :=
  { now := start, pending := none, sent := [] }

def State.replace (delay : Time) (edit : Edit Time Value)
    (state : State Time Value) : State Time Value :=
  { state with
    now := edit.time
    pending := edit.value.map fun value => (edit.time + delay, value) }

def State.send (call : Time × Value) (state : State Time Value) :
    State Time Value :=
  { now := call.1, pending := none, sent := state.sent ++ [call.2] }

/-- Time does not run past a deadline before its value is sent. -/
def machine (delay : Time) :
    EventMachine (State Time Value) (Event Time Value) where
  step state
    | .edit edit =>
        if state.now ≤ edit.time ∧
            ∀ call ∈ state.pending, edit.time ≤ call.1 then
          some (state.replace delay edit)
        else none
    | .deadline => state.pending.map fun call => state.send call

/-! ## What is sent -/

/-- What the edit contributes when the next one comes at `next`. -/
def Edit.sent (delay : Time) (edit : Edit Time Value) :
    Option Time → List Value
  | none => edit.value.toList
  | some next =>
      if edit.time + delay < next then edit.value.toList else []

/-- The values sent for the edits, when one more edit comes at `next`. -/
def sentBefore (delay : Time) (next : Option Time) :
    List (Edit Time Value) → List Value
  | [] => []
  | [edit] => edit.sent delay next
  | edit :: later :: rest =>
      edit.sent delay (some later.time) ++
        sentBefore delay next (later :: rest)

/-- The values whose next edit, if any, comes more than the delay later. -/
def sent (delay : Time) (edits : List (Edit Time Value)) : List Value :=
  sentBefore delay none edits

theorem sentBefore_concat (next : Option Time)
    (edits : List (Edit Time Value)) (edit : Edit Time Value) :
    sentBefore delay next (edits ++ [edit]) =
      sentBefore delay (some edit.time) edits ++ edit.sent delay next := by
  induction edits with
  | nil => rfl
  | cons first edits ih =>
      cases edits with
      | nil => rfl
      | cons second edits =>
          rw [List.cons_append, List.cons_append, sentBefore,
            ← List.cons_append, ih, sentBefore, List.append_assoc]

/-! ## The law of a run -/

/-- No edit comes exactly at the deadline of the one before it. -/
def Apart (delay : Time) (edit next : Edit Time Value) : Prop :=
  edit.value.isSome = true → next.time ≠ edit.time + delay

/-- What the state holds after the edits: either every deadline has passed,
or the last edit waits for its own. -/
inductive Reached (delay : Time) :
    List (Edit Time Value) → State Time Value → Prop
  | idle {edits : List (Edit Time Value)} {state : State Time Value}
      (hpending : state.pending = none)
      (hsent : state.sent = sent delay edits)
      (hpast : ∀ edit ∈ edits.getLast?, edit.value.isSome = true →
        edit.time + delay ≤ state.now) :
      Reached delay edits state
  | waiting {before : List (Edit Time Value)} {edit : Edit Time Value}
      {value : Value} {state : State Time Value}
      (hvalue : edit.value = some value)
      (hpending : state.pending = some (edit.time + delay, value))
      (hsent : state.sent = sentBefore delay (some edit.time) before) :
      Reached delay (before ++ [edit]) state

variable {state next : State Time Value}

theorem reached_opened (start : Time) :
    Reached delay [] (opened start : State Time Value) := by
  apply Reached.idle
  · rfl
  · rfl
  · intro edit hedit
    contradiction

theorem step_edit {edit : Edit Time Value} :
    (machine delay).step state (.edit edit) = some next ↔
      (state.now ≤ edit.time ∧
        ∀ call ∈ state.pending, edit.time ≤ call.1) ∧
      state.replace delay edit = next := by
  simp only [machine, Option.ite_none_right_eq_some, Option.some.injEq]

theorem step_deadline :
    (machine delay).step state .deadline = some next ↔
      ∃ call, state.pending = some call ∧ state.send call = next := by
  simp only [machine, Option.map_eq_some_iff]

/-- At an edit everything sent is settled: a waiting value is dropped, and
one which was sent has had its delay. -/
theorem Reached.sent_eq {earlier : List (Edit Time Value)} {time : Time}
    (hreached : Reached delay earlier state)
    (hnow : state.now ≤ time)
    (hcalls : ∀ call ∈ state.pending, time ≤ call.1)
    (hapart : ∀ last ∈ earlier.getLast?, last.value.isSome = true →
      time ≠ last.time + delay) :
    state.sent = sentBefore delay (some time) earlier := by
  cases hreached with
  | idle hpending hsent hpast =>
      rcases List.eq_nil_or_concat' earlier with rfl | ⟨before, last, rfl⟩
      · exact hsent
      · have hmem : last ∈ (before ++ [last]).getLast? := by simp
        have hlast : last.sent delay (some time) = last.sent delay none := by
          cases hvalue : last.value with
          | none => simp [Edit.sent, hvalue]
          | some value =>
              have hsome : last.value.isSome = true := by rw [hvalue]; rfl
              have hle : last.time + delay ≤ time :=
                (hpast last hmem hsome).trans hnow
              -- the deadline has passed, and no edit comes right at it
              have hlt : last.time + delay < time :=
                lt_of_le_of_ne hle (hapart last hmem hsome).symm
              simp only [Edit.sent, if_pos hlt]
        rw [hsent, sent, sentBefore_concat, sentBefore_concat, hlast]
  | @waiting before last value _ hvalue hpending hsent =>
      have hle : time ≤ last.time + delay := hcalls _ hpending
      rw [sentBefore_concat, Edit.sent, if_neg hle.not_gt, List.append_nil]
      exact hsent

theorem Reached.edit {earlier : List (Edit Time Value)}
    {edit : Edit Time Value} (hreached : Reached delay earlier state)
    (hapart : ∀ last ∈ earlier.getLast?, Apart delay last edit)
    (hstep : (machine delay).step state (.edit edit) = some next) :
    Reached delay (earlier ++ [edit]) next := by
  rcases step_edit.mp hstep with ⟨⟨hnow, hcalls⟩, rfl⟩
  have hsent : state.sent = sentBefore delay (some edit.time) earlier :=
    hreached.sent_eq hnow hcalls hapart
  cases hvalue : edit.value with
  | none =>
      apply Reached.idle
      · rw [State.replace, hvalue, Option.map_none]
      · rw [sent, sentBefore_concat, Edit.sent, hvalue, State.replace, hsent]
        exact (List.append_nil _).symm
      · intro last hlast hsome
        have heq : edit = last := by simpa using hlast
        rw [← heq, hvalue] at hsome
        contradiction
  | some value =>
      have hpending : (state.replace delay edit).pending =
          some (edit.time + delay, value) := by
        rw [State.replace, hvalue, Option.map_some]
      exact Reached.waiting hvalue hpending hsent

theorem Reached.deadline {earlier : List (Edit Time Value)}
    (hreached : Reached delay earlier state)
    (hstep : (machine delay).step state .deadline = some next) :
    Reached delay earlier next := by
  rcases step_deadline.mp hstep with ⟨call, hcall, rfl⟩
  cases hreached with
  | idle hpending =>
      rw [hpending] at hcall
      contradiction
  | @waiting before edit other _ hvalue hpending hsent =>
      rw [hpending] at hcall
      cases hcall
      apply Reached.idle
      · rfl
      · rw [sent, sentBefore_concat, Edit.sent, hvalue, State.send, hsent]
        rfl
      · intro last hlast _
        have heq : edit = last := by simpa using hlast
        exact heq ▸ le_refl (edit.time + delay)

theorem Reached.step {events : List (Event Time Value)}
    {event : Event Time Value} (hreached : Reached delay (edits events) state)
    (hapart : (edits (events ++ [event])).IsChain (Apart delay))
    (hstep : (machine delay).step state event = some next) :
    Reached delay (edits (events ++ [event])) next := by
  cases event with
  | edit edit =>
      have hedits : edits (events ++ [.edit edit]) =
          edits events ++ [edit] := edits_append events [.edit edit]
      rw [hedits] at hapart ⊢
      apply hreached.edit _ hstep
      intro last hlast
      exact (List.isChain_append.mp hapart).2.2 last hlast edit rfl
  | deadline =>
      have hedits : edits (events ++ [.deadline]) = edits events := by
        rw [edits_append]
        exact List.append_nil (edits events)
      rw [hedits]
      exact hreached.deadline hstep

theorem reached_run {start : Time} {events : List (Event Time Value)}
    (hapart : (edits events).IsChain (Apart delay))
    (hrun : (machine delay).run (opened start) events = some state) :
    Reached delay (edits events) state := by
  induction events using List.reverseRecOn generalizing state with
  | nil =>
      cases hrun
      exact reached_opened start
  | append_singleton events event ih =>
      rcases EventMachine.run_concat_eq_some.mp hrun with
        ⟨middle, hmiddle, hstep⟩
      have hbefore : (edits events).IsChain (Apart delay) := by
        rw [edits_append] at hapart
        exact (List.isChain_append.mp hapart).1
      exact (ih hbefore hmiddle).step hapart hstep

theorem sent_of_run {start : Time} {events : List (Event Time Value)}
    (hapart : (edits events).IsChain (Apart delay))
    (hrun : (machine delay).run (opened start) events = some state)
    (hpending : state.pending = none) :
    state.sent = sent delay (edits events) := by
  have hreached := reached_run hapart hrun
  generalize edits events = earlier at hreached ⊢
  cases hreached with
  | idle _ hsent => exact hsent
  | waiting _ hwaiting =>
      rw [hpending] at hwaiting
      contradiction

/-! ## Complete runs -/

/-- Edits in the order of their times, none of them at a deadline. -/
structure Ordered (delay start : Time) (edits : List (Edit Time Value)) :
    Prop where
  started : ∀ edit ∈ edits.head?, start ≤ edit.time
  rising : edits.IsChain fun edit next => edit.time ≤ next.time
  apart : edits.IsChain (Apart delay)

theorem run_deadline {call : Time × Value}
    (hpending : state.pending = some call) :
    (machine delay).run state [.deadline] = some (state.send call) := by
  rw [EventMachine.run_singleton]
  exact step_deadline.mpr ⟨call, hpending, rfl⟩

/-- The value which is due before the edit, if there is one, is sent. -/
theorem exists_settled {time : Time} (hnow : state.now ≤ time)
    (hcalls : ∀ call ∈ state.pending, time ≠ call.1) :
    ∃ (events : List (Event Time Value)) (middle : State Time Value),
      edits events = [] ∧
      (machine delay).run state events = some middle ∧
      middle.now ≤ time ∧ ∀ call ∈ middle.pending, time ≤ call.1 := by
  cases hpending : state.pending with
  | none =>
      refine ⟨[], state, rfl, rfl, hnow, ?_⟩
      intro call hcall
      rw [hpending] at hcall
      contradiction
  | some call =>
      rcases lt_or_gt_of_ne (hcalls call hpending) with hbefore | hpast
      · refine ⟨[], state, rfl, rfl, hnow, ?_⟩
        intro other hother
        rw [hpending] at hother
        cases hother
        exact hbefore.le
      · refine ⟨[.deadline], state.send call, rfl, run_deadline hpending,
          hpast.le, ?_⟩
        intro other hother
        contradiction

theorem exists_finished (state : State Time Value) :
    ∃ (events : List (Event Time Value)) (final : State Time Value),
      edits events = [] ∧
      (machine delay).run state events = some final ∧
      final.pending = none := by
  cases hpending : state.pending with
  | none => exact ⟨[], state, rfl, rfl, hpending⟩
  | some call =>
      exact ⟨[.deadline], state.send call, rfl, run_deadline hpending, rfl⟩

theorem exists_run_from (edits : List (Edit Time Value))
    (state : State Time Value)
    (hstarted : ∀ edit ∈ edits.head?, state.now ≤ edit.time ∧
      ∀ call ∈ state.pending, edit.time ≠ call.1)
    (hrising : edits.IsChain fun edit next => edit.time ≤ next.time)
    (hapart : edits.IsChain (Apart delay)) :
    ∃ (events : List (Event Time Value)) (final : State Time Value),
      Debounce.edits events = edits ∧
      (machine delay).run state events = some final ∧
      final.pending = none := by
  induction edits generalizing state with
  | nil => exact exists_finished state
  | cons edit edits ih =>
      obtain ⟨hnow, hcalls⟩ := hstarted edit rfl
      obtain ⟨before, middle, hbefore, hmiddle, hearlier, hpending⟩ :=
        @exists_settled _ _ _ _ delay state edit.time hnow hcalls
      rcases List.isChain_cons.mp hrising with ⟨hnext, hrest⟩
      rcases List.isChain_cons.mp hapart with ⟨hnextApart, hrestApart⟩
      have hstep : (machine delay).step middle (.edit edit) =
          some (middle.replace delay edit) :=
        step_edit.mpr ⟨⟨hearlier, hpending⟩, rfl⟩
      have hlater : ∀ later ∈ edits.head?,
          (middle.replace delay edit).now ≤ later.time ∧
            ∀ call ∈ (middle.replace delay edit).pending,
              later.time ≠ call.1 := by
        intro later hlater
        refine ⟨hnext later hlater, ?_⟩
        intro call hcall
        rcases Option.map_eq_some_iff.mp hcall with ⟨value, hvalue, rfl⟩
        apply hnextApart later hlater
        rw [hvalue]
        rfl
      obtain ⟨after, final, hafter, hfinal, hnone⟩ :=
        ih _ hlater hrest hrestApart
      refine ⟨before ++ .edit edit :: after, final, ?_, ?_, hnone⟩
      · have hcons : Debounce.edits (.edit edit :: after) =
            edit :: Debounce.edits after := rfl
        rw [edits_append, hbefore, hcons, hafter, List.nil_append]
      · apply EventMachine.run_trans hmiddle
        rw [EventMachine.run_cons, hstep]
        exact hfinal

theorem exists_run {start : Time} {edits : List (Edit Time Value)}
    (hordered : Ordered delay start edits) :
    ∃ (events : List (Event Time Value)) (final : State Time Value),
      Debounce.edits events = edits ∧
      (machine delay).run (opened start) events = some final ∧
      final.pending = none := by
  apply exists_run_from edits (opened start) _ hordered.rising hordered.apart
  intro edit hedit
  refine ⟨hordered.started edit hedit, ?_⟩
  intro call hcall
  contradiction

end Debounce
