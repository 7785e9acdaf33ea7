import Stockly.DataGetter
import Stockly.EventMachine
import Stockly.LastWrite

/-!
# Calls of fetch operations

The fetch operations of a controller differ in what they decode and in what
they store.  A session is one controller with all calls made on it: calls may
overlap, and `URLSession` answers each of them once, in any order and with any
outcome.
-/

namespace Stockly

/-- What the fetch operations of a controller decode and store, and whether
their completions also take the decoded value. -/
structure FetchInterface (Controller : Type) where
  Fetch : Type
  Decoded : Fetch → Type
  store : (fetch : Fetch) → Decoded fetch → Controller → Controller
  passesValue : Fetch → Bool

structure FetchCall (Fetch : Type) where
  fetch : Fetch
  answered : Bool
deriving DecidableEq, Repr

def FetchCall.answer {Fetch : Type} (call : FetchCall Fetch) :
    FetchCall Fetch :=
  { call with answered := true }

namespace FetchInterface

variable {Controller : Type}

structure Completion (interface : FetchInterface Controller) where
  number : ℕ
  error : Option FetchError
  value : Option (Σ fetch, interface.Decoded fetch)

structure Session (interface : FetchInterface Controller) where
  controller : Controller
  calls : List (FetchCall interface.Fetch)
  completions : List interface.Completion

inductive Event (interface : FetchInterface Controller) where
  | call (fetch : interface.Fetch)
  | response (number : ℕ) (fetch : interface.Fetch)
      (transport : Transport (interface.Decoded fetch))

variable (interface : FetchInterface Controller)

def passed (fetch : interface.Fetch)
    (value : Option (interface.Decoded fetch)) :
    Option (Σ fetch, interface.Decoded fetch) :=
  if interface.passesValue fetch then value.map (Sigma.mk fetch) else none

namespace Session

variable {interface}

def new (controller : Controller) : interface.Session :=
  { controller := controller, calls := [], completions := [] }

def complete (number : ℕ) (fetch : interface.Fetch)
    (error : Option FetchError) (value : Option (interface.Decoded fetch))
    (session : interface.Session) : interface.Session :=
  { session with
    completions := session.completions ++
      [Completion.mk number error (interface.passed fetch value)] }

def respond (number : ℕ) (fetch : interface.Fetch)
    (transport : Transport (interface.Decoded fetch))
    (session : interface.Session) : interface.Session :=
  DataGetter.fetchDecoded
    (fun value session =>
      { session with
        controller := interface.store fetch value session.controller })
    (fun error value session => complete number fetch error value session)
    transport
    { session with calls := session.calls.modify number FetchCall.answer }

def completionsOf (number : ℕ) (session : interface.Session) :
    List interface.Completion :=
  session.completions.filter fun completion => completion.number = number

def Answered (number : ℕ) (session : interface.Session) : Prop :=
  (session.calls[number]?.any FetchCall.answered) = true

instance (number : ℕ) (session : interface.Session) :
    Decidable (session.Answered number) :=
  inferInstanceAs (Decidable (_ = _))

end Session

/-! ## One response -/

def completionOf : interface.Event → Option interface.Completion
  | .call _ => none
  | .response number fetch transport =>
      match DataGetter.outcome transport with
      | .ok value =>
          some ⟨number, none, interface.passed fetch (some value)⟩
      | .error error =>
          some ⟨number, some error, interface.passed fetch none⟩

def stored : interface.Event → Controller → Controller
  | .call _, controller => controller
  | .response _ fetch transport, controller =>
      match DataGetter.outcome transport with
      | .ok value => interface.store fetch value controller
      | .error _ => controller

variable {interface}

theorem Session.respond_eq (number : ℕ) (fetch : interface.Fetch)
    (transport : Transport (interface.Decoded fetch))
    (session : interface.Session) :
    session.respond number fetch transport =
      { controller := interface.stored (.response number fetch transport)
          session.controller
        calls := session.calls.modify number FetchCall.answer
        completions := session.completions ++ (interface.completionOf
          (.response number fetch transport)).toList } := by
  unfold respond
  rw [DataGetter.fetchDecoded_eq]
  simp only [stored, completionOf]
  cases DataGetter.outcome transport with
  | ok value => rfl
  | error error => rfl

theorem completionOf_response (number : ℕ) (fetch : interface.Fetch)
    (transport : Transport (interface.Decoded fetch)) :
    ∃ completion : interface.Completion,
      interface.completionOf (.response number fetch transport) =
          some completion ∧
        completion.number = number ∧
        (completion.error.isSome ↔ transport.Failed) := by
  have hfailed := DataGetter.exists_outcome_error_iff transport
  simp only [completionOf]
  cases houtcome : DataGetter.outcome transport with
  | ok value =>
      refine ⟨_, rfl, rfl, ?_⟩
      rw [houtcome] at hfailed
      simpa using hfailed
  | error error =>
      refine ⟨_, rfl, rfl, ?_⟩
      rw [houtcome] at hfailed
      simpa using hfailed

theorem stored_of_failed {number : ℕ} {fetch : interface.Fetch}
    {transport : Transport (interface.Decoded fetch)}
    (hfailed : transport.Failed) (controller : Controller) :
    interface.stored (.response number fetch transport) controller =
      controller := by
  obtain ⟨error, herror⟩ :=
    (DataGetter.exists_outcome_error_iff transport).mpr hfailed
  simp only [stored, herror]

/-! ## Runs -/

variable [DecidableEq interface.Fetch] {session next : interface.Session}

variable (interface) in
def machine : EventMachine interface.Session interface.Event where
  step session
    | .call fetch =>
        some { session with calls := session.calls ++ [⟨fetch, false⟩] }
    | .response number fetch transport =>
        if session.calls[number]? = some ⟨fetch, false⟩ then
          some (session.respond number fetch transport)
        else none

theorem step_effect {event : interface.Event}
    (hstep : interface.machine.step session event = some next) :
    next.controller = interface.stored event session.controller ∧
      next.completions =
        session.completions ++ (interface.completionOf event).toList := by
  cases event with
  | call fetch =>
      cases hstep
      exact ⟨rfl, (List.append_nil _).symm⟩
  | response number fetch transport =>
      rcases Option.ite_none_right_eq_some.mp hstep with ⟨-, hnext⟩
      rw [Session.respond_eq] at hnext
      cases hnext
      exact ⟨rfl, rfl⟩

/-- The completions are those of the responses, in their order, no call has
been completed twice, and the controller holds what they stored. -/
structure FetchHistory (initial : Controller) (events : List interface.Event)
    (session : interface.Session) : Prop where
  controller : session.controller =
    events.foldl (fun controller event => interface.stored event controller)
      initial
  completions :
    session.completions = events.filterMap interface.completionOf
  once : ∀ number, (session.completionsOf number).length =
    if session.Answered number then 1 else 0

omit [DecidableEq interface.Fetch] in
theorem new_fetchHistory (controller : Controller) :
    FetchHistory controller []
      (Session.new controller : interface.Session) := by
  constructor
  · rfl
  · rfl
  · intro number
    simp [Session.new, Session.completionsOf, Session.Answered]

theorem FetchHistory.step {initial : Controller}
    {events : List interface.Event} {event : interface.Event}
    (hsession : FetchHistory initial events session)
    (hstep : interface.machine.step session event = some next) :
    FetchHistory initial (events ++ [event]) next := by
  rcases step_effect hstep with ⟨hcontroller, hcompletions⟩
  constructor
  · rw [hcontroller, hsession.controller, List.foldl_append]
    rfl
  · rw [hcompletions, hsession.completions, List.filterMap_append]
    cases hcompletion : interface.completionOf event <;> simp [hcompletion]
  · intro number
    have honce := hsession.once number
    cases event with
    | call fetch =>
        cases hstep
        have hanswered : Session.Answered number
              { session with calls := session.calls ++ [⟨fetch, false⟩] } ↔
            session.Answered number := by
          unfold Session.Answered
          rcases lt_trichotomy number session.calls.length with
            hlt | heq | hgt
          · rw [List.getElem?_append_left hlt]
          · simp [heq]
          · rw [List.getElem?_eq_none (by simpa using hgt),
              List.getElem?_eq_none hgt.le]
        simp only [hanswered]
        exact honce
    | response other fetch transport =>
        rcases Option.ite_none_right_eq_some.mp hstep with ⟨hcall, hnext⟩
        rw [Session.respond_eq] at hnext
        cases hnext
        obtain ⟨completion, hcompletion, hnumber, -⟩ :=
          completionOf_response other fetch transport
        by_cases hsame : other = number
        · subst hsame
          have hbefore : ¬ session.Answered other := by
            simp [Session.Answered, hcall]
          rw [if_neg hbefore] at honce
          simp [Session.completionsOf, Session.Answered, hcompletion,
            hnumber, hcall, FetchCall.answer] at honce ⊢
          exact honce
        · simp [Session.completionsOf, Session.Answered, hcompletion,
            hnumber, hsame] at honce ⊢
          exact honce

theorem fetchHistory_run {initial : Controller}
    {events : List interface.Event}
    (hrun : interface.machine.run (.new initial) events = some session) :
    FetchHistory initial events session :=
  EventMachine.history_run FetchHistory.step (new_fetchHistory initial) hrun

/-- The completion of each call runs exactly once, when its response comes,
with an error exactly when the fetch failed; a failed fetch changes nothing in
the controller. -/
structure FetchesRight (events : List interface.Event)
    (session : interface.Session) : Prop where
  completed : ∀ number fetch transport,
    .response number fetch transport ∈ events →
      ∃ completion, session.completionsOf number = [completion] ∧
        (completion.error.isSome ↔ transport.Failed)
  pending : ∀ number,
    (∀ fetch transport, .response number fetch transport ∉ events) →
      session.completionsOf number = []
  afterFailure : ∀ number fetch transport next,
    interface.machine.step session (.response number fetch transport) =
      some next → transport.Failed → next.controller = session.controller

omit [DecidableEq interface.Fetch] in
theorem FetchHistory.completionsOf_eq {initial : Controller}
    {events : List interface.Event} {number : ℕ} {fetch : interface.Fetch}
    {transport : Transport (interface.Decoded fetch)}
    {completion : interface.Completion}
    (hsession : FetchHistory initial events session)
    (hresponse : .response number fetch transport ∈ events)
    (hcompletion : interface.completionOf
      (.response number fetch transport) = some completion)
    (hnumber : completion.number = number) :
    session.completionsOf number = [completion] := by
  have hmem : completion ∈ session.completionsOf number := by
    unfold Session.completionsOf
    rw [hsession.completions, List.mem_filter, List.mem_filterMap]
    exact ⟨⟨_, hresponse, hcompletion⟩, by simpa using hnumber⟩
  have hle : (session.completionsOf number).length ≤ 1 := by
    rw [hsession.once]
    split <;> simp
  obtain ⟨only, honly⟩ := List.length_eq_one_iff.mp
    (le_antisymm hle (List.length_pos_of_mem hmem))
  rw [honly] at hmem ⊢
  rw [List.mem_singleton.mp hmem]

theorem fetchesRight_run {initial : Controller}
    {events : List interface.Event}
    (hrun : interface.machine.run (.new initial) events = some session) :
    FetchesRight events session := by
  have hsession := fetchHistory_run hrun
  constructor
  · intro number fetch transport hresponse
    obtain ⟨completion, hcompletion, hnumber, herror⟩ :=
      completionOf_response number fetch transport
    exact ⟨completion,
      hsession.completionsOf_eq hresponse hcompletion hnumber, herror⟩
  · intro number hsilent
    unfold Session.completionsOf
    rw [hsession.completions, List.filter_eq_nil_iff]
    intro completion hmem
    rcases List.mem_filterMap.mp hmem with ⟨event, hevent, hcompletion⟩
    cases event with
    | call fetch => contradiction
    | response other fetch transport =>
        obtain ⟨answer, hanswer, hnumber, -⟩ :=
          completionOf_response other fetch transport
        rw [hanswer, Option.some.injEq] at hcompletion
        subst hcompletion
        have hne : other ≠ number := by
          rintro rfl
          exact hsilent fetch transport hevent
        simpa [hnumber] using hne
  · intro number fetch transport next hstep hfailed
    rw [(step_effect hstep).1, stored_of_failed hfailed]

/-! ## What the last successful response left -/

variable {Value : Type}

/-- What a successful response brings, for those fetches that bring one. -/
def answerOf
    (decode : (fetch : interface.Fetch) → interface.Decoded fetch →
      Option Value) : interface.Event → Option Value
  | .call _ => none
  | .response _ fetch transport =>
      match DataGetter.outcome transport with
      | .ok value => decode fetch value
      | .error _ => none

def lastAnswer
    (decode : (fetch : interface.Fetch) → interface.Decoded fetch →
      Option Value) (events : List interface.Event) : Option Value :=
  lastWrite (answerOf decode) events

theorem read_run {Content : Type} {initial : Controller}
    {events : List interface.Event}
    (decode : (fetch : interface.Fetch) → interface.Decoded fetch →
      Option Value)
    (content : Value → Content) (read : Controller → Content)
    (hread : ∀ fetch value controller,
      read (interface.store fetch value controller) =
        ((decode fetch value).map content).getD (read controller))
    (hrun : interface.machine.run (.new initial) events = some session) :
    read session.controller =
      ((lastAnswer decode events).map content).getD (read initial) := by
  rw [(fetchHistory_run hrun).controller]
  apply foldl_eq_lastWrite
  intro controller event
  cases event with
  | call fetch => rfl
  | response number fetch transport =>
      simp only [stored, answerOf]
      cases DataGetter.outcome transport with
      | ok value => exact hread fetch value controller
      | error error => rfl

end FetchInterface

end Stockly
