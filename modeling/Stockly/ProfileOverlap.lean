import Stockly.ProfileNotification
import Mathlib.Data.List.DropRight

/-!
# Overlapping refresh rounds

The watch list holds the stocks that have arrived since the last tick, of
whatever round.  A notification therefore finds the stocks of its own round
exactly when these have all arrived since the last tick and no others have.
-/

namespace Stockly
namespace ProfileTableViewController

open RefreshRound

variable {screen next : ProfileTableViewController}

/-- When the notification block of a round has run, the list is sorted and
holds one stock for each symbol the round saw whose fetch succeeded, and
nothing else. -/
def NotifyLaw (_ : ProfileTableViewController) (event : Event)
    (next : ProfileTableViewController) : Prop :=
  ∀ number, event = .notification number →
    next.watchList.Pairwise NameOrder ∧
      ∀ round, next.rounds[number]? = some round →
        next.watchList.Perm (round.fetchedStocks number)

/-! ## Arrivals -/

def arrival : Event → Option FetchedStock
  | .response number slot transport =>
      match DataGetter.outcome transport with
      | .ok batch => some (.ofBatch number slot batch)
      | .error _ => none
  | _ => none

def arrivals (events : List Event) : List FetchedStock :=
  events.filterMap arrival

def isTick : Event → Bool
  | .timerTick _ => true
  | _ => false

def untilLastTick (events : List Event) : List Event :=
  events.rdropWhile fun event => !isTick event

def sinceLastTick (events : List Event) : List Event :=
  events.rtakeWhile fun event => !isTick event

/-- Since the last tick no stock of another round has arrived, and no stock
of the round had arrived before it. -/
def OwnArrivals (events : List Event) (event : Event) : Prop :=
  ∀ number, event = .notification number →
    (∀ stock ∈ arrivals (sinceLastTick events), stock.round = number) ∧
      ∀ stock ∈ arrivals (untilLastTick events), stock.round ≠ number

def NoRowDelete (event : Event) : Prop :=
  ∀ row error, event ≠ .rowDelete row error

theorem arrivals_concat (events : List Event) (event : Event) :
    arrivals (events ++ [event]) =
      arrivals events ++ (arrival event).toList := by
  unfold arrivals
  rw [List.filterMap_append]
  cases hstock : arrival event <;> simp [hstock]

theorem arrivals_split (events : List Event) :
    arrivals events =
      arrivals (untilLastTick events) ++ arrivals (sinceLastTick events) := by
  unfold arrivals untilLastTick sinceLastTick
  rw [← List.filterMap_append, List.rdropWhile_append_rtakeWhile]

theorem sinceLastTick_tick (events : List Event) {event : Event}
    (htick : isTick event = true) :
    sinceLastTick (events ++ [event]) = [] := by
  unfold sinceLastTick
  rw [List.rtakeWhile_concat_neg]
  simp [htick]

theorem sinceLastTick_concat (events : List Event) {event : Event}
    (htick : isTick event = false) :
    sinceLastTick (events ++ [event]) = sinceLastTick events ++ [event] := by
  unfold sinceLastTick
  rw [List.rtakeWhile_concat_pos]
  simp [htick]

/-! ## What the array holds -/

/-- The watch list holds what has arrived since the last tick, and each round
has gathered what has arrived for it. -/
structure ArrivalHistory (events : List Event)
    (screen : ProfileTableViewController) : Prop where
  watchList : screen.watchList.Perm (arrivals (sinceLastTick events))
  fetched : ∀ (number : ℕ) round, screen.rounds[number]? = some round →
    (round.fetchedStocks number).Perm
      ((arrivals events).filter fun stock => stock.round = number)
  started : ∀ stock ∈ arrivals events, stock.round < screen.rounds.length

theorem ArrivalHistory.of_silent {events : List Event} {event : Event}
    (hscreen : ArrivalHistory events screen)
    (harrival : arrival event = none) (htick : isTick event = false)
    (hlist : next.watchList.Perm screen.watchList)
    (hlength : next.rounds.length = screen.rounds.length)
    (hrounds : ∀ (number : ℕ) round, next.rounds[number]? = some round →
      ∃ before, screen.rounds[number]? = some before ∧
        round.fetchedStocks number = before.fetchedStocks number) :
    ArrivalHistory (events ++ [event]) next := by
  have hall : arrivals (events ++ [event]) = arrivals events := by
    rw [arrivals_concat, harrival]
    simp
  have hsince : arrivals (sinceLastTick (events ++ [event])) =
      arrivals (sinceLastTick events) := by
    rw [sinceLastTick_concat events htick, arrivals_concat, harrival]
    simp
  constructor
  · rw [hsince]
    exact hlist.trans hscreen.watchList
  · intro number round hround
    obtain ⟨before, hbefore, hfetched⟩ := hrounds number round hround
    rw [hall, hfetched]
    exact hscreen.fetched number before hbefore
  · rw [hall, hlength]
    exact hscreen.started

theorem ArrivalHistory.fireTimer {events : List Event} {timer : ℕ}
    (hscreen : ArrivalHistory events screen) :
    ArrivalHistory (events ++ [.timerTick timer]) screen.fireTimer := by
  have hall : arrivals (events ++ [.timerTick timer]) = arrivals events := by
    rw [arrivals_concat]
    simp [arrival]
  constructor
  · rw [sinceLastTick_tick events rfl]
    exact .refl _
  · intro number round hround
    rw [hall]
    rcases getElem?_concat_eq_some.mp hround with hold | ⟨hnumber, hnew⟩
    · exact hscreen.fetched number round hold
    · -- no stock has arrived for a round that has just started
      have hnone : (arrivals events).filter
          (fun stock => stock.round = number) = [] := by
        rw [List.filter_eq_nil_iff]
        intro stock hstock
        have hlt := hscreen.started stock hstock
        simp only [decide_eq_true_eq]
        omega
      rw [hnone, hnew, fetchedStocks_start]
  · rw [hall]
    intro stock hstock
    have hlt := hscreen.started stock hstock
    change stock.round < (screen.rounds ++ [_]).length
    rw [List.length_append, List.length_singleton]
    omega

theorem ArrivalHistory.batch {events : List Event} {number slot : ℕ}
    {transport : Transport Batch} {batch : Batch}
    (hscreen : ArrivalHistory events screen)
    (hflight : screen.InFlight number slot)
    (hbatch : DataGetter.outcome transport = .ok batch)
    (hlist : next.watchList =
      screen.watchList ++ [.ofBatch number slot batch])
    (hrounds : next.rounds =
      (screen.rounds.modify number
        (.reply slot (none, some batch))).modify number .leave) :
    ArrivalHistory (events ++ [.response number slot transport]) next := by
  have harrival : arrival (.response number slot transport) =
      some (.ofBatch number slot batch) := by
    simp [arrival, hbatch]
  rw [List.modify_modify_eq] at hrounds
  constructor
  · rw [sinceLastTick_concat events rfl, arrivals_concat, harrival, hlist]
    exact hscreen.watchList.append_right _
  · intro other round hround
    rw [hrounds, getElem?_modify_eq_some] at hround
    obtain ⟨before, hbefore, hround⟩ := hround
    have hfetched := hscreen.fetched other before hbefore
    rw [arrivals_concat, harrival, Option.toList_some, List.filter_append]
    by_cases hsame : number = other
    · subst hsame
      rw [if_pos rfl] at hround
      subst hround
      have hslot := hflight.reply_eq hbefore
      have hperm := @fetchedStocks_reply_batch before number slot hslot batch
      apply hperm.trans
      simpa [FetchedStock.ofBatch] using hfetched.append_right _
    · rw [if_neg hsame] at hround
      subst hround
      simpa [FetchedStock.ofBatch, hsame] using hfetched
  · intro stock hstock
    rw [hrounds, List.length_modify]
    rw [arrivals_concat, harrival] at hstock
    rcases List.mem_append.mp hstock with hold | hnew
    · exact hscreen.started stock hold
    · simp only [Option.toList_some, List.mem_singleton] at hnew
      subst hnew
      obtain ⟨round, hround, -⟩ := hflight.exists_round
      exact (List.getElem?_eq_some_iff.mp hround).1

theorem ArrivalHistory.step {events : List Event} {event : Event}
    (hscreen : ArrivalHistory events screen) (hevent : NoRowDelete event)
    (hstep : machine.step screen event = some next) :
    ArrivalHistory (events ++ [event]) next := by
  cases effect_of_step hstep with
  | tick hlive => exact hscreen.fireTimer
  | batch hflight hbatch =>
      exact hscreen.batch hflight hbatch rfl rfl
  | failure hflight herror =>
      apply hscreen.of_silent
      · simp [arrival, herror]
      · rfl
      · exact .refl _
      · exact List.length_modify ..
      · intro number round hround
        obtain ⟨before, hbefore, hchanged⟩ :=
          getElem?_modify_eq_some.mp hround
        refine ⟨before, hbefore, ?_⟩
        split at hchanged
        next hsame =>
          subst hsame
          rw [hchanged]
          exact fetchedStocks_reply_error (hflight.reply_eq hbefore) _
        next => rw [hchanged]
  | notify hready =>
      apply hscreen.of_silent rfl rfl
      · exact List.perm_insertionSort NameOrder screen.watchList
      · exact List.length_modify ..
      · intro number round hround
        obtain ⟨before, hbefore, hround⟩ :=
          getElem?_modify_eq_some.mp hround
        refine ⟨before, hbefore, ?_⟩
        rw [hround]
        split <;> rfl
  | deleteSignedOut | deleteOutOfRange | deleteInvalidPath | delete
  | deleteMismatch => exact absurd rfl (hevent _ _)
  | appear | disappear | change | emptySnapshot | brokenSnapshot
  | fullSnapshot | row | rowOutOfRange =>
      exact hscreen.of_silent rfl rfl (.refl _) rfl
        fun number round hround => ⟨round, hround, rfl⟩

theorem launched_arrivalHistory (currentUser : Option String)
    (database : DataSnapshot) :
    ArrivalHistory [] (launched currentUser database) := by
  constructor
  · exact .refl _
  · intro number round hround
    simp [launched] at hround
  · simp [arrivals]

/-! ## When a notification finds its own round -/

theorem perm_filter_append_iff {before since : List FetchedStock}
    {number : ℕ} :
    since.Perm
        ((before ++ since).filter fun stock => stock.round = number) ↔
      (∀ stock ∈ since, stock.round = number) ∧
        ∀ stock ∈ before, stock.round ≠ number := by
  rw [List.filter_append]
  constructor
  · intro hperm
    have hown : ∀ stock ∈ since, stock.round = number := by
      intro stock hstock
      have hmem := hperm.mem_iff.mp hstock
      rw [← List.filter_append] at hmem
      simpa using (List.mem_filter.mp hmem).2
    have hsame : (since.filter fun stock => stock.round = number) = since := by
      rw [List.filter_eq_self]
      simpa using hown
    have hlength := hperm.length_eq
    rw [hsame, List.length_append] at hlength
    have hnil : (before.filter fun stock => stock.round = number) = [] :=
      List.length_eq_zero_iff.mp (by omega)
    refine ⟨hown, ?_⟩
    simpa [List.filter_eq_nil_iff] using hnil
  · rintro ⟨hown, hothers⟩
    have hsame : (since.filter fun stock => stock.round = number) = since := by
      rw [List.filter_eq_self]
      simpa using hown
    have hnil : (before.filter fun stock => stock.round = number) = [] := by
      rw [List.filter_eq_nil_iff]
      simpa using hothers
    rw [hsame, hnil, List.nil_append]

theorem notifyLaw_iff_ownArrivals {events : List Event} {event : Event}
    (hscreen : ArrivalHistory events screen)
    (hstep : machine.step screen event = some next) :
    NotifyLaw screen event next ↔ OwnArrivals events event := by
  unfold NotifyLaw OwnArrivals
  refine forall_congr' fun number => forall_congr' fun hevent => ?_
  subst hevent
  cases effect_of_step hstep with
  | notify hready =>
      obtain ⟨round, hround, -⟩ := hready
      have hsorted : (screen.notifyRound number).watchList.Pairwise
          NameOrder :=
        List.pairwise_insertionSort NameOrder screen.watchList
      have hlist : (screen.notifyRound number).watchList.Perm
          (arrivals (sinceLastTick events)) :=
        (List.perm_insertionSort NameOrder screen.watchList).trans
          hscreen.watchList
      have hnext : (screen.notifyRound number).rounds[number]? =
          some round.notify := by
        change (screen.rounds.modify number .notify)[number]? = _
        rw [List.getElem?_modify, hround]
        simp
      have hfetched : (round.notify.fetchedStocks number).Perm
          ((arrivals events).filter fun stock => stock.round = number) :=
        hscreen.fetched number round hround
      rw [← perm_filter_append_iff, ← arrivals_split]
      simp only [hsorted, true_and, hnext, Option.some.injEq,
        forall_eq']
      rw [hlist.congr_left, hfetched.congr_right]

theorem notifyLaw_iff (currentUser : Option String)
    (database : DataSnapshot) {events : List Event}
    {final : ProfileTableViewController}
    (hdeletes : ∀ event ∈ events, NoRowDelete event)
    (hrun : machine.run (launched currentUser database) events =
      some final) :
    machine.AllSteps NotifyLaw (launched currentUser database) events ↔
      EventMachine.AllEvents OwnArrivals events := by
  apply @EventMachine.allSteps_iff_history _ _ machine ArrivalHistory
    NotifyLaw OwnArrivals NoRowDelete
  · exact ArrivalHistory.step
  · intro before state event next hscreen _ hstep
    exact notifyLaw_iff_ownArrivals hscreen hstep
  · exact launched_arrivalHistory currentUser database
  · exact hdeletes
  · exact hrun

theorem notifyLaw_two_rounds :
    machine.AllSteps NotifyLaw
      (launched (some "uid") (oneRecord "AAPL" "Apple Inc"))
      [.viewWillAppear, .snapshot 0, .timerTick 0,
        .response 0 0 (.decoded (.named "AAPL" "Apple Inc")),
        .notification 0, .timerTick 0,
        .response 1 0 (.decoded (.named "AAPL" "Apple Inc")),
        .notification 1] := by
  obtain ⟨final, hrun, -⟩ := Option.map_eq_some_iff.mp
    (show (machine.run
        (launched (some "uid") (oneRecord "AAPL" "Apple Inc"))
        [.viewWillAppear, .snapshot 0, .timerTick 0,
          .response 0 0 (.decoded (.named "AAPL" "Apple Inc")),
          .notification 0, .timerTick 0,
          .response 1 0 (.decoded (.named "AAPL" "Apple Inc")),
          .notification 1]).map (fun _ => ()) = some () by decide)
  apply (notifyLaw_iff _ _ (by simp [NoRowDelete]) hrun).mpr
  rw [show ([.viewWillAppear, .snapshot 0, .timerTick 0,
      .response 0 0 (.decoded (.named "AAPL" "Apple Inc")),
      .notification 0, .timerTick 0,
      .response 1 0 (.decoded (.named "AAPL" "Apple Inc")),
      .notification 1] : List Event) =
    [] ++ [.viewWillAppear] ++ [.snapshot 0] ++ [.timerTick 0] ++
      [.response 0 0 (.decoded (.named "AAPL" "Apple Inc"))] ++
      [.notification 0] ++ [.timerTick 0] ++
      [.response 1 0 (.decoded (.named "AAPL" "Apple Inc"))] ++
      [.notification 1] from rfl]
  simp only [EventMachine.allEvents_concat]
  refine ⟨⟨⟨⟨⟨⟨⟨⟨?_, ?_⟩, ?_⟩, ?_⟩, ?_⟩, ?_⟩, ?_⟩, ?_⟩, ?_⟩
  · simp [EventMachine.AllEvents]
  all_goals rintro number ⟨⟩
  all_goals decide

theorem not_notifyLaw_after_late_responses :
    ¬ machine.AllSteps NotifyLaw
      (launched (some "uid") (oneRecord "AAPL" "Apple Inc"))
      [.viewWillAppear, .snapshot 0, .timerTick 0, .timerTick 0,
        .response 0 0 (.decoded (.named "AAPL" "Apple Inc")),
        .response 1 0 (.decoded (.named "AAPL" "Apple Inc")),
        .notification 0] := by
  intro hall
  obtain ⟨final, hrun, hview⟩ := Option.map_eq_some_iff.mp
    (show (machine.run
        (launched (some "uid") (oneRecord "AAPL" "Apple Inc"))
        [.viewWillAppear, .snapshot 0, .timerTick 0, .timerTick 0,
          .response 0 0 (.decoded (.named "AAPL" "Apple Inc")),
          .response 1 0 (.decoded (.named "AAPL" "Apple Inc")),
          .notification 0]).map
            (fun screen => (screen.watchList.length,
              screen.rounds[0]?.map
                fun round => (round.fetchedStocks 0).length)) =
        some (2, some 1) by decide)
  simp only [Prod.mk.injEq, Option.map_eq_some_iff] at hview
  obtain ⟨hlist, round, hround, hfetched⟩ := hview
  obtain ⟨middle, hmiddle, hstep⟩ :=
    EventMachine.run_concat_eq_some.mp
      (show machine.run _ ([.viewWillAppear, .snapshot 0, .timerTick 0,
        .timerTick 0, .response 0 0 (.decoded (.named "AAPL" "Apple Inc")),
        .response 1 0 (.decoded (.named "AAPL" "Apple Inc"))] ++
          [.notification 0]) = some final from hrun)
  have hperm := (hall.last _ hmiddle hstep 0 rfl).2 round hround
  have hlength := hperm.length_eq
  omega

end ProfileTableViewController
end Stockly
