import Stockly.ProfileSteps

/-!
# The refresh timers of the watch-list screen

Every complete snapshot schedules a repeating timer and overwrites the single
slot in which the screen could find it again, while the screen invalidates
only the timer of the slot.  One timer at a time is what a run has exactly as
long as each timer is scheduled on a visible screen without a timer.
-/

namespace Stockly
namespace ProfileTableViewController

def OneRefreshTimer (screen : ProfileTableViewController) : Prop :=
  screen.timers.length ≤ 1 ∧ (screen.visible = false → screen.timers = [])

def StartsTimer (snapShot : DataSnapshot) : Prop :=
  snapShot ≠ [] ∧ (readSymbols snapShot).2 = true

/-- A snapshot that starts a timer is delivered only while the screen is
visible and no timer is scheduled. -/
def TimerGuard (screen : ProfileTableViewController) (event : Event)
    (_ : ProfileTableViewController) : Prop :=
  ∀ observer, event = .snapshot observer →
    ∀ snapShot, screen.nextSnapshot observer = some snapShot →
      StartsTimer snapShot → screen.visible = true ∧ screen.timers = []

structure TimerInvariant (screen : ProfileTableViewController) : Prop where
  oneTimer : OneRefreshTimer screen
  inSlot : ∀ timer ∈ screen.timers, screen.timer = some timer

theorem TimerInvariant.of_eq {screen next : ProfileTableViewController}
    (hscreen : TimerInvariant screen)
    (htimers : next.timers = screen.timers)
    (htimer : next.timer = screen.timer)
    (hvisible : next.visible = screen.visible) :
    TimerInvariant next := by
  obtain ⟨hone, hslot⟩ := hscreen
  constructor
  · unfold OneRefreshTimer at hone ⊢
    rwa [htimers, hvisible]
  · rwa [htimers, htimer]

theorem TimerInvariant.viewDidDisappear {screen : ProfileTableViewController}
    (hscreen : TimerInvariant screen) :
    TimerInvariant screen.viewDidDisappear := by
  have hempty : screen.viewDidDisappear.timers = [] := by
    cases htimers : screen.timers with
    | nil => cases htimer : screen.timer <;>
        simp [ProfileTableViewController.viewDidDisappear, htimers, htimer]
    | cons timer timers =>
        have hlength := hscreen.oneTimer.1
        rw [htimers, List.length_cons] at hlength
        have hrest : timers = [] := List.length_eq_zero_iff.mp (by omega)
        have hslot : screen.timer = some timer :=
          hscreen.inSlot timer (by simp [htimers])
        simp [ProfileTableViewController.viewDidDisappear, htimers, hrest,
          hslot]
  constructor
  · exact ⟨by simp [hempty], fun _ => hempty⟩
  · simp [hempty]

theorem TimerInvariant.updateStockData {screen : ProfileTableViewController}
    (hvisible : screen.visible = true) (htimers : screen.timers = []) :
    TimerInvariant screen.updateStockData := by
  constructor
  · unfold OneRefreshTimer ProfileTableViewController.updateStockData
    simp [hvisible, htimers]
  · simp [ProfileTableViewController.updateStockData, htimers]

theorem TimerInvariant.step {screen next : ProfileTableViewController}
    {event : Event} (hscreen : TimerInvariant screen)
    (hstep : machine.step screen event = some next)
    (hguard : TimerGuard screen event next) :
    TimerInvariant next := by
  cases effect_of_step hstep with
  | appear observers =>
      exact ⟨⟨hscreen.oneTimer.1, by simp⟩, hscreen.inSlot⟩
  | disappear => exact hscreen.viewDidDisappear
  | fullSnapshot observers hsnapShot hsome hend =>
      obtain ⟨hvisible, htimers⟩ :=
        hguard _ rfl _ hsnapShot ⟨hsome, hend⟩
      exact TimerInvariant.updateStockData hvisible htimers
  | change | emptySnapshot | brokenSnapshot | tick | batch | failure
  | notify | row | rowOutOfRange | deleteSignedOut | deleteOutOfRange
  | deleteInvalidPath | delete | deleteMismatch =>
      exact hscreen.of_eq rfl rfl rfl

theorem timerGuard_of_oneRefreshTimer
    {screen next : ProfileTableViewController} {event : Event}
    (hstep : machine.step screen event = some next)
    (hnext : OneRefreshTimer next) :
    TimerGuard screen event next := by
  rintro observer rfl snapShot hsnapShot ⟨hsome, hend⟩
  cases effect_of_step hstep with
  | emptySnapshot observers hempty =>
      rw [hempty] at hsnapShot
      cases hsnapShot
      contradiction
  | brokenSnapshot observers hbroken _ hopen =>
      rw [hbroken] at hsnapShot
      cases hsnapShot
      rw [hend] at hopen
      contradiction
  | fullSnapshot observers =>
      obtain ⟨hlength, hhidden⟩ := hnext
      simp only [ProfileTableViewController.updateStockData,
        List.length_append, List.length_singleton,
        List.append_eq_nil_iff] at hlength hhidden
      refine ⟨?_, List.length_eq_zero_iff.mp (by omega)⟩
      cases hvisible : screen.visible with
      | true => rfl
      | false => simpa using hhidden hvisible

theorem launched_timerInvariant (currentUser : Option String)
    (database : DataSnapshot) :
    TimerInvariant (launched currentUser database) := by
  constructor <;> simp [OneRefreshTimer, launched]

theorem oneRefreshTimer_iff (currentUser : Option String)
    (database : DataSnapshot) (events : List Event) :
    machine.AllStates OneRefreshTimer
        (launched currentUser database) events ↔
      machine.AllSteps TimerGuard
        (launched currentUser database) events :=
  EventMachine.allStates_iff_guard TimerInvariant.oneTimer
    TimerInvariant.step
    (fun _ hstep hnext => timerGuard_of_oneRefreshTimer hstep hnext)
    (launched_timerInvariant currentUser database) events

def oneRecord (symbol companyName : String) : DataSnapshot :=
  [("-M000000000000000000",
    savedObject (.named symbol companyName) "-M000000000000000000")]

theorem not_oneRefreshTimer_after_change :
    ¬ machine.AllStates OneRefreshTimer
        (launched (some "uid") (oneRecord "AAPL" "Apple Inc"))
        [.viewWillAppear, .snapshot 0,
          .databaseChange (oneRecord "TSLA" "Tesla Inc"), .snapshot 0] := by
  intro hall
  obtain ⟨final, hrun, htimers⟩ := Option.map_eq_some_iff.mp
    (show (machine.run
        (launched (some "uid") (oneRecord "AAPL" "Apple Inc"))
        [.viewWillAppear, .snapshot 0,
          .databaseChange (oneRecord "TSLA" "Tesla Inc"),
          .snapshot 0]).map (fun screen => screen.timers.length) = some 2
      by decide)
  have hone := (hall.of_run hrun).1
  omega

end ProfileTableViewController
end Stockly
