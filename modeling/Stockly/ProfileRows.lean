import Stockly.ProfileTimer

/-!
# The rows of the watch-list table

The table learns of a new watch list only from the notification block and
from a delete, but a tick empties the list at once and every response adds to
it.  The table agrees with the list exactly as long as both happen while it
has no rows.
-/

namespace Stockly
namespace ProfileTableViewController

/-- Every row the table was last given is an element of the list and shows
it, removing the element of a row leaves the number of rows which
`deleteRows` requires, and the app did not go down over a row. -/
structure RowsAgree (screen : ProfileTableViewController) : Prop where
  backed : screen.table.Backed screen.watchList
  afterRemove : ∀ row, row < screen.table.numberOfRows →
    (screen.watchList.eraseIdx row).length =
      screen.table.numberOfRows - 1
  noIndexOutOfRange : screen.crash ≠ some .indexOutOfRange
  noInvalidNumberOfRows : screen.crash ≠ some .invalidNumberOfRows

/-- Ticks fire and stocks arrive only while the table has no rows. -/
def RowGuard (screen : ProfileTableViewController) (event : Event)
    (_ : ProfileTableViewController) : Prop :=
  (∀ timer, event = .timerTick timer → screen.table.numberOfRows = 0) ∧
    ∀ number slot transport batch,
      event = .response number slot transport →
        DataGetter.outcome transport = .ok batch →
          screen.table.numberOfRows = 0

variable {screen next : ProfileTableViewController}

theorem RowsAgree.eq_of_shown (hscreen : RowsAgree screen) {row : ℕ}
    {visible : FetchedStock} (hshown : screen.table.shown row = some visible) :
    screen.watchList[row]? = some visible :=
  hscreen.backed.eq_of_shown hshown

theorem RowsAgree.length_eq (hscreen : RowsAgree screen)
    (hrows : screen.table.numberOfRows ≠ 0) :
    screen.watchList.length = screen.table.numberOfRows := by
  have hle := hscreen.backed.numberOfRows_le
  have hafter := hscreen.afterRemove 0 (by omega)
  rw [List.length_eraseIdx_of_lt (by omega)] at hafter
  omega

theorem rowsAgree_of_noRows (hrows : screen.table.numberOfRows = 0)
    (hcrash : screen.crash = none) : RowsAgree screen := by
  constructor
  · exact RowTable.backed_of_numberOfRows_eq_zero hrows
  · intro row hrow
    omega
  · simp [hcrash]
  · simp [hcrash]

theorem RowsAgree.of_eq (hscreen : RowsAgree screen)
    (hlist : next.watchList = screen.watchList)
    (htable : next.table = screen.table)
    (hcrash : next.crash = screen.crash ∨ next.crash = some .invalidPath) :
    RowsAgree next := by
  obtain ⟨hbacked, hafter, hindex, hnumber⟩ := hscreen
  constructor
  · rwa [hlist, htable]
  · rwa [hlist, htable]
  · rcases hcrash with hcrash | hcrash <;> rw [hcrash]
    · exact hindex
    · simp
  · rcases hcrash with hcrash | hcrash <;> rw [hcrash]
    · exact hnumber
    · simp

theorem rowsAgree_notifyRound (number : ℕ) (hcrash : screen.crash = none) :
    RowsAgree (screen.notifyRound number) := by
  have hlength : (screen.notifyRound number).watchList.length =
      screen.watchList.length :=
    (List.perm_insertionSort NameOrder screen.watchList).length_eq
  have htable : (screen.notifyRound number).table =
      .reloadData (screen.notifyRound number).watchList.length := by
    rw [hlength]
    rfl
  constructor
  · rw [htable]
    exact RowTable.backed_reloadData _
  · intro row hrow
    rw [htable, RowTable.numberOfRows_reloadData] at hrow ⊢
    exact List.length_eraseIdx_of_lt hrow
  · simp [notifyRound, hcrash]
  · simp [notifyRound, hcrash]

theorem RowsAgree.cellForRowAt (hscreen : RowsAgree screen) {row : ℕ}
    {stock : FetchedStock} (hstock : screen.watchList[row]? = some stock) :
    RowsAgree { screen with table := screen.table.display row stock } := by
  obtain ⟨hbacked, hafter, hindex, hnumber⟩ := hscreen
  exact ⟨hbacked.display hstock, by simpa using hafter, hindex, hnumber⟩

theorem RowsAgree.deleteRow (hscreen : RowsAgree screen) {row : ℕ}
    (hrow : row < screen.table.numberOfRows) (alerts : List Alert)
    (database : DataSnapshot) (observers : List (List DataSnapshot)) :
    RowsAgree
      { screen with
        watchList := screen.watchList.eraseIdx row
        table := screen.table.deleteRow row
        alerts := alerts, database := database, observers := observers } := by
  have hlength := hscreen.afterRemove row hrow
  constructor
  · exact hscreen.backed.deleteRow hrow
  · intro other hother
    rw [RowTable.numberOfRows_deleteRow hrow] at hother ⊢
    have hlt : other < (screen.watchList.eraseIdx row).length := by omega
    rw [List.length_eraseIdx_of_lt hlt, hlength]
  · exact hscreen.noIndexOutOfRange
  · exact hscreen.noInvalidNumberOfRows

theorem RowsAgree.step {event : Event} (hscreen : RowsAgree screen)
    (hstep : machine.step screen event = some next)
    (hguard : RowGuard screen event next) :
    RowsAgree next := by
  have hcrash : screen.crash = none := (machine_step_eq_some.mp hstep).1
  cases effect_of_step hstep with
  | tick hlive =>
      exact rowsAgree_of_noRows (hguard.1 _ rfl) hcrash
  | batch hflight hbatch =>
      exact rowsAgree_of_noRows (hguard.2 _ _ _ _ rfl hbatch) hcrash
  | notify hready => exact rowsAgree_notifyRound _ hcrash
  | row hrow hstock => exact hscreen.cellForRowAt hstock
  | rowOutOfRange hrow hstock =>
      obtain ⟨stock, hsome⟩ := hscreen.backed.exists_element hrow
      rw [hstock] at hsome
      contradiction
  | deleteOutOfRange hrow hstock =>
      obtain ⟨stock, hsome⟩ := hscreen.backed.exists_element hrow
      rw [hstock] at hsome
      contradiction
  | delete alerts database observers hrow =>
      exact hscreen.deleteRow hrow alerts database observers
  | deleteMismatch alerts database observers hrow _ hcount =>
      exact absurd (hscreen.length_eq (by omega)) hcount
  | deleteInvalidPath => exact hscreen.of_eq rfl rfl (.inr rfl)
  | appear | disappear | change | emptySnapshot | brokenSnapshot
  | fullSnapshot | failure | deleteSignedOut =>
      exact hscreen.of_eq rfl rfl (.inl rfl)

theorem rowGuard_of_rowsAgree {event : Event} (hscreen : RowsAgree screen)
    (hstep : machine.step screen event = some next)
    (hnext : RowsAgree next) :
    RowGuard screen event next := by
  constructor
  · rintro timer rfl
    cases effect_of_step hstep with
    | tick hlive => exact RowTable.backed_nil_iff.mp hnext.backed
  · rintro number slot transport batch rfl hbatch
    cases effect_of_step hstep with
    | failure hflight herror =>
        rw [hbatch] at herror
        contradiction
    | batch hflight =>
        -- one more stock than rows
        by_contra hrows
        have hbefore := hscreen.length_eq hrows
        have hafter := hnext.length_eq hrows
        simp only [List.length_append, List.length_singleton] at hafter
        omega

theorem rowsAgree_iff (currentUser : Option String)
    (database : DataSnapshot) (events : List Event) :
    machine.AllStates RowsAgree (launched currentUser database) events ↔
      machine.AllSteps RowGuard
        (launched currentUser database) events :=
  EventMachine.allStates_iff_guard id RowsAgree.step rowGuard_of_rowsAgree
    (rowsAgree_of_noRows rfl rfl) events

theorem not_rowsAgree_after_second_tick :
    ¬ machine.AllStates RowsAgree
        (launched (some "uid") (oneRecord "AAPL" "Apple Inc"))
        [.viewWillAppear, .snapshot 0, .timerTick 0,
          .response 0 0 (.decoded (.named "AAPL" "Apple Inc")),
          .notification 0, .timerTick 0] := by
  intro hall
  obtain ⟨final, hrun, hrows⟩ := Option.map_eq_some_iff.mp
    (show (machine.run
        (launched (some "uid") (oneRecord "AAPL" "Apple Inc"))
        [.viewWillAppear, .snapshot 0, .timerTick 0,
          .response 0 0 (.decoded (.named "AAPL" "Apple Inc")),
          .notification 0, .timerTick 0]).map
            (fun screen =>
              (screen.table.numberOfRows, screen.watchList.length)) =
        some (1, 0) by decide)
  have hle := (hall.of_run hrun).backed.numberOfRows_le
  simp only [Prod.mk.injEq] at hrows
  omega

end ProfileTableViewController
end Stockly
