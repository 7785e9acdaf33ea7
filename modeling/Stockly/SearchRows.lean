import Stockly.SearchViewController

/-!
# The rows of the search table

A response replaces the results at once and the table learns of it only when
the main queue gets to the reload.  The rows stay right exactly as long as
every response agrees with the rows it meets.
-/

namespace Stockly
namespace SearchViewController

variable {screen next : SearchViewController}

/-- Every row the table was last given is the result at its index, no index
has been out of range, and selecting a row opens the stock it shows. -/
structure RowsAgree (screen : SearchViewController) : Prop where
  backed : screen.table.Backed screen.searchResults
  inRange : screen.outOfRange = false
  opens : ∀ row next, machine.step screen (.rowSelect row) = some next →
    next.destinationStock = screen.table.shown row

/-- Each successful response brings a stock for every row of the table, and
for a row that is on the screen the stock it shows. -/
def RowGuard (screen : SearchViewController) (event : Event)
    (_ : SearchViewController) : Prop :=
  ∀ number transport results, event = .response number transport →
    DataGetter.outcome transport = .ok results →
      screen.table.numberOfRows ≤ results.length ∧
        ∀ row visible, screen.table.shown row = some visible →
          results[row]? = some visible

theorem rowsAgree_of_backed
    (hbacked : screen.table.Backed screen.searchResults)
    (hrange : screen.outOfRange = false) :
    RowsAgree screen := by
  refine ⟨hbacked, hrange, fun row next hstep => ?_⟩
  cases effect_of_step hstep with
  | select hshown hstock =>
      have hvisible := hbacked.eq_of_shown hshown
      rw [hstock] at hvisible
      rw [hshown]
      exact hvisible
  | selectOutOfRange hshown hstock =>
      have hvisible := hbacked.eq_of_shown hshown
      rw [hstock] at hvisible
      contradiction

theorem RowsAgree.step {event : Event} (hscreen : RowsAgree screen)
    (hstep : machine.step screen event = some next)
    (hguard : RowGuard screen event next) :
    RowsAgree next := by
  obtain ⟨hbacked, hrange, -⟩ := hscreen
  cases effect_of_step hstep with
  | results hflight hresults =>
      have hnew := RowTable.backed_iff.mpr (hguard _ _ _ rfl hresults)
      exact rowsAgree_of_backed hnew hrange
  | reload hqueue =>
      exact rowsAgree_of_backed (RowTable.backed_reloadData _) hrange
  | row hrow hstock =>
      exact rowsAgree_of_backed (hbacked.display hstock) hrange
  | rowOutOfRange hrow hstock =>
      obtain ⟨stock, hsome⟩ := hbacked.exists_element hrow
      rw [hstock] at hsome
      contradiction
  | selectOutOfRange hshown hstock =>
      have hvisible := hbacked.eq_of_shown hshown
      rw [hstock] at hvisible
      contradiction
  | beginEditing | clear | edit | search | cancel | skip | request | failure
  | alert | select => exact rowsAgree_of_backed hbacked hrange

theorem rowGuard_of_rowsAgree {event : Event}
    (hstep : machine.step screen event = some next)
    (hnext : RowsAgree next) :
    RowGuard screen event next := by
  rintro number transport results rfl hresults
  cases effect_of_step hstep with
  | failure hflight herror =>
      rw [hresults] at herror
      contradiction
  | results hflight hother =>
      rw [hresults, Except.ok.injEq] at hother
      subst hother
      exact RowTable.backed_iff.mp hnext.backed

theorem searchRowsAgree_iff (events : List Event) :
    machine.AllStates RowsAgree launched events ↔
      machine.AllSteps RowGuard launched events := by
  apply EventMachine.allStates_iff_guard id RowsAgree.step
  · intro screen event next _ hstep hnext
    exact rowGuard_of_rowsAgree hstep hnext
  · apply rowsAgree_of_backed _ rfl
    exact RowTable.backed_of_numberOfRows_eq_zero rfl

def appleResult : SearchStock :=
  { symbol := "AAPL", securityName := "Apple Inc", region := "US",
    exchange := "NAS" }

theorem not_rowsAgree_after_shorter_results :
    ¬ machine.AllStates RowsAgree launched
      [.textDidChange (some "a"), .makeSearchRequest,
        .response 0 (.decoded [appleResult]), .mainBlock,
        .textDidChange (some "ab"), .makeSearchRequest,
        .response 1 (.decoded [])] := by
  intro hall
  have hrun : machine.run launched
      [.textDidChange (some "a"), .makeSearchRequest,
        .response 0 (.decoded [appleResult]), .mainBlock,
        .textDidChange (some "ab"), .makeSearchRequest,
        .response 1 (.decoded [])] =
      some
        { launched with
          enteredText := "ab"
          text := some "ab"
          requests := [⟨"a", some (some [appleResult], none)⟩,
            ⟨"ab", some (some [], none)⟩]
          mainQueue := [.reloadData]
          table := .reloadData 1 } := by
    decide
  have hle := (hall.of_run hrun).backed.numberOfRows_le
  contradiction

end SearchViewController
end Stockly
