import Stockly.EventMachine
import Stockly.RowTable
import Stockly.SectorStockController

/-!
# The Home table

Three sector fetches replace the array of their section on the network queue
and leave the reload of the table to the main queue.  The screen refines a
much smaller machine, which only remembers the last successful response of
each sector: the arrays are its shelves, and they never lose a row.
-/

namespace Stockly

structure IndexPath where
  sectionNumber : ℕ
  row : ℕ
deriving DecidableEq, Repr

structure HomeTableViewController where
  techStockController : SectorStockController TechStockController.Slot
  healthStockController : SectorStockController HealthStockController.Slot
  industrialStockController :
    SectorStockController IndustrialStockController.Slot
  mainQueue : ReloadQueue
  table : ℕ → RowTable Batch
  destinationStock : Option Batch
  outOfRange : Bool

namespace HomeTableViewController

def launched : HomeTableViewController :=
  { techStockController := .new, healthStockController := .new,
    industrialStockController := .new, mainQueue := [],
    table := fun _ => .reloadData 0, destinationStock := none,
    outOfRange := false }

/-! ## The fetches -/

def fetchTechStocks (transport : Transport TechRoot)
    (screen : HomeTableViewController) : HomeTableViewController :=
  let state := TechStockController.fetchTechStocks
    (SectorStockController.collectStocks TechStockController.layout)
    transport (screen.techStockController, screen.mainQueue)
  { screen with techStockController := state.1, mainQueue := state.2 }

def fetchHealthStocks (transport : Transport HealthRoot)
    (screen : HomeTableViewController) : HomeTableViewController :=
  let state := HealthStockController.fetchHealthStocks
    (SectorStockController.collectStocks HealthStockController.layout)
    transport (screen.healthStockController, screen.mainQueue)
  { screen with healthStockController := state.1, mainQueue := state.2 }

def fetchIndustrialStocks (transport : Transport IndustrialRoot)
    (screen : HomeTableViewController) : HomeTableViewController :=
  let state := IndustrialStockController.fetchIndustrialStocks
    (SectorStockController.collectStocks IndustrialStockController.layout)
    transport (screen.industrialStockController, screen.mainQueue)
  { screen with industrialStockController := state.1, mainQueue := state.2 }

/-! ## The table -/

def numberOfSections : ℕ := 3

/-- The array of a section; every section after the second is the third. -/
def sectionStocks (sectionNumber : ℕ) (screen : HomeTableViewController) :
    List Batch :=
  if sectionNumber = 0 then screen.techStockController.stocks
  else if sectionNumber = 1 then screen.healthStockController.stocks
  else screen.industrialStockController.stocks

def numberOfRowsInSection (sectionNumber : ℕ)
    (screen : HomeTableViewController) : ℕ :=
  (screen.sectionStocks sectionNumber).length

/-- `stockFor(indexPath:)`; `none` is an index out of range. -/
def stockFor (indexPath : IndexPath) (screen : HomeTableViewController) :
    Option Batch :=
  (screen.sectionStocks indexPath.sectionNumber)[indexPath.row]?

def reloadData (screen : HomeTableViewController) :
    HomeTableViewController :=
  { screen with
    table := fun sectionNumber =>
      .reloadData (screen.numberOfRowsInSection sectionNumber) }

def cellForRowAt (indexPath : IndexPath) (screen : HomeTableViewController) :
    HomeTableViewController :=
  match screen.stockFor indexPath with
  | none => { screen with outOfRange := true }
  | some stock =>
      { screen with
        table := Function.update screen.table indexPath.sectionNumber
          ((screen.table indexPath.sectionNumber).display indexPath.row
            stock) }

def prepare (indexPath : IndexPath) (screen : HomeTableViewController) :
    HomeTableViewController :=
  match screen.stockFor indexPath with
  | none => { screen with outOfRange := true }
  | some stock => { screen with destinationStock := some stock }

def HasRow (indexPath : IndexPath) (screen : HomeTableViewController) :
    Prop :=
  indexPath.sectionNumber < numberOfSections ∧
    indexPath.row < (screen.table indexPath.sectionNumber).numberOfRows

instance (indexPath : IndexPath) (screen : HomeTableViewController) :
    Decidable (screen.HasRow indexPath) :=
  inferInstanceAs (Decidable (_ ∧ _))

/-! ## Runs -/

inductive Event where
  | techResponse (transport : Transport TechRoot)
  | healthResponse (transport : Transport HealthRoot)
  | industrialResponse (transport : Transport IndustrialRoot)
  | mainBlock
  | rowRequest (indexPath : IndexPath)
  | rowSelect (indexPath : IndexPath)

/-- A sector can be fetched any number of times, so its responses may always
come. -/
def handle (screen : HomeTableViewController) :
    Event → Option HomeTableViewController
  | .techResponse transport => some (screen.fetchTechStocks transport)
  | .healthResponse transport => some (screen.fetchHealthStocks transport)
  | .industrialResponse transport =>
      some (screen.fetchIndustrialStocks transport)
  | .mainBlock =>
      match screen.mainQueue with
      | [] => none
      | _ :: rest => some (reloadData { screen with mainQueue := rest })
  | .rowRequest indexPath =>
      if screen.HasRow indexPath then some (screen.cellForRowAt indexPath)
      else none
  | .rowSelect indexPath =>
      if screen.HasRow indexPath then some (screen.prepare indexPath)
      else none

def machine : EventMachine HomeTableViewController Event where
  step screen event :=
    if screen.outOfRange then none else screen.handle event

end HomeTableViewController

/-! ## The last responses -/

/-- What the Home table is for: it shows the last successful response of each
sector, if there was one. -/
structure LastResponses where
  tech : Option TechRoot
  health : Option HealthRoot
  industrial : Option IndustrialRoot

namespace LastResponses

inductive Event where
  | tech (root : TechRoot)
  | health (root : HealthRoot)
  | industrial (root : IndustrialRoot)

def none : LastResponses :=
  { tech := .none, health := .none, industrial := .none }

def machine : EventMachine LastResponses Event where
  step last
    | .tech root => some { last with tech := some root }
    | .health root => some { last with health := some root }
    | .industrial root => some { last with industrial := some root }

structure Received (events : List Event) (last : LastResponses) : Prop where
  tech : ∀ root, last.tech = some root → .tech root ∈ events
  health : ∀ root, last.health = some root → .health root ∈ events
  industrial : ∀ root, last.industrial = some root → .industrial root ∈ events

theorem Received.step {events : List Event} {event : Event}
    {last next : LastResponses} (hlast : Received events last)
    (hstep : machine.step last event = some next) :
    Received (events ++ [event]) next := by
  have hold : ∀ other, other ∈ events → other ∈ events ++ [event] :=
    fun other hother => List.mem_append_left [event] hother
  cases event with
  | tech root =>
      cases hstep
      refine ⟨fun other hother => ?_,
        fun other hother => hold _ (hlast.health other hother),
        fun other hother => hold _ (hlast.industrial other hother)⟩
      cases hother
      exact List.mem_append_right events List.mem_cons_self
  | health root =>
      cases hstep
      refine ⟨fun other hother => hold _ (hlast.tech other hother),
        fun other hother => ?_,
        fun other hother => hold _ (hlast.industrial other hother)⟩
      cases hother
      exact List.mem_append_right events List.mem_cons_self
  | industrial root =>
      cases hstep
      refine ⟨fun other hother => hold _ (hlast.tech other hother),
        fun other hother => hold _ (hlast.health other hother),
        fun other hother => ?_⟩
      cases hother
      exact List.mem_append_right events List.mem_cons_self

theorem received_run {events : List Event} {last : LastResponses}
    (hrun : machine.run none events = some last) :
    Received events last := by
  refine EventMachine.history_run Received.step ?_ hrun
  constructor <;> intro root hroot <;> contradiction

end LastResponses

end Stockly
