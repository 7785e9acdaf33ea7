import Stockly.FetchCalls
import Stockly.SectorStockController

/-!
# The controllers and their fetch operations

`StockController` has four fetch operations, `ProfileController` and the three
sector controllers have one each.  Each is given by what it decodes and which
variables its closure assigns.
-/

namespace Stockly

structure Stock where
  symbol : String
  companyName : String
  latestPrice : Option Double
  «open» : Option Double
  close : Option Double
  high : Option Double
deriving DecidableEq, Repr

/-! ## StockController -/

structure StockController where
  stocks : List Stock
  quote : Option Quote
  news : List News
  chart : List Chart
  stock : Option Stock
  stockBatch : Option Batch
  stockLogoURL : Option String
  searchStocks : List SearchStock
deriving DecidableEq, Repr

namespace StockController

def new : StockController :=
  { stocks := [], quote := none, news := [], chart := [], stock := none,
    stockBatch := none, stockLogoURL := none, searchStocks := [] }

inductive Fetch where
  | fetchSector
  | fetchStock (stock : String)
  | fetchLogo (stock : String)
  | searchStock (searchTerm : String)
deriving DecidableEq, Repr

def interface : FetchInterface StockController where
  Fetch := Fetch
  Decoded
    | .fetchSector => List Stock
    | .fetchStock _ => Batch
    | .fetchLogo _ => Logo
    | .searchStock _ => List SearchStock
  store
    | .fetchSector, data, controller => { controller with stocks := data }
    | .fetchStock _, data, controller =>
        { controller with
          quote := some (Batch.quote data)
          news := Batch.news data
          chart := Batch.chart data }
    | .fetchLogo _, data, controller =>
        { controller with stockLogoURL := some (Logo.url data) }
    | .searchStock _, _, controller => controller
  passesValue
    | .searchStock _ => true
    | _ => false

instance : DecidableEq interface.Fetch := inferInstanceAs (DecidableEq Fetch)

end StockController

/-! ## ProfileController -/

/-- The controller has no variables of its own. -/
structure ProfileController where
deriving DecidableEq, Repr

namespace ProfileController

inductive Fetch where
  | fetchStock (stock : String)
deriving DecidableEq, Repr

def interface : FetchInterface ProfileController where
  Fetch := Fetch
  Decoded _ := Batch
  store _ _ controller := controller
  passesValue _ := true

instance : DecidableEq interface.Fetch := inferInstanceAs (DecidableEq Fetch)

end ProfileController

/-! ## The sector controllers -/

namespace SectorLayout

variable {Root Slot : Type}

def interface (layout : SectorLayout Root Slot) :
    FetchInterface (SectorStockController Slot) where
  Fetch := Unit
  Decoded _ := Root
  store _ root controller :=
    { controller with stock := fun slot => some (layout.assign root slot) }
  passesValue _ := false

instance (layout : SectorLayout Root Slot) :
    DecidableEq layout.interface.Fetch :=
  inferInstanceAs (DecidableEq Unit)

/-- The fetch of the Home table is this operation, with a completion that goes
on to collect the variables. -/
theorem fetchStocks_eq_interface (layout : SectorLayout Root Slot)
    (completion : Option FetchError →
      SectorStockController Slot × ReloadQueue →
        SectorStockController Slot × ReloadQueue)
    (transport : Transport Root)
    (state : SectorStockController Slot × ReloadQueue) :
    SectorStockController.fetchStocks layout completion transport state =
      DataGetter.fetchDecoded
        (fun root state => (layout.interface.store () root state.1, state.2))
        (fun error _ state => completion error state) transport state := rfl

end SectorLayout

/-! ## One response -/

open FetchInterface

namespace StockController

def asBatch : (fetch : Fetch) → interface.Decoded fetch → Option Batch
  | .fetchStock _, batch => some batch
  | _, _ => none

def asStocks : (fetch : Fetch) → interface.Decoded fetch →
    Option (List Stock)
  | .fetchSector, stocks => some stocks
  | _, _ => none

def asLogo : (fetch : Fetch) → interface.Decoded fetch → Option Logo
  | .fetchLogo _, logo => some logo
  | _, _ => none

/-- Quote, news and chart come from one batch, the last one that arrived, and
every other variable from the last response it belongs to. -/
structure FromLast (events : List interface.Event)
    (controller : StockController) : Prop where
  batch : (controller.quote, controller.news, controller.chart) =
    match lastAnswer asBatch events with
    | none => (none, [], [])
    | some batch => (some batch.quote, batch.news, batch.chart)
  stocks : controller.stocks = (lastAnswer asStocks events).getD []
  stockLogoURL :
    controller.stockLogoURL = (lastAnswer asLogo events).map Logo.url

theorem fromLast_run {events : List interface.Event}
    {session : interface.Session}
    (hrun : interface.machine.run (.new .new) events = some session) :
    FromLast events session.controller := by
  constructor
  · have hbatch := read_run asBatch
      (fun batch => (some batch.quote, batch.news, batch.chart))
      (fun controller => (controller.quote, controller.news, controller.chart))
      (by rintro (_ | _ | _ | _) value controller <;> rfl) hrun
    rw [hbatch]
    cases lastAnswer asBatch events <;> rfl
  · have hstocks := read_run asStocks id StockController.stocks
      (by rintro (_ | _ | _ | _) value controller <;> rfl) hrun
    rw [hstocks, Option.map_id]
    rfl
  · have hlogo := read_run asLogo (fun logo => some logo.url)
      StockController.stockLogoURL
      (by rintro (_ | _ | _ | _) value controller <;> rfl) hrun
    rw [hlogo]
    cases lastAnswer asLogo events <;> rfl

end StockController

namespace SectorLayout

variable {Root Slot : Type} {layout : SectorLayout Root Slot}

def asRoot (_ : layout.interface.Fetch) (root : Root) : Option Root :=
  some root

theorem stock_run {events : List layout.interface.Event}
    {session : layout.interface.Session}
    (hrun : layout.interface.machine.run (.new .new) events = some session)
    (slot : Slot) :
    session.controller.stock slot =
      (lastAnswer asRoot events).map fun root => layout.assign root slot := by
  have hstock := read_run asRoot
    (fun root slot => some (layout.assign root slot))
    SectorStockController.stock
    (by
      intro fetch root controller
      rfl) hrun
  rw [hstock]
  cases lastAnswer asRoot events <;> rfl

end SectorLayout

/-! ## Every fetch operation -/

/-- On each of the five controllers, in every sequence of calls and responses:
the completions run exactly once, a failed call changes nothing, and the
variables come together from the last successful response. -/
theorem fetches_run :
    (∀ events session,
      StockController.interface.machine.run (.new .new) events =
          some session →
        FetchesRight events session ∧
          StockController.FromLast events session.controller) ∧
    (∀ events session,
      ProfileController.interface.machine.run (.new ⟨⟩) events =
          some session →
        FetchesRight events session) ∧
    (∀ events session,
      TechStockController.layout.interface.machine.run (.new .new) events =
          some session →
        FetchesRight events session ∧
          ∀ slot, session.controller.stock slot =
            (lastAnswer SectorLayout.asRoot events).map fun root =>
              TechStockController.layout.assign root slot) ∧
    (∀ events session,
      HealthStockController.layout.interface.machine.run (.new .new) events =
          some session →
        FetchesRight events session ∧
          ∀ slot, session.controller.stock slot =
            (lastAnswer SectorLayout.asRoot events).map fun root =>
              HealthStockController.layout.assign root slot) ∧
    (∀ events session,
      IndustrialStockController.layout.interface.machine.run (.new .new)
          events = some session →
        FetchesRight events session ∧
          ∀ slot, session.controller.stock slot =
            (lastAnswer SectorLayout.asRoot events).map fun root =>
              IndustrialStockController.layout.assign root slot) := by
  refine ⟨?_, ?_, ?_, ?_, ?_⟩
  · intro events session hrun
    exact ⟨fetchesRight_run hrun, StockController.fromLast_run hrun⟩
  · intro events session hrun
    exact fetchesRight_run hrun
  · intro events session hrun
    exact ⟨fetchesRight_run hrun, SectorLayout.stock_run hrun⟩
  · intro events session hrun
    exact ⟨fetchesRight_run hrun, SectorLayout.stock_run hrun⟩
  · intro events session hrun
    exact ⟨fetchesRight_run hrun, SectorLayout.stock_run hrun⟩

theorem fetches_after_failed_logo :
    ∃ session, StockController.interface.machine.run (.new .new)
        [.call (.fetchStock "AAPL"), .call (.fetchLogo "AAPL"),
          .response 1 (.fetchLogo "AAPL")
            (.failed "The request timed out."),
          .response 0 (.fetchStock "AAPL")
            (.decoded (Batch.named "AAPL" "Apple Inc"))] = some session ∧
      StockController.FromLast
        [.call (.fetchStock "AAPL"), .call (.fetchLogo "AAPL"),
          .response 1 (.fetchLogo "AAPL")
            (.failed "The request timed out."),
          .response 0 (.fetchStock "AAPL")
            (.decoded (Batch.named "AAPL" "Apple Inc"))]
        session.controller := by
  obtain ⟨session, hrun, -⟩ := Option.map_eq_some_iff.mp
    (show (StockController.interface.machine.run (.new .new)
        [.call (.fetchStock "AAPL"), .call (.fetchLogo "AAPL"),
          .response 1 (.fetchLogo "AAPL")
            (.failed "The request timed out."),
          .response 0 (.fetchStock "AAPL")
            (.decoded (Batch.named "AAPL" "Apple Inc"))]).map
              (fun session => session.completions.length) = some 2
      by decide)
  exact ⟨session, hrun, (fetches_run.1 _ session hrun).2⟩

end Stockly
