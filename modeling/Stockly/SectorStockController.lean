import Stockly.Collection
import Stockly.DataGetter

/-!
# The three sector controllers

The controllers of the technology, health and industrial sections differ only
in the fields of their response, in the variables these go to and in the order
in which the Home table collects the variables.  The layout of a sector is
these three things; fetching and collecting are one definition each.
-/

namespace Stockly

/-! ## The responses -/

structure TechRoot where
  AAPL : Batch
  TSLA : Batch
  FB : Batch
  AMZN : Batch
  BABA : Batch
deriving DecidableEq, Repr

structure HealthRoot where
  CELG : Batch
  TEVA : Batch
  ALXN : Batch
  ALGN : Batch
  ANTM : Batch
deriving DecidableEq, Repr

structure IndustrialRoot where
  HEI : Batch
  DHR : Batch
  TDG : Batch
  ZBRA : Batch
  SWK : Batch
deriving DecidableEq, Repr

/-! ## Layouts -/

/-- What the decoding closure assigns to each variable, and the order of the
array literal in the Home table. -/
structure SectorLayout (Root Slot : Type) where
  assign : Root → Slot → Batch
  order : List Slot

structure SectorStockController (Slot : Type) where
  stock : Slot → Option Batch
  stocks : List Batch

/-- The blocks waiting on the main queue; each reloads the Home table, after
printing an error if there is one. -/
abbrev ReloadQueue := List (Option FetchError)

namespace SectorStockController

variable {Root Slot : Type}

def new : SectorStockController Slot :=
  { stock := fun _ => none, stocks := [] }

def fetchStocks (layout : SectorLayout Root Slot)
    (completion : Option FetchError →
      SectorStockController Slot × ReloadQueue →
        SectorStockController Slot × ReloadQueue)
    (transport : Transport Root)
    (state : SectorStockController Slot × ReloadQueue) :
    SectorStockController Slot × ReloadQueue :=
  DataGetter.fetchDecoded
    (fun root state =>
      ({ state.1 with stock := fun slot => some (layout.assign root slot) },
        state.2))
    (fun error _ state => completion error state)
    transport state

/-- The completion of the Home table: it returns unless all variables are
set, and otherwise collects them and asks for a reload, also after an
error. -/
def collectStocks (layout : SectorLayout Root Slot) (error : Option FetchError)
    (state : SectorStockController Slot × ReloadQueue) :
    SectorStockController Slot × ReloadQueue :=
  match layout.order.mapM state.1.stock with
  | none => state
  | some stocks => ({ state.1 with stocks := stocks }, state.2 ++ [error])

end SectorStockController

/-! ## The members -/

namespace TechStockController

inductive Slot where
  | appleStock
  | fbStock
  | amazonStock
  | teslaStock
  | babaStock
deriving DecidableEq, Repr

def layout : SectorLayout TechRoot Slot where
  assign root
    | .appleStock => root.AAPL
    | .teslaStock => root.TSLA
    | .amazonStock => root.AMZN
    | .fbStock => root.FB
    | .babaStock => root.BABA
  order := [.appleStock, .teslaStock, .amazonStock, .fbStock, .babaStock]

def fetchTechStocks := SectorStockController.fetchStocks layout

end TechStockController

namespace HealthStockController

inductive Slot where
  | celgStock
  | tevaStock
  | alxnStock
  | algnStock
  | antmStock
deriving DecidableEq, Repr

def layout : SectorLayout HealthRoot Slot where
  assign root
    | .algnStock => root.ALGN
    | .tevaStock => root.TEVA
    | .alxnStock => root.ALXN
    | .celgStock => root.CELG
    | .antmStock => root.ANTM
  order := [.celgStock, .algnStock, .alxnStock, .antmStock, .tevaStock]

def fetchHealthStocks := SectorStockController.fetchStocks layout

end HealthStockController

namespace IndustrialStockController

inductive Slot where
  | heiStock
  | dhrStock
  | tdgStock
  | zbraStock
  | swkStock
deriving DecidableEq, Repr

def layout : SectorLayout IndustrialRoot Slot where
  assign root
    | .heiStock => root.HEI
    | .dhrStock => root.DHR
    | .tdgStock => root.TDG
    | .zbraStock => root.ZBRA
    | .swkStock => root.SWK
  order := [.heiStock, .dhrStock, .tdgStock, .zbraStock, .swkStock]

def fetchIndustrialStocks := SectorStockController.fetchStocks layout

end IndustrialStockController

/-! ## What a controller holds -/

namespace SectorLayout

variable {Root Slot : Type}

def shelf (layout : SectorLayout Root Slot) : Option Root → List Batch
  | none => []
  | some root => layout.order.map (layout.assign root)

structure Holds (layout : SectorLayout Root Slot) (last : Option Root)
    (controller : SectorStockController Slot) : Prop where
  stock : ∀ slot, controller.stock slot =
    last.map fun root => layout.assign root slot
  stocks : controller.stocks = layout.shelf last

def lastResponse (transport : Transport Root) (last : Option Root) :
    Option Root :=
  match DataGetter.outcome transport with
  | .ok root => some root
  | .error _ => last

variable {layout : SectorLayout Root Slot} {last : Option Root}
  {controller : SectorStockController Slot}

theorem holds_new (layout : SectorLayout Root Slot) :
    layout.Holds none .new := ⟨fun _ => rfl, rfl⟩

theorem holds_collectStocks (error : Option FetchError)
    (queue : ReloadQueue)
    (hstock : ∀ slot, controller.stock slot =
      last.map fun root => layout.assign root slot)
    (hstocks : last = none → controller.stocks = []) :
    layout.Holds last
      (SectorStockController.collectStocks layout error
        (controller, queue)).1 := by
  have hvariables : controller.stock =
      fun slot => last.map fun root => layout.assign root slot :=
    funext hstock
  unfold SectorStockController.collectStocks
  cases last with
  | some root =>
      have hcollect : layout.order.mapM controller.stock =
          some (layout.order.map (layout.assign root)) := by
        rw [hvariables]
        exact List.mapM_pure
      rw [hcollect]
      exact ⟨hstock, rfl⟩
  | none =>
      cases horder : layout.order with
      | nil => exact ⟨hstock, rfl⟩
      | cons slot slots =>
          have hcollect : (slot :: slots).mapM controller.stock = none := by
            rw [List.mapM_cons, hstock slot]
            rfl
          rw [hcollect]
          exact ⟨hstock, hstocks rfl⟩

theorem Holds.fetchStocks (hholds : layout.Holds last controller)
    (transport : Transport Root) (queue : ReloadQueue) :
    layout.Holds (lastResponse transport last)
      (SectorStockController.fetchStocks layout
        (SectorStockController.collectStocks layout) transport
        (controller, queue)).1 := by
  unfold SectorStockController.fetchStocks lastResponse
  rw [DataGetter.fetchDecoded_eq]
  cases DataGetter.outcome transport with
  | ok root =>
      apply holds_collectStocks
      · intro slot
        rfl
      · intro hnone
        contradiction
  | error error =>
      apply holds_collectStocks _ _ hholds.stock
      intro hnone
      rw [hholds.stocks, hnone]
      rfl

theorem length_shelf_lastResponse (transport : Transport Root) :
    (layout.shelf last).length ≤
      (layout.shelf (lastResponse transport last)).length := by
  unfold lastResponse
  cases DataGetter.outcome transport with
  | error error => exact le_rfl
  | ok root => cases last <;> simp [shelf]

theorem Holds.length_le {next : SectorStockController Slot}
    {transport : Transport Root} (hholds : layout.Holds last controller)
    (hnext : layout.Holds (lastResponse transport last) next) :
    controller.stocks.length ≤ next.stocks.length := by
  rw [hholds.stocks, hnext.stocks]
  exact length_shelf_lastResponse transport

end SectorLayout

end Stockly
