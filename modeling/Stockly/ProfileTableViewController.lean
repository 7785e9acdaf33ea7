import Stockly.DataGetter
import Stockly.EventMachine
import Stockly.FanOut
import Stockly.RowTable
import Stockly.WatchListNode
import Mathlib.Data.List.Sort
import Mathlib.Data.String.Basic

/-!
# The watch-list screen

`ProfileTableViewController` observes the watch-list node, keeps its symbols,
and on every tick of a repeating timer fetches all of them anew into one
shared array which the table shows.  This file is the screen as one event
machine: each handler of the source is a function on the state of the screen,
and every callback, timer tick, database delivery and user action is an event
which may come at any moment in which it can come at all.

Fetch callbacks run on the network queue one at a time; the handlers never
run inside each other.
-/

namespace Stockly

open KeyTree

/-- One element of `watchList`.  The stocks are objects, so an element is
identified by the callback which made it: the tick it belongs to and its place
in the symbols of that tick. -/
structure FetchedStock where
  stock : UserStock
  round : ℕ
  slot : ℕ
deriving DecidableEq, Repr

/-- `UserStock(id: quote.symbol, ...)` in the callback of `fireTimer`. -/
def UserStock.ofQuote (quote : Quote) : UserStock :=
  { id := quote.symbol
    stockSymbol := quote.symbol
    stockName := quote.companyName
    stockPercentage := quote.changePercent.getD .zero
    stockLatestPrice := quote.latestPrice.getD .zero }

def FetchedStock.ofBatch (round slot : ℕ) (batch : Batch) : FetchedStock :=
  { stock := .ofQuote batch.quote, round := round, slot := slot }

def NameOrder (first second : FetchedStock) : Prop :=
  first.stock.stockName ≤ second.stock.stockName

instance : DecidableRel NameOrder := fun first second =>
  inferInstanceAs
    (Decidable (first.stock.stockName ≤ second.stock.stockName))

instance : Std.Total NameOrder :=
  ⟨fun first second =>
    le_total first.stock.stockName second.stock.stockName⟩

instance : IsTrans FetchedStock NameOrder :=
  ⟨fun _ _ _ hfirst hsecond => le_trans hfirst hsecond⟩

/-! ## Refresh rounds -/

abbrev FetchReply := Option FetchError × Option Batch

/-- What one tick started: the symbols it saw, the replies to its fetches,
and its dispatch group. -/
structure RefreshRound where
  symbols : List String
  replies : List (Option FetchReply)
  group : DispatchGroup
deriving DecidableEq, Repr

namespace RefreshRound

def start (symbols : List String) : RefreshRound :=
  { symbols := symbols
    replies := FanOut.start symbols.length
    group := symbols.foldl (fun group _ => group.enter) .new }

def reply (slot : ℕ) (answer : FetchReply) (round : RefreshRound) :
    RefreshRound :=
  { round with replies := round.replies.set slot (some answer) }

def leave (round : RefreshRound) : RefreshRound :=
  { round with group := round.group.leave }

def notify (round : RefreshRound) : RefreshRound :=
  { round with group := round.group.notify }

def contribution (number slot : ℕ) : FetchReply → Option FetchedStock
  | (none, some batch) => some (.ofBatch number slot batch)
  | _ => none

def fetchedStocks (number : ℕ) (round : RefreshRound) : List FetchedStock :=
  FanOut.gather (contribution number) round.replies

end RefreshRound

/-! ## The screen -/

inductive Crash where
  | indexOutOfRange
  | invalidPath
  | invalidNumberOfRows
deriving DecidableEq, Repr

/-- The screen with what it shares with the system: the table it feeds, the
timers on the run loop, the observers with the snapshots still to be delivered
to them, and the database node they watch. -/
structure ProfileTableViewController where
  watchList : List FetchedStock
  symbolList : List String
  timer : Option ℕ
  hud : Bool
  alerts : List Alert
  currentUser : Option String
  visible : Bool
  database : DataSnapshot
  observers : List (List DataSnapshot)
  timers : List ℕ
  scheduled : ℕ
  rounds : List RefreshRound
  table : RowTable FetchedStock
  crash : Option Crash

namespace ProfileTableViewController

def launched (currentUser : Option String) (database : DataSnapshot) :
    ProfileTableViewController :=
  { watchList := [], symbolList := [], timer := none, hud := false,
    alerts := [], currentUser := currentUser, visible := false,
    database := database, observers := [], timers := [], scheduled := 0,
    rounds := [], table := .reloadData 0, crash := none }

def showAlert (title message : String)
    (screen : ProfileTableViewController) : ProfileTableViewController :=
  { screen with
    alerts := screen.alerts ++ [Alert.mk title message] }

/-- Registering an observer also asks for the present value of the node. -/
def addStockToArray (screen : ProfileTableViewController) :
    ProfileTableViewController :=
  match screen.currentUser with
  | none => screen
  | some _ =>
      { screen with observers := screen.observers ++ [[screen.database]] }

def viewWillAppear (screen : ProfileTableViewController) :
    ProfileTableViewController :=
  addStockToArray { screen with hud := true, visible := true }

/-- `timer?.invalidate()`; the slot itself keeps the dead timer. -/
def viewDidDisappear (screen : ProfileTableViewController) :
    ProfileTableViewController :=
  { screen with
    timers :=
      match screen.timer with
      | some timer => screen.timers.erase timer
      | none => screen.timers
    visible := false }

def updateStockData (screen : ProfileTableViewController) :
    ProfileTableViewController :=
  { screen with
    timer := some screen.scheduled
    timers := screen.timers ++ [screen.scheduled]
    scheduled := screen.scheduled + 1 }

/-- The decoding loop: the symbols before the first child without one, and
whether the loop got to its end. -/
def readSymbols : DataSnapshot → List String × Bool
  | [] => ([], true)
  | child :: children =>
      match stockSymbol child.2 with
      | none => ([], false)
      | some symbol =>
          let rest := readSymbols children
          (symbol :: rest.1, rest.2)

/-- The `.value` observer of `addStockToArray`.  The guard in the loop leaves
the whole closure. -/
def observe (snapShot : DataSnapshot) (screen : ProfileTableViewController) :
    ProfileTableViewController :=
  if snapShot.length > 0 then
    let symbols := readSymbols snapShot
    let screen := { screen with symbolList := symbols.1 }
    if symbols.2 then updateStockData screen else screen
  else
    { screen with hud := false }

/-- A tick clears the array and starts one fetch for each symbol. -/
def fireTimer (screen : ProfileTableViewController) :
    ProfileTableViewController :=
  { screen with
    watchList := []
    rounds := screen.rounds ++ [.start screen.symbolList] }

/-- The completion which `fireTimer` passes to `fetchStock`. -/
def refreshCallback (number slot : ℕ) (error : Option FetchError)
    (batch : Option Batch) (screen : ProfileTableViewController) :
    ProfileTableViewController :=
  match error with
  | some error =>
      -- the early return: the group is not left
      screen.showAlert "Error fetching stock" error.localizedDescription
  | none =>
      let screen :=
        match batch with
        | some batch =>
            { screen with
              watchList := screen.watchList ++
                [FetchedStock.ofBatch number slot batch] }
        | none => screen
      { screen with rounds := screen.rounds.modify number .leave }

/-- `ProfileController.fetchStock` from its response on.  It stores nothing
of its own. -/
def fetchStock (completion : Option FetchError → Option Batch →
      ProfileTableViewController → ProfileTableViewController)
    (transport : Transport Batch) (screen : ProfileTableViewController) :
    ProfileTableViewController :=
  DataGetter.fetchDecoded (fun _ screen => screen) completion transport screen

def respond (number slot : ℕ) (transport : Transport Batch)
    (screen : ProfileTableViewController) : ProfileTableViewController :=
  fetchStock
    (fun error batch screen =>
      refreshCallback number slot error batch
        { screen with
          rounds := screen.rounds.modify number (.reply slot (error, batch)) })
    transport screen

def notifyRound (number : ℕ) (screen : ProfileTableViewController) :
    ProfileTableViewController :=
  { screen with
    watchList := screen.watchList.insertionSort NameOrder
    hud := false
    table := .reloadData screen.watchList.length
    rounds := screen.rounds.modify number .notify }

def cellForRowAt (row : ℕ) (screen : ProfileTableViewController) :
    ProfileTableViewController :=
  match screen.watchList[row]? with
  | none => { screen with crash := some .indexOutOfRange }
  | some stock => { screen with table := screen.table.display row stock }

def publish (database : DataSnapshot) (screen : ProfileTableViewController) :
    ProfileTableViewController :=
  { screen with
    database := database
    observers := screen.observers.map fun queue => queue ++ [database] }

/-- `removeValue(completionBlock:)` at a path below the node, with the error
the database answers, if any. -/
def removeValue (path : List String) (error : Option String)
    (screen : ProfileTableViewController) : ProfileTableViewController :=
  match error with
  | some _ =>
      screen.showAlert "Error deleting stock"
        "Please check your connection and try again"
  | none =>
      match Forest.remove path screen.database with
      | none => screen
      | some database => publish database screen

/-- `deleteRows` compares the new number of rows with the one before. -/
def deleteRows (row : ℕ) (screen : ProfileTableViewController) :
    ProfileTableViewController :=
  if screen.watchList.length + 1 = screen.table.numberOfRows then
    { screen with table := screen.table.deleteRow row }
  else { screen with crash := some .invalidNumberOfRows }

def commitDelete (row : ℕ) (error : Option String)
    (screen : ProfileTableViewController) : ProfileTableViewController :=
  match screen.currentUser with
  | none => screen
  | some _ =>
      match screen.watchList[row]? with
      | none => { screen with crash := some .indexOutOfRange }
      | some stock =>
          match childPath stock.stock.id with
          | none => { screen with crash := some .invalidPath }
          | some path =>
              let screen := removeValue path error screen
              deleteRows row
                { screen with watchList := screen.watchList.eraseIdx row }

/-! ## Runs -/

inductive Event where
  | viewWillAppear
  | viewDidDisappear
  | databaseChange (database : DataSnapshot)
  | snapshot (observer : ℕ)
  | timerTick (timer : ℕ)
  | response (number slot : ℕ) (transport : Transport Batch)
  | notification (number : ℕ)
  | rowRequest (row : ℕ)
  | rowDelete (row : ℕ) (error : Option String)

def nextSnapshot (observer : ℕ) (screen : ProfileTableViewController) :
    Option DataSnapshot :=
  screen.observers[observer]?.bind List.head?

def InFlight (number slot : ℕ) (screen : ProfileTableViewController) : Prop :=
  (screen.rounds[number]?.bind fun round => round.replies[slot]?) = some none

def NotifyReady (number : ℕ) (screen : ProfileTableViewController) : Prop :=
  ∃ round, screen.rounds[number]? = some round ∧ round.group.Ready

instance (number slot : ℕ) (screen : ProfileTableViewController) :
    Decidable (screen.InFlight number slot) :=
  inferInstanceAs (Decidable (_ = _))

instance (number : ℕ) (screen : ProfileTableViewController) :
    Decidable (screen.NotifyReady number) :=
  decidable_of_iff
    ((screen.rounds[number]?.any fun round => decide round.group.Ready) = true)
    (by
      unfold NotifyReady
      cases screen.rounds[number]? <;> simp)

def handle (screen : ProfileTableViewController) :
    Event → Option ProfileTableViewController
  | .viewWillAppear => some screen.viewWillAppear
  | .viewDidDisappear => some screen.viewDidDisappear
  | .databaseChange database => some (screen.publish database)
  | .snapshot observer =>
      (screen.nextSnapshot observer).map fun snapShot =>
        observe snapShot
          { screen with
            observers := screen.observers.modify observer List.tail }
  | .timerTick timer =>
      if timer ∈ screen.timers then some screen.fireTimer else none
  | .response number slot transport =>
      if screen.InFlight number slot then
        some (screen.respond number slot transport)
      else none
  | .notification number =>
      if screen.NotifyReady number then some (screen.notifyRound number)
      else none
  | .rowRequest row =>
      if row < screen.table.numberOfRows then some (screen.cellForRowAt row)
      else none
  | .rowDelete row error =>
      if row < screen.table.numberOfRows then
        some (screen.commitDelete row error)
      else none

def machine : EventMachine ProfileTableViewController Event where
  step screen event :=
    if screen.crash = none then screen.handle event else none

end ProfileTableViewController

end Stockly
