import Stockly.Collection
import Stockly.DataGetter
import Stockly.EventMachine
import Stockly.RowTable

/-!
# The search screen

Every edit of the search bar cancels the delayed search and schedules a new
one; a delayed search that fires starts a request for the text entered last.
Each response replaces the results on the network queue and leaves the reload
of the table to the main queue, whose blocks run in order.
-/

namespace Stockly

abbrev SearchReply := Option (List SearchStock) × Option FetchError

structure SearchRequest where
  text : String
  reply : Option SearchReply
deriving DecidableEq, Repr

def SearchRequest.answer (reply : SearchReply) (request : SearchRequest) :
    SearchRequest :=
  { request with reply := some reply }

inductive MainBlock where
  | showAlert (title message : String)
  | reloadData
deriving DecidableEq, Repr

/-- `text` is the text of the search bar and `delayed` counts the calls of
`makeSearchRequest` that `perform(afterDelay:)` still has to make. -/
structure SearchViewController where
  searchResults : List SearchStock
  enteredText : String
  text : Option String
  showsCancelButton : Bool
  delayed : ℕ
  requests : List SearchRequest
  mainQueue : List MainBlock
  table : RowTable SearchStock
  alerts : List Alert
  destinationStock : Option SearchStock
  outOfRange : Bool
deriving DecidableEq, Repr

namespace SearchViewController

def launched : SearchViewController :=
  { searchResults := [], enteredText := "", text := some "",
    showsCancelButton := false, delayed := 0, requests := [],
    mainQueue := [], table := .reloadData 0, alerts := [],
    destinationStock := none, outOfRange := false }

def showAlert (title message : String) (screen : SearchViewController) :
    SearchViewController :=
  { screen with alerts := screen.alerts ++ [Alert.mk title message] }

def dispatchMain (block : MainBlock) (screen : SearchViewController) :
    SearchViewController :=
  { screen with mainQueue := screen.mainQueue ++ [block] }

/-! ## The search bar -/

/-- Setting the text from the code does not call `textDidChange`. -/
def searchBarCancelButtonClicked (screen : SearchViewController) :
    SearchViewController :=
  { screen with text := some "", showsCancelButton := false }

def searchBarSearchButtonClicked (screen : SearchViewController) :
    SearchViewController :=
  { screen with showsCancelButton := false }

def searchBarTextDidBeginEditing (screen : SearchViewController) :
    SearchViewController :=
  { screen with showsCancelButton := true }

/-- `searchBar(_:textDidChange:)`, the bar already holding the new text. -/
def textDidChange (text : Option String) (screen : SearchViewController) :
    SearchViewController :=
  let screen := { screen with text := text, delayed := 0 }
  match text with
  | none =>
      screen.showAlert "Search Error"
        "Please enter valid company name or ticker."
  | some searchText =>
      { screen with enteredText := searchText, delayed := screen.delayed + 1 }

/-! ## Requests -/

def makeSearchRequest (screen : SearchViewController) :
    SearchViewController :=
  let screen := { screen with delayed := screen.delayed - 1 }
  if screen.enteredText = "" then screen
  else
    { screen with
      requests := screen.requests ++
        [SearchRequest.mk screen.enteredText none] }

/-- The completion which `makeSearchRequest` passes to `searchStock`. -/
def searchCallback (results : Option (List SearchStock))
    (error : Option FetchError) (screen : SearchViewController) :
    SearchViewController :=
  let screen :=
    match error with
    | some error =>
        screen.dispatchMain
          (.showAlert "Search Error" error.localizedDescription)
    | none => screen
  match results with
  | some results =>
      dispatchMain .reloadData { screen with searchResults := results }
  | none => screen

def searchStock
    (completion : Option (List SearchStock) → Option FetchError →
      SearchViewController → SearchViewController)
    (transport : Transport (List SearchStock))
    (screen : SearchViewController) : SearchViewController :=
  DataGetter.fetchDecoded (fun _ screen => screen)
    (fun error results => completion results error) transport screen

def respond (number : ℕ) (transport : Transport (List SearchStock))
    (screen : SearchViewController) : SearchViewController :=
  searchStock
    (fun results error screen =>
      searchCallback results error
        { screen with
          requests := screen.requests.modify number
            (SearchRequest.answer (results, error)) })
    transport screen

/-! ## The table -/

def numberOfRowsInSection (screen : SearchViewController) : ℕ :=
  screen.searchResults.length

def runMainBlock (block : MainBlock) (screen : SearchViewController) :
    SearchViewController :=
  match block with
  | .showAlert title message => screen.showAlert title message
  | .reloadData =>
      { screen with table := .reloadData screen.numberOfRowsInSection }

def cellForRowAt (row : ℕ) (screen : SearchViewController) :
    SearchViewController :=
  match screen.searchResults[row]? with
  | none => { screen with outOfRange := true }
  | some stock => { screen with table := screen.table.display row stock }

def prepare (row : ℕ) (screen : SearchViewController) :
    SearchViewController :=
  match screen.searchResults[row]? with
  | none => { screen with outOfRange := true }
  | some stock => { screen with destinationStock := some stock }

/-! ## Runs -/

inductive Event where
  | searchBarTextDidBeginEditing
  | textDidChange (text : Option String)
  | searchBarSearchButtonClicked
  | searchBarCancelButtonClicked
  | makeSearchRequest
  | response (number : ℕ) (transport : Transport (List SearchStock))
  | mainBlock
  | rowRequest (row : ℕ)
  | rowSelect (row : ℕ)

def InFlight (number : ℕ) (screen : SearchViewController) : Prop :=
  ∃ request, screen.requests[number]? = some request ∧ request.reply = none

instance (number : ℕ) (screen : SearchViewController) :
    Decidable (screen.InFlight number) :=
  decidable_of_iff
    ((screen.requests[number]?.any fun request =>
      decide (request.reply = none)) = true)
    (by
      unfold InFlight
      cases screen.requests[number]? <;> simp)

/-- The cancel button can be tapped while the bar shows it, and a row can be
selected once it displays a stock. -/
def handle (screen : SearchViewController) :
    Event → Option SearchViewController
  | .searchBarTextDidBeginEditing =>
      some screen.searchBarTextDidBeginEditing
  | .textDidChange text => some (screen.textDidChange text)
  | .searchBarSearchButtonClicked =>
      some screen.searchBarSearchButtonClicked
  | .searchBarCancelButtonClicked =>
      if screen.showsCancelButton then
        some screen.searchBarCancelButtonClicked
      else none
  | .makeSearchRequest =>
      if 0 < screen.delayed then some screen.makeSearchRequest else none
  | .response number transport =>
      if screen.InFlight number then some (screen.respond number transport)
      else none
  | .mainBlock =>
      match screen.mainQueue with
      | [] => none
      | block :: rest => some (runMainBlock block { screen with mainQueue := rest })
  | .rowRequest row =>
      if row < screen.table.numberOfRows then some (screen.cellForRowAt row)
      else none
  | .rowSelect row =>
      if (screen.table.shown row).isSome then some (screen.prepare row)
      else none

def machine : EventMachine SearchViewController Event where
  step screen event :=
    if screen.outOfRange then none else screen.handle event

/-! ## What one event does -/

variable {screen next : SearchViewController}

theorem respond_eq (number : ℕ) (transport : Transport (List SearchStock))
    (screen : SearchViewController) :
    screen.respond number transport =
      match DataGetter.outcome transport with
      | .ok results =>
          { screen with
            searchResults := results
            requests := screen.requests.modify number
              (SearchRequest.answer (some results, none))
            mainQueue := screen.mainQueue ++ [.reloadData] }
      | .error error =>
          { screen with
            requests := screen.requests.modify number
              (SearchRequest.answer (none, some error))
            mainQueue := screen.mainQueue ++
              [.showAlert "Search Error" error.localizedDescription] } := by
  unfold respond searchStock
  rw [DataGetter.fetchDecoded_eq]
  cases DataGetter.outcome transport <;> rfl

inductive Effect (screen : SearchViewController) :
    Event → SearchViewController → Prop
  | beginEditing :
      Effect screen .searchBarTextDidBeginEditing
        { screen with showsCancelButton := true }
  | clear :
      Effect screen (.textDidChange none)
        (showAlert "Search Error" "Please enter valid company name or ticker."
          { screen with text := none, delayed := 0 })
  | edit (text : String) :
      Effect screen (.textDidChange (some text))
        { screen with text := some text, enteredText := text, delayed := 1 }
  | search :
      Effect screen .searchBarSearchButtonClicked
        { screen with showsCancelButton := false }
  | cancel :
      Effect screen .searchBarCancelButtonClicked
        { screen with text := some "", showsCancelButton := false }
  | skip (hdelayed : 0 < screen.delayed) (hempty : screen.enteredText = "") :
      Effect screen .makeSearchRequest
        { screen with delayed := screen.delayed - 1 }
  | request (hdelayed : 0 < screen.delayed)
      (htext : screen.enteredText ≠ "") :
      Effect screen .makeSearchRequest
        { screen with
          delayed := screen.delayed - 1
          requests := screen.requests ++
            [SearchRequest.mk screen.enteredText none] }
  | results {number : ℕ} {transport : Transport (List SearchStock)}
      {results : List SearchStock} (hflight : screen.InFlight number)
      (hresults : DataGetter.outcome transport = .ok results) :
      Effect screen (.response number transport)
        { screen with
          searchResults := results
          requests := screen.requests.modify number
            (SearchRequest.answer (some results, none))
          mainQueue := screen.mainQueue ++ [.reloadData] }
  | failure {number : ℕ} {transport : Transport (List SearchStock)}
      {error : FetchError} (hflight : screen.InFlight number)
      (herror : DataGetter.outcome transport = .error error) :
      Effect screen (.response number transport)
        { screen with
          requests := screen.requests.modify number
            (SearchRequest.answer (none, some error))
          mainQueue := screen.mainQueue ++
            [.showAlert "Search Error" error.localizedDescription] }
  | alert {title message : String} {rest : List MainBlock}
      (hqueue : screen.mainQueue = .showAlert title message :: rest) :
      Effect screen .mainBlock
        (showAlert title message { screen with mainQueue := rest })
  | reload {rest : List MainBlock}
      (hqueue : screen.mainQueue = .reloadData :: rest) :
      Effect screen .mainBlock
        { screen with
          mainQueue := rest
          table := .reloadData screen.searchResults.length }
  | row {row : ℕ} {stock : SearchStock}
      (hrow : row < screen.table.numberOfRows)
      (hstock : screen.searchResults[row]? = some stock) :
      Effect screen (.rowRequest row)
        { screen with table := screen.table.display row stock }
  | rowOutOfRange {row : ℕ} (hrow : row < screen.table.numberOfRows)
      (hstock : screen.searchResults[row]? = none) :
      Effect screen (.rowRequest row) { screen with outOfRange := true }
  | select {row : ℕ} {visible stock : SearchStock}
      (hshown : screen.table.shown row = some visible)
      (hstock : screen.searchResults[row]? = some stock) :
      Effect screen (.rowSelect row)
        { screen with destinationStock := some stock }
  | selectOutOfRange {row : ℕ} {visible : SearchStock}
      (hshown : screen.table.shown row = some visible)
      (hstock : screen.searchResults[row]? = none) :
      Effect screen (.rowSelect row) { screen with outOfRange := true }

theorem machine_step_eq_some {event : Event} :
    machine.step screen event = some next ↔
      screen.outOfRange = false ∧ screen.handle event = some next := by
  cases hrange : screen.outOfRange <;> simp [machine, hrange]

theorem effect_of_step {event : Event}
    (hstep : machine.step screen event = some next) :
    Effect screen event next := by
  obtain ⟨-, hhandle⟩ := machine_step_eq_some.mp hstep
  cases event with
  | searchBarTextDidBeginEditing =>
      cases hhandle
      exact .beginEditing
  | textDidChange text =>
      cases hhandle
      cases text with
      | none => exact .clear
      | some text => exact .edit text
  | searchBarSearchButtonClicked =>
      cases hhandle
      exact .search
  | searchBarCancelButtonClicked =>
      simp only [handle, Option.ite_none_right_eq_some] at hhandle
      cases hhandle.2
      exact .cancel
  | makeSearchRequest =>
      simp only [handle, Option.ite_none_right_eq_some,
        makeSearchRequest] at hhandle
      obtain ⟨hdelayed, hnext⟩ := hhandle
      by_cases htext : screen.enteredText = ""
      · rw [if_pos htext, Option.some.injEq] at hnext
        subst next
        exact .skip hdelayed htext
      · rw [if_neg htext, Option.some.injEq] at hnext
        subst next
        exact .request hdelayed htext
  | response number transport =>
      simp only [handle, Option.ite_none_right_eq_some, respond_eq] at hhandle
      obtain ⟨hflight, hnext⟩ := hhandle
      cases houtcome : DataGetter.outcome transport with
      | ok results =>
          simp only [houtcome, Option.some.injEq] at hnext
          subst next
          exact .results hflight houtcome
      | error error =>
          simp only [houtcome, Option.some.injEq] at hnext
          subst next
          exact .failure hflight houtcome
  | mainBlock =>
      unfold handle at hhandle
      cases hqueue : screen.mainQueue with
      | nil => simp [hqueue] at hhandle
      | cons block rest =>
          simp only [hqueue, Option.some.injEq] at hhandle
          subst next
          cases block with
          | showAlert title message => exact .alert hqueue
          | reloadData => exact .reload hqueue
  | rowRequest row =>
      simp only [handle, Option.ite_none_right_eq_some, cellForRowAt]
        at hhandle
      obtain ⟨hrow, hnext⟩ := hhandle
      cases hstock : screen.searchResults[row]? with
      | none =>
          simp only [hstock, Option.some.injEq] at hnext
          subst next
          exact .rowOutOfRange hrow hstock
      | some stock =>
          simp only [hstock, Option.some.injEq] at hnext
          subst next
          exact .row hrow hstock
  | rowSelect row =>
      simp only [handle, Option.ite_none_right_eq_some, prepare,
        Option.isSome_iff_exists] at hhandle
      obtain ⟨⟨visible, hshown⟩, hnext⟩ := hhandle
      cases hstock : screen.searchResults[row]? with
      | none =>
          simp only [hstock, Option.some.injEq] at hnext
          subst next
          exact .selectOutOfRange hshown hstock
      | some stock =>
          simp only [hstock, Option.some.injEq] at hnext
          subst next
          exact .select hshown hstock

end SearchViewController

end Stockly
