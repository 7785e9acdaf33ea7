import Stockly.DoubleText
import Stockly.EventMachine
import Mathlib.Data.List.ReduceOption

/-!
# The key-data tables of the detail screens

Both detail screens have a table with ten key data of their quote.  Every
request for a cell appends the data that are not `nil` to one array, which is
never emptied, and then reads the array at the index of the row.
-/

namespace Stockly

structure KeyDataTableViewCell where
  keyDataKeyLabel : Option String
  keyDataValueLabel : Option String
deriving DecidableEq, Repr

def keyDataTableKeys : List String :=
  ["Previous Close", "Open", "Low", "High", "52 Week Low", "52 Week High",
    "Volume", "Average Volume", "Market Cap", "PE Ratio"]

/-- The formatted fields, in the order of the keys. -/
def keyData (quote : Quote) : List (Option String) :=
  [quote.previousClose.map Double.twoDecimals,
    quote.open.map Double.twoDecimals,
    quote.low.map Double.twoDecimals,
    quote.high.map Double.twoDecimals,
    quote.week52Low.map Double.twoDecimals,
    quote.week52High.map Double.twoDecimals,
    quote.latestVolume.map Double.inMillions,
    quote.avgTotalVolume.map Double.inMillions,
    quote.marketCap.map Double.inBillions,
    quote.peRatio.map Double.twoDecimals]

def appendField (data : List String) : Option String → List String
  | some text => data ++ [text]
  | none => data

/-- What both `tableView(_:cellForRowAt:)` do once they have the fields;
`none` is an index out of range. -/
def keyDataCell (fields : List (Option String)) (row : ℕ)
    (data : List String) : Option (KeyDataTableViewCell × List String) :=
  let data := fields.foldl appendField data
  match keyDataTableKeys[row]?, data[row]? with
  | some key, some value => some (⟨some key, some value⟩, data)
  | _, _ => none

/-- `HomeStockDetialViewController.tableView(_:cellForRowAt:)`: without a
stock every field is `nil`. -/
def HomeStockDetialViewController.cellForRowAt (stock : Option Batch)
    (row : ℕ) (data : List String) :
    Option (KeyDataTableViewCell × List String) :=
  match stock with
  | none => keyDataCell (List.replicate 10 none) row data
  | some stock => keyDataCell (keyData stock.quote) row data

/-- `ResultsViewController.tableView(_:cellForRowAt:)`: without a quote the
dequeued cell is returned as it is. -/
def ResultsViewController.cellForRowAt (quote : Option Quote)
    (dequeued : KeyDataTableViewCell) (row : ℕ) (data : List String) :
    Option (KeyDataTableViewCell × List String) :=
  match quote with
  | none => some (dequeued, data)
  | some quote => keyDataCell (keyData quote) row data

/-! ## Request sequences -/

inductive LoadedScreen where
  | home (stock : Batch)
  | results (quote : Quote)

structure KeyDataRequest where
  row : ℕ
  dequeued : KeyDataTableViewCell
deriving DecidableEq, Repr

structure KeyDataTable where
  keyDataTableData : List String
  cells : List KeyDataTableViewCell
  trapped : Bool
deriving DecidableEq, Repr

namespace LoadedScreen

def quote : LoadedScreen → Quote
  | .home stock => stock.quote
  | .results quote => quote

def cellForRowAt (request : KeyDataRequest) (data : List String) :
    LoadedScreen → Option (KeyDataTableViewCell × List String)
  | .home stock =>
      HomeStockDetialViewController.cellForRowAt (some stock) request.row data
  | .results quote =>
      ResultsViewController.cellForRowAt (some quote) request.dequeued
        request.row data

def numberOfRowsInSection : ℕ := keyDataTableKeys.length

def machine (screen : LoadedScreen) :
    EventMachine KeyDataTable KeyDataRequest where
  step table request :=
    if table.trapped = false ∧ request.row < numberOfRowsInSection then
      match screen.cellForRowAt request table.keyDataTableData with
      | some (cell, data) => some ⟨data, table.cells ++ [cell], false⟩
      | none => some { table with trapped := true }
    else none

end LoadedScreen

def KeyDataTable.empty : KeyDataTable :=
  { keyDataTableData := [], cells := [], trapped := false }

/-! ## Repeating a list -/

theorem getElem?_flatten_replicate {α : Type} (count index : ℕ)
    (list : List α) :
    (List.replicate count list).flatten[index]? =
      if index < count * list.length then list[index % list.length]?
      else none := by
  induction count generalizing index with
  | zero => simp
  | succ count ih =>
      rw [List.replicate_succ, List.flatten_cons, List.getElem?_append]
      by_cases hhere : index < list.length
      · have hlt : index < (count + 1) * list.length := by
          rw [Nat.succ_mul]
          omega
        rw [if_pos hhere, if_pos hlt, Nat.mod_eq_of_lt hhere]
      · have hle : list.length ≤ index := not_lt.mp hhere
        have hiff : index - list.length < count * list.length ↔
            index < (count + 1) * list.length := by
          rw [Nat.succ_mul]
          omega
        rw [if_neg hhere, ih, if_congr hiff rfl rfl,
          ← Nat.mod_eq_sub_mod hle]

theorem getElem?_reduceOption {α : Type} {fields : List (Option α)}
    {index : ℕ}
    (hpresent : ∀ field ∈ fields.take (index + 1), field.isSome) :
    fields.reduceOption[index]? = fields[index]?.join := by
  induction fields generalizing index with
  | nil => rfl
  | cons field fields ih =>
      obtain ⟨value, hvalue⟩ := Option.isSome_iff_exists.mp
        (hpresent field (by simp))
      subst hvalue
      cases index with
      | zero => rfl
      | succ index =>
          apply ih
          intro other hother
          exact hpresent other (List.mem_cons_of_mem _ hother)

theorem foldl_appendField (fields : List (Option String))
    (data : List String) :
    fields.foldl appendField data = data ++ fields.reduceOption := by
  induction fields generalizing data with
  | nil => simp
  | cons field fields ih =>
      rw [List.foldl_cons, ih]
      cases field with
      | none => rfl
      | some text => simp [appendField]

/-! ## One request -/

namespace LoadedScreen

variable {screen : LoadedScreen} {table next : KeyDataTable}
  {request : KeyDataRequest}

def shownData (screen : LoadedScreen) : List String :=
  (keyData screen.quote).reduceOption

def nonNilFields (screen : LoadedScreen) : ℕ :=
  ((keyData screen.quote).filter Option.isSome).length

theorem length_shownData (screen : LoadedScreen) :
    screen.shownData.length = screen.nonNilFields :=
  List.reduceOption_length_eq

theorem cellForRowAt_eq (screen : LoadedScreen) (request : KeyDataRequest)
    (data : List String) :
    screen.cellForRowAt request data =
      keyDataCell (keyData screen.quote) request.row data := by
  cases screen <;> rfl

def Filled (screen : LoadedScreen) (table : KeyDataTable) : Prop :=
  table.trapped = false →
    table.keyDataTableData =
      (List.replicate table.cells.length screen.shownData).flatten

/-- The value which a row shows after some number of earlier requests. -/
def valueAfter (screen : LoadedScreen) (earlier row : ℕ) : Option String :=
  if row < (earlier + 1) * screen.nonNilFields then
    screen.shownData[row % screen.nonNilFields]?
  else none

theorem step_spec (hfilled : screen.Filled table)
    (hstep : screen.machine.step table request = some next) :
    table.trapped = false ∧ request.row < numberOfRowsInSection ∧
      match screen.valueAfter table.cells.length request.row with
      | none => next = { table with trapped := true }
      | some value =>
          next =
            ⟨(List.replicate (table.cells.length + 1)
                screen.shownData).flatten,
              table.cells ++ [⟨keyDataTableKeys[request.row]?, some value⟩],
              false⟩ := by
  rcases Option.ite_none_right_eq_some.mp hstep with ⟨⟨hup, hrow⟩, hnext⟩
  refine ⟨hup, hrow, ?_⟩
  have hdata : (keyData screen.quote).foldl appendField
        table.keyDataTableData =
      (List.replicate (table.cells.length + 1) screen.shownData).flatten := by
    rw [foldl_appendField, hfilled hup, List.replicate_succ',
      List.flatten_append]
    simp [shownData]
  have hvalue : (List.replicate (table.cells.length + 1)
        screen.shownData).flatten[request.row]? =
      screen.valueAfter table.cells.length request.row := by
    rw [getElem?_flatten_replicate, length_shownData]
    rfl
  have hkey : keyDataTableKeys[request.row]? =
      some keyDataTableKeys[request.row] := List.getElem?_eq_getElem hrow
  rw [cellForRowAt_eq, keyDataCell, hdata, hvalue, hkey] at hnext
  cases hshown : screen.valueAfter table.cells.length request.row with
  | none => simpa [hshown, eq_comm] using hnext
  | some value =>
      rw [hkey]
      simpa [hshown, eq_comm] using hnext

theorem Filled.step (hfilled : screen.Filled table)
    (hstep : screen.machine.step table request = some next) :
    screen.Filled next := by
  rcases step_spec hfilled hstep with ⟨-, -, hspec⟩
  cases hshown : screen.valueAfter table.cells.length request.row with
  | none =>
      rw [hshown] at hspec
      subst hspec
      intro hup
      contradiction
  | some value =>
      rw [hshown] at hspec
      subst hspec
      intro _
      simp

theorem filled_empty (screen : LoadedScreen) : screen.Filled .empty := by
  intro _
  simp [KeyDataTable.empty]

/-! ## Right cells -/

/-- The request returns a cell with the key of its row and the formatted value
of the same field, or no value when that field is `nil`. -/
def CellRight (screen : LoadedScreen) (table : KeyDataTable)
    (request : KeyDataRequest) (next : KeyDataTable) : Prop :=
  next.trapped = false ∧
    next.cells = table.cells ++
      [⟨keyDataTableKeys[request.row]?,
        (keyData screen.quote)[request.row]?.join⟩]

/-- The field of the row is not `nil`, and the value which the row gets after
the earlier requests reads the same. -/
def CellGuard (screen : LoadedScreen) (table : KeyDataTable)
    (request : KeyDataRequest) (_ : KeyDataTable) : Prop :=
  ∃ text, (keyData screen.quote)[request.row]? = some (some text) ∧
    screen.valueAfter table.cells.length request.row = some text

theorem cellRight_iff_cellGuard (hfilled : screen.Filled table)
    (hstep : screen.machine.step table request = some next) :
    screen.CellRight table request next ↔
      screen.CellGuard table request next := by
  rcases step_spec hfilled hstep with ⟨hup, hrow, hspec⟩
  have hlt : request.row < (keyData screen.quote).length := hrow
  obtain ⟨field, hfield⟩ : ∃ field,
      (keyData screen.quote)[request.row]? = some field :=
    ⟨_, List.getElem?_eq_getElem hlt⟩
  unfold CellRight CellGuard
  rw [hfield]
  cases hshown : screen.valueAfter table.cells.length request.row with
  | none =>
      rw [hshown] at hspec
      subst hspec
      simp
  | some value =>
      rw [hshown] at hspec
      subst hspec
      cases field with
      | none => simp
      | some text => simp

theorem exists_step (hup : table.trapped = false)
    (hrow : request.row < numberOfRowsInSection) :
    ∃ next, screen.machine.step table request = some next := by
  simp only [machine, hup, hrow, and_self, if_true]
  split
  · exact ⟨_, rfl⟩
  · exact ⟨_, rfl⟩

theorem cellGuard_of_prefix
    (hpresent : ∀ field ∈ (keyData screen.quote).take (request.row + 1),
      field.isSome)
    (hrow : request.row < numberOfRowsInSection) :
    screen.CellGuard table request next := by
  have hlt : request.row < (keyData screen.quote).length := hrow
  have hmem : (keyData screen.quote)[request.row] ∈
      (keyData screen.quote).take (request.row + 1) := by
    rw [List.mem_take_iff_getElem]
    exact ⟨request.row, by omega, rfl⟩
  rcases Option.isSome_iff_exists.mp (hpresent _ hmem) with ⟨text, htext⟩
  have hfield : (keyData screen.quote)[request.row]? = some (some text) := by
    rw [List.getElem?_eq_getElem hlt, htext]
  refine ⟨text, hfield, ?_⟩
  have hshown : screen.shownData[request.row]? = some text := by
    unfold shownData
    rw [getElem?_reduceOption hpresent, hfield]
    rfl
  have hcount : request.row < screen.nonNilFields := by
    rw [← length_shownData]
    exact (List.getElem?_eq_some_iff.mp hshown).1
  have hreach : request.row <
      (table.cells.length + 1) * screen.nonNilFields := by
    rw [Nat.succ_mul]
    omega
  rw [valueAfter, if_pos hreach, Nat.mod_eq_of_lt hcount, hshown]

theorem cellRight_iff (screen : LoadedScreen) :
    (∀ requests,
      screen.machine.AllSteps screen.CellRight .empty requests ↔
        screen.machine.AllSteps screen.CellGuard .empty requests) ∧
    ((∀ requests,
      screen.machine.AllSteps screen.CellRight .empty requests) ↔
        screen.nonNilFields = 10) := by
  have hiff : ∀ requests,
      screen.machine.AllSteps screen.CellRight .empty requests ↔
        screen.machine.AllSteps screen.CellGuard .empty requests :=
    EventMachine.allSteps_iff_guard
      (fun hfilled hstep _ => Filled.step hfilled hstep)
      cellRight_iff_cellGuard (filled_empty screen)
  have hall : screen.nonNilFields = 10 ↔
      ∀ field ∈ keyData screen.quote, field.isSome :=
    List.length_filter_eq_length_iff
  refine ⟨hiff, fun hright => ?_, fun hten requests => ?_⟩
  · -- the one request for a row without a value is wrong
    rw [hall]
    intro field hfield
    rcases List.getElem_of_mem hfield with ⟨row, hrow, rfl⟩
    obtain ⟨next, hnext⟩ := @exists_step screen .empty ⟨row, ⟨none, none⟩⟩
      rfl hrow
    rcases ((hiff [_]).mp (hright [_]) next hnext).1 with ⟨text, htext, -⟩
    rw [List.getElem?_eq_getElem hrow, Option.some.injEq] at htext
    rw [htext]
    rfl
  · rw [hiff]
    apply EventMachine.allSteps_of_forall
    intro table request next hstep
    rcases Option.ite_none_right_eq_some.mp hstep with ⟨⟨-, hrow⟩, -⟩
    apply cellGuard_of_prefix _ hrow
    intro field hfield
    exact hall.mp hten field (List.mem_of_mem_take hfield)

def quoteWithOpen : Quote :=
  { Quote.named "AAPL" "Apple Inc" with
    «open» := some ⟨false, 15, -1, by decide⟩ }

theorem not_cellRight_without_previousClose :
    ¬ (home ⟨quoteWithOpen, [], []⟩).machine.AllSteps
      (home ⟨quoteWithOpen, [], []⟩).CellRight .empty
      [⟨0, ⟨none, none⟩⟩] := by
  intro hall
  obtain ⟨next, hnext, hcells⟩ := Option.map_eq_some_iff.mp
    (show ((home ⟨quoteWithOpen, [], []⟩).machine.step .empty
        ⟨0, ⟨none, none⟩⟩).map KeyDataTable.cells =
          some [⟨some "Previous Close", some "1.50"⟩] by decide +kernel)
  have hright := (hall next hnext).1.2
  rw [hcells] at hright
  exact absurd hright (by decide)

/-! ## When a request traps -/

structure Served (screen : LoadedScreen) (requests : List KeyDataRequest)
    (table : KeyDataTable) : Prop where
  filled : screen.Filled table
  cells : table.trapped = false →
    table.cells = requests.mapIdx fun earlier request =>
      ⟨keyDataTableKeys[request.row]?, screen.valueAfter earlier request.row⟩
  inRange : table.trapped = false →
    ∀ earlier request, requests[earlier]? = some request →
      (screen.valueAfter earlier request.row).isSome

theorem Served.length_cells {requests : List KeyDataRequest}
    (hserved : screen.Served requests table) (hup : table.trapped = false) :
    table.cells.length = requests.length := by
  rw [hserved.cells hup, List.length_mapIdx]

theorem Served.step {requests : List KeyDataRequest}
    (hserved : screen.Served requests table)
    (hstep : screen.machine.step table request = some next) :
    screen.Served (requests ++ [request]) next := by
  rcases step_spec hserved.filled hstep with ⟨hup, -, hspec⟩
  have hlength := hserved.length_cells hup
  have hfilled := hserved.filled.step hstep
  cases hshown : screen.valueAfter table.cells.length request.row with
  | none =>
      rw [hshown] at hspec
      subst hspec
      refine ⟨hfilled, fun hnext => ?_, fun hnext => ?_⟩
      · contradiction
      · contradiction
  | some value =>
      rw [hshown] at hspec
      subst hspec
      rw [hlength] at hshown
      refine ⟨hfilled, fun _ => ?_, fun _ earlier other hother => ?_⟩
      · rw [List.mapIdx_concat, hshown, ← hserved.cells hup]
      · rcases lt_trichotomy earlier requests.length with hlt | heq | hgt
        · rw [List.getElem?_append_left hlt] at hother
          exact hserved.inRange hup earlier other hother
        · subst heq
          rw [List.getElem?_concat_length, Option.some.injEq] at hother
          rw [← hother, hshown]
          rfl
        · rw [List.getElem?_eq_none (by simpa using hgt)] at hother
          contradiction

end LoadedScreen

end Stockly
