import Mathlib.Tactic

/-!
# Tables over a changing data source

A table view remembers how many rows it was last given and what each row that
was requested since then displays; the list behind it changes on its own.  The
table is *backed* by the list while every row it believes in exists in the
list and every row on the screen is the element at its index.
-/

universe u

/-- One cell for each row the table was last given, holding what the row
displays once it was requested. -/
structure RowTable (α : Type u) where
  cells : List (Option α)
deriving DecidableEq, Repr

namespace RowTable

variable {α : Type u} {table : RowTable α} {data : List α}

def numberOfRows (table : RowTable α) : ℕ := table.cells.length

def shown (table : RowTable α) (row : ℕ) : Option α :=
  table.cells[row]?.join

def reloadData (rows : ℕ) : RowTable α := ⟨List.replicate rows none⟩

def display (table : RowTable α) (row : ℕ) (element : α) : RowTable α :=
  ⟨table.cells.set row (some element)⟩

def deleteRow (table : RowTable α) (row : ℕ) : RowTable α :=
  ⟨table.cells.eraseIdx row⟩

def Backed (table : RowTable α) (data : List α) : Prop :=
  ∀ row, row < table.numberOfRows →
    ∃ element, data[row]? = some element ∧
      ∀ visible, table.shown row = some visible → visible = element

@[simp] theorem numberOfRows_reloadData (rows : ℕ) :
    (reloadData rows : RowTable α).numberOfRows = rows := by
  simp [numberOfRows, reloadData]

@[simp] theorem numberOfRows_display (row : ℕ) (element : α) :
    (table.display row element).numberOfRows = table.numberOfRows := by
  simp [numberOfRows, display]

theorem numberOfRows_deleteRow {row : ℕ} (hrow : row < table.numberOfRows) :
    (table.deleteRow row).numberOfRows = table.numberOfRows - 1 :=
  List.length_eraseIdx_of_lt hrow

@[simp] theorem shown_reloadData (rows row : ℕ) :
    (reloadData rows : RowTable α).shown row = none := by
  by_cases hrow : row < rows <;> simp [shown, reloadData, hrow]

theorem shown_display (row other : ℕ) (element : α) :
    (table.display row element).shown other =
      if row = other ∧ row < table.numberOfRows then some element
      else table.shown other := by
  simp only [shown, display, numberOfRows, List.getElem?_set]
  by_cases hsame : row = other
  · subst other
    by_cases hrow : row < table.cells.length <;> simp [hrow]
  · simp [hsame]

theorem shown_deleteRow (row other : ℕ) :
    (table.deleteRow row).shown other =
      if other < row then table.shown other else table.shown (other + 1) := by
  simp only [shown, deleteRow, List.getElem?_eraseIdx]
  split <;> rfl

theorem lt_of_shown {row : ℕ} {visible : α}
    (hshown : table.shown row = some visible) :
    row < table.numberOfRows := by
  by_contra hle
  have hnone : table.cells[row]? = none :=
    List.getElem?_eq_none (not_lt.mp hle)
  simp [shown, hnone] at hshown

/-! ## When a table is backed -/

theorem Backed.exists_element (hbacked : table.Backed data) {row : ℕ}
    (hrow : row < table.numberOfRows) :
    ∃ element, data[row]? = some element :=
  let ⟨element, hdata, _⟩ := hbacked row hrow
  ⟨element, hdata⟩

theorem Backed.eq_of_shown (hbacked : table.Backed data) {row : ℕ}
    {visible : α} (hshown : table.shown row = some visible) :
    data[row]? = some visible := by
  obtain ⟨element, hdata, hvisible⟩ := hbacked row (lt_of_shown hshown)
  rw [hdata, hvisible visible hshown]

theorem backed_iff :
    table.Backed data ↔
      table.numberOfRows ≤ data.length ∧
        ∀ row visible, table.shown row = some visible →
          data[row]? = some visible := by
  constructor
  · intro hbacked
    refine ⟨?_, fun row visible hshown => hbacked.eq_of_shown hshown⟩
    by_contra hlt
    obtain ⟨element, hdata⟩ := hbacked.exists_element (not_le.mp hlt)
    simp at hdata
  · rintro ⟨hle, hrows⟩ row hrow
    have hlt : row < data.length := by omega
    refine ⟨data[row], List.getElem?_eq_getElem hlt, fun visible hshown => ?_⟩
    have hdata := hrows row visible hshown
    rw [List.getElem?_eq_getElem hlt, Option.some.injEq] at hdata
    exact hdata.symm

theorem Backed.numberOfRows_le (hbacked : table.Backed data) :
    table.numberOfRows ≤ data.length :=
  (backed_iff.mp hbacked).1

theorem backed_of_numberOfRows_eq_zero (hrows : table.numberOfRows = 0) :
    table.Backed data := by
  intro row hrow
  omega

@[simp] theorem backed_nil_iff :
    table.Backed [] ↔ table.numberOfRows = 0 := by
  refine ⟨fun hbacked => ?_, backed_of_numberOfRows_eq_zero⟩
  have hle := hbacked.numberOfRows_le
  simpa using hle

theorem backed_reloadData (data : List α) :
    (reloadData data.length : RowTable α).Backed data := by
  intro row hrow
  have hlt : row < data.length := by simpa using hrow
  exact ⟨data[row], List.getElem?_eq_getElem hlt, by simp⟩

theorem Backed.display (hbacked : table.Backed data) {row : ℕ} {element : α}
    (hdata : data[row]? = some element) :
    (table.display row element).Backed data := by
  intro other hother
  rw [numberOfRows_display] at hother
  obtain ⟨old, hold, hvisible⟩ := hbacked other hother
  refine ⟨old, hold, fun visible hshown => ?_⟩
  rw [shown_display] at hshown
  split at hshown
  next hsame =>
    rw [← hsame.1, hdata] at hold
    simpa [hold] using hshown.symm
  next => exact hvisible visible hshown

theorem Backed.deleteRow (hbacked : table.Backed data) {row : ℕ}
    (hrow : row < table.numberOfRows) :
    (table.deleteRow row).Backed (data.eraseIdx row) := by
  intro other hother
  rw [numberOfRows_deleteRow hrow] at hother
  simp only [shown_deleteRow, List.getElem?_eraseIdx]
  split
  next => exact hbacked other (by omega)
  next => exact hbacked (other + 1) (by omega)

end RowTable
