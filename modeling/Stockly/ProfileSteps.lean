import Stockly.ProfileTableViewController

/-!
# What one event does to the watch-list screen

Each way through a handler is described once, with its guards and the state it
leads to; the invariants of the screen are read off this description and never
unfold a handler again.
-/

namespace Stockly
namespace ProfileTableViewController

variable {screen next : ProfileTableViewController}

theorem machine_step_eq_some {event : Event} :
    machine.step screen event = some next ↔
      screen.crash = none ∧ screen.handle event = some next := by
  simp [machine]

theorem viewWillAppear_eq (screen : ProfileTableViewController) :
    ∃ observers,
      (observers = screen.observers ∨
        observers = screen.observers ++ [[screen.database]]) ∧
      screen.viewWillAppear =
        { screen with
          hud := true, visible := true, observers := observers } := by
  unfold viewWillAppear addStockToArray
  cases screen.currentUser with
  | none => exact ⟨screen.observers, .inl rfl, rfl⟩
  | some uid =>
      exact ⟨screen.observers ++ [[screen.database]], .inr rfl, rfl⟩

theorem observe_cases (snapShot : DataSnapshot)
    (screen : ProfileTableViewController) :
    (snapShot = [] ∧ observe snapShot screen = { screen with hud := false }) ∨
    (snapShot ≠ [] ∧ (readSymbols snapShot).2 = false ∧
      observe snapShot screen =
        { screen with symbolList := (readSymbols snapShot).1 }) ∨
    (snapShot ≠ [] ∧ (readSymbols snapShot).2 = true ∧
      observe snapShot screen =
        updateStockData
          { screen with symbolList := (readSymbols snapShot).1 }) := by
  cases snapShot with
  | nil => exact .inl ⟨rfl, rfl⟩
  | cons child children =>
      cases hend : (readSymbols (child :: children)).2 with
      | false => exact .inr (.inl ⟨by simp, rfl, by simp [observe, hend]⟩)
      | true => exact .inr (.inr ⟨by simp, rfl, by simp [observe, hend]⟩)

theorem respond_eq (number slot : ℕ) (transport : Transport Batch)
    (screen : ProfileTableViewController) :
    screen.respond number slot transport =
      match DataGetter.outcome transport with
      | .ok batch =>
          { screen with
            watchList := screen.watchList ++ [.ofBatch number slot batch]
            rounds :=
              (screen.rounds.modify number
                (.reply slot (none, some batch))).modify number .leave }
      | .error error =>
          showAlert "Error fetching stock" error.localizedDescription
            { screen with
              rounds :=
                screen.rounds.modify number
                  (.reply slot (some error, none)) } := by
  unfold respond fetchStock
  rw [DataGetter.fetchDecoded_eq]
  cases DataGetter.outcome transport <;> rfl

theorem removeValue_eq (path : List String) (error : Option String)
    (screen : ProfileTableViewController) :
    ∃ alerts database observers,
      screen.removeValue path error =
        { screen with
          alerts := alerts, database := database, observers := observers } := by
  unfold removeValue
  cases error with
  | some text => exact ⟨_, screen.database, screen.observers, rfl⟩
  | none =>
      cases KeyTree.Forest.remove path screen.database with
      | none => exact ⟨screen.alerts, screen.database, screen.observers, rfl⟩
      | some database => exact ⟨screen.alerts, database, _, rfl⟩

theorem commitDelete_cases (row : ℕ) (error : Option String)
    (screen : ProfileTableViewController) :
    (screen.currentUser = none ∧ screen.commitDelete row error = screen) ∨
    (screen.watchList[row]? = none ∧
      screen.commitDelete row error =
        { screen with crash := some .indexOutOfRange }) ∨
    (∃ stock, screen.watchList[row]? = some stock ∧
      childPath stock.stock.id = none ∧
      screen.commitDelete row error =
        { screen with crash := some .invalidPath }) ∨
    (∃ stock path alerts database observers,
      screen.watchList[row]? = some stock ∧
      childPath stock.stock.id = some path ∧
      screen.removeValue path error =
        { screen with
          alerts := alerts, database := database, observers := observers } ∧
      screen.commitDelete row error =
        deleteRows row
          { screen with
            watchList := screen.watchList.eraseIdx row
            alerts := alerts, database := database
            observers := observers }) := by
  rcases Option.eq_none_or_eq_some screen.currentUser with
    huser | ⟨uid, huser⟩
  · exact .inl ⟨huser, by simp only [commitDelete, huser]⟩
  right
  rcases Option.eq_none_or_eq_some screen.watchList[row]? with
    hstock | ⟨stock, hstock⟩
  · exact .inl ⟨hstock, by simp only [commitDelete, huser, hstock]⟩
  right
  rcases Option.eq_none_or_eq_some (childPath stock.stock.id) with
    hpath | ⟨path, hpath⟩
  · exact .inl ⟨stock, hstock, hpath,
      by simp only [commitDelete, huser, hstock, hpath]⟩
  right
  obtain ⟨alerts, database, observers, hremove⟩ :=
    removeValue_eq path error screen
  exact ⟨stock, path, alerts, database, observers, hstock, hpath, hremove,
    by simp only [commitDelete, huser, hstock, hpath, hremove]⟩

inductive Effect (screen : ProfileTableViewController) :
    Event → ProfileTableViewController → Prop
  | appear (observers : List (List DataSnapshot))
      (hobservers : observers = screen.observers ∨
        observers = screen.observers ++ [[screen.database]]) :
      Effect screen .viewWillAppear
        { screen with hud := true, visible := true, observers := observers }
  | disappear : Effect screen .viewDidDisappear screen.viewDidDisappear
  | change (database : DataSnapshot) :
      Effect screen (.databaseChange database) (screen.publish database)
  | emptySnapshot {observer : ℕ} (observers : List (List DataSnapshot))
      (hsnapShot : screen.nextSnapshot observer = some [])
      (hobservers : observers = screen.observers.modify observer List.tail) :
      Effect screen (.snapshot observer)
        { screen with hud := false, observers := observers }
  | brokenSnapshot {observer : ℕ} {snapShot : DataSnapshot}
      (observers : List (List DataSnapshot))
      (hsnapShot : screen.nextSnapshot observer = some snapShot)
      (hsome : snapShot ≠ []) (hend : (readSymbols snapShot).2 = false)
      (hobservers : observers = screen.observers.modify observer List.tail) :
      Effect screen (.snapshot observer)
        { screen with
          symbolList := (readSymbols snapShot).1, observers := observers }
  | fullSnapshot {observer : ℕ} {snapShot : DataSnapshot}
      (observers : List (List DataSnapshot))
      (hsnapShot : screen.nextSnapshot observer = some snapShot)
      (hsome : snapShot ≠ []) (hend : (readSymbols snapShot).2 = true)
      (hobservers : observers = screen.observers.modify observer List.tail) :
      Effect screen (.snapshot observer)
        (updateStockData
          { screen with
            symbolList := (readSymbols snapShot).1, observers := observers })
  | tick {timer : ℕ} (hlive : timer ∈ screen.timers) :
      Effect screen (.timerTick timer) screen.fireTimer
  | batch {number slot : ℕ} {transport : Transport Batch} {batch : Batch}
      (hflight : screen.InFlight number slot)
      (hbatch : DataGetter.outcome transport = .ok batch) :
      Effect screen (.response number slot transport)
        { screen with
          watchList := screen.watchList ++ [.ofBatch number slot batch]
          rounds :=
            (screen.rounds.modify number
              (.reply slot (none, some batch))).modify number .leave }
  | failure {number slot : ℕ} {transport : Transport Batch}
      {error : FetchError} (hflight : screen.InFlight number slot)
      (herror : DataGetter.outcome transport = .error error) :
      Effect screen (.response number slot transport)
        (showAlert "Error fetching stock" error.localizedDescription
          { screen with
            rounds :=
              screen.rounds.modify number (.reply slot (some error, none)) })
  | notify {number : ℕ} (hready : screen.NotifyReady number) :
      Effect screen (.notification number) (screen.notifyRound number)
  | row {row : ℕ} {stock : FetchedStock}
      (hrow : row < screen.table.numberOfRows)
      (hstock : screen.watchList[row]? = some stock) :
      Effect screen (.rowRequest row)
        { screen with table := screen.table.display row stock }
  | rowOutOfRange {row : ℕ} (hrow : row < screen.table.numberOfRows)
      (hstock : screen.watchList[row]? = none) :
      Effect screen (.rowRequest row)
        { screen with crash := some .indexOutOfRange }
  | deleteSignedOut {row : ℕ} {error : Option String}
      (huser : screen.currentUser = none) :
      Effect screen (.rowDelete row error) screen
  | deleteOutOfRange {row : ℕ} {error : Option String}
      (hrow : row < screen.table.numberOfRows)
      (hstock : screen.watchList[row]? = none) :
      Effect screen (.rowDelete row error)
        { screen with crash := some .indexOutOfRange }
  | deleteInvalidPath {row : ℕ} {error : Option String}
      {stock : FetchedStock} (hstock : screen.watchList[row]? = some stock)
      (hpath : childPath stock.stock.id = none) :
      Effect screen (.rowDelete row error)
        { screen with crash := some .invalidPath }
  | delete {row : ℕ} {error : Option String} {stock : FetchedStock}
      (alerts : List Alert) (database : DataSnapshot)
      (observers : List (List DataSnapshot))
      (hrow : row < screen.table.numberOfRows)
      (hstock : screen.watchList[row]? = some stock)
      (hcount : screen.watchList.length = screen.table.numberOfRows) :
      Effect screen (.rowDelete row error)
        { screen with
          watchList := screen.watchList.eraseIdx row
          table := screen.table.deleteRow row
          alerts := alerts, database := database, observers := observers }
  | deleteMismatch {row : ℕ} {error : Option String} {stock : FetchedStock}
      (alerts : List Alert) (database : DataSnapshot)
      (observers : List (List DataSnapshot))
      (hrow : row < screen.table.numberOfRows)
      (hstock : screen.watchList[row]? = some stock)
      (hcount : screen.watchList.length ≠ screen.table.numberOfRows) :
      Effect screen (.rowDelete row error)
        { screen with
          watchList := screen.watchList.eraseIdx row
          crash := some .invalidNumberOfRows
          alerts := alerts, database := database, observers := observers }

theorem effect_of_commitDelete {row : ℕ} (error : Option String)
    (hrow : row < screen.table.numberOfRows) :
    Effect screen (.rowDelete row error) (screen.commitDelete row error) := by
  rcases commitDelete_cases row error screen with
    ⟨huser, heq⟩ | ⟨hstock, heq⟩ | ⟨stock, hstock, hpath, heq⟩ |
      ⟨stock, path, alerts, database, observers, hstock, -, -, heq⟩ <;>
    rw [heq]
  · exact .deleteSignedOut huser
  · exact .deleteOutOfRange hrow hstock
  · exact .deleteInvalidPath hstock hpath
  · have hlt : row < screen.watchList.length :=
      (List.getElem?_eq_some_iff.mp hstock).1
    unfold deleteRows
    by_cases hcount : screen.watchList.length = screen.table.numberOfRows
    · rw [if_pos (by simp only [List.length_eraseIdx_of_lt hlt]; omega)]
      exact .delete alerts database observers hrow hstock hcount
    · rw [if_neg (by simp only [List.length_eraseIdx_of_lt hlt]; omega)]
      exact .deleteMismatch alerts database observers hrow hstock hcount

theorem effect_of_step {event : Event}
    (hstep : machine.step screen event = some next) :
    Effect screen event next := by
  obtain ⟨-, hhandle⟩ := machine_step_eq_some.mp hstep
  cases event with
  | viewWillAppear =>
      obtain ⟨observers, hobservers, heq⟩ := viewWillAppear_eq screen
      simp only [handle, heq, Option.some.injEq] at hhandle
      subst next
      exact .appear observers hobservers
  | viewDidDisappear =>
      cases hhandle
      exact .disappear
  | databaseChange database =>
      cases hhandle
      exact .change database
  | snapshot observer =>
      obtain ⟨snapShot, hsnapShot, rfl⟩ := Option.map_eq_some_iff.mp hhandle
      rcases observe_cases snapShot _ with
        ⟨rfl, heq⟩ | ⟨hsome, hend, heq⟩ | ⟨hsome, hend, heq⟩ <;> rw [heq]
      · exact .emptySnapshot _ hsnapShot rfl
      · exact .brokenSnapshot _ hsnapShot hsome hend rfl
      · exact .fullSnapshot _ hsnapShot hsome hend rfl
  | timerTick timer =>
      simp only [handle, Option.ite_none_right_eq_some] at hhandle
      obtain ⟨hlive, hnext⟩ := hhandle
      cases hnext
      exact .tick hlive
  | response number slot transport =>
      simp only [handle, Option.ite_none_right_eq_some, respond_eq] at hhandle
      obtain ⟨hflight, hnext⟩ := hhandle
      cases houtcome : DataGetter.outcome transport with
      | ok batch =>
          simp only [houtcome, Option.some.injEq] at hnext
          subst next
          exact .batch hflight houtcome
      | error error =>
          simp only [houtcome, Option.some.injEq] at hnext
          subst next
          exact .failure hflight houtcome
  | notification number =>
      simp only [handle, Option.ite_none_right_eq_some] at hhandle
      obtain ⟨hready, hnext⟩ := hhandle
      cases hnext
      exact .notify hready
  | rowRequest row =>
      simp only [handle, Option.ite_none_right_eq_some, cellForRowAt]
        at hhandle
      obtain ⟨hrow, hnext⟩ := hhandle
      cases hstock : screen.watchList[row]? with
      | none =>
          simp only [hstock, Option.some.injEq] at hnext
          subst next
          exact .rowOutOfRange hrow hstock
      | some stock =>
          simp only [hstock, Option.some.injEq] at hnext
          subst next
          exact .row hrow hstock
  | rowDelete row error =>
      simp only [handle, Option.ite_none_right_eq_some] at hhandle
      obtain ⟨hrow, hnext⟩ := hhandle
      cases hnext
      exact effect_of_commitDelete error hrow

end ProfileTableViewController
end Stockly
