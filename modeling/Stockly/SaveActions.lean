import Stockly.EventMachine
import Stockly.FirebaseAccounts

/-!
# The two Save buttons

The detail screen of the Home table looks up the signed-in user and the
reference at the tap.  The results screen makes its reference when it loads,
and keeps it: `nil` when nobody was signed in then.  The two are run here side
by side, on the same history of the signed-in user.
-/

namespace Stockly

open KeyTree

structure SharedApp where
  database : Database
  currentUser : Option Uid
  alerts : List Alert
  trapped : Bool

namespace SharedApp

def showAlert (title message : String) (app : SharedApp) : SharedApp :=
  { app with alerts := app.alerts ++ [Alert.mk title message] }

def savedMessage (companyName : String) : String :=
  "Successfully added " ++ companyName ++ " to watchlist"

/-- An automatic id under which no watch list has a record. -/
def freshKey (key : String) (database : Database) : Bool :=
  decide (IsAutoId key) &&
    (database.below "users").keys.all fun uid =>
      (Forest.find ["users", uid, "WatchList", key] database).isNone

end SharedApp

/-- `HomeStockDetialViewController.saveButtonPressed`, where `key` is the
automatic id. -/
def HomeStockDetialViewController.saveButtonPressed (stock : Option Batch)
    (key : String) (app : SharedApp) : SharedApp :=
  match app.currentUser with
  | none => app
  | some uid =>
      match stock with
      | none => app
      | some stock =>
          SharedApp.showAlert "Stock Saved!"
            (SharedApp.savedMessage stock.quote.companyName)
            { app with
              database := app.database.put
                (HomeStockDetialViewController.object stock key)
                (uid.recordPath key) }

/-- The `ref` of `ResultsViewController.viewDidLoad`, given by the user to
whose watch list it refers. -/
def ResultsViewController.viewDidLoad (app : SharedApp) : Option Uid :=
  app.currentUser

/-- `ResultsViewController.saveButtonPressed` forces its `ref` first. -/
def ResultsViewController.saveButtonPressed (ref : Option Uid)
    (quote : Option Quote) (key : String) (app : SharedApp) : SharedApp :=
  match ref with
  | none => { app with trapped := true }
  | some uid =>
      match quote with
      | none => app
      | some quote =>
          SharedApp.showAlert "Stock Saved!"
            (SharedApp.savedMessage quote.companyName)
            { app with
              database := app.database.put
                (ResultsViewController.object quote key)
                (uid.recordPath key) }

/-! ## What a tap writes -/

theorem SharedApp.find_recordPath_of_freshKey {key : String}
    {database : Database} (hfresh : SharedApp.freshKey key database = true) (uid : Uid) :
    Forest.find (uid.recordPath key) database = none := by
  simp only [SharedApp.freshKey, Bool.and_eq_true, List.all_eq_true]
    at hfresh
  replace hfresh := hfresh.2
  by_cases hknown : uid.text ∈ (database.below "users").keys
  · simpa [Uid.recordPath] using hfresh uid.text hknown
  · have hlookup : (database.below "users").lookup uid.text = none := by
      rw [← Option.not_isSome_iff_eq_none, Forest.isSome_lookup_iff]
      exact hknown
    have huser : Forest.find uid.userPath database = none := hlookup
    exact Forest.find_append_of_none uid.userPath_ne_nil
      ["WatchList", key] huser

theorem homeSave_database_cases (stock : Option Batch) (key : String)
    (app : SharedApp) :
    (HomeStockDetialViewController.saveButtonPressed stock key
        app).database = app.database ∨
      ∃ uid quote, app.currentUser = some uid ∧
        (HomeStockDetialViewController.saveButtonPressed stock key
            app).database =
          app.database.put (savedObject quote key) (uid.recordPath key) := by
  unfold HomeStockDetialViewController.saveButtonPressed
  cases app.currentUser with
  | none => exact Or.inl rfl
  | some uid =>
      cases stock with
      | none => exact Or.inl rfl
      | some stock => exact Or.inr ⟨uid, stock.quote, rfl, rfl⟩

/-! ## Side by side -/

structure BothScreens where
  home : SharedApp
  results : SharedApp
  ref : Option Uid

namespace BothScreens

inductive Event where
  | authChanged (user : Option Uid)
  | tap (key : String)

def loaded (user : Option Uid) (database : Database) : BothScreens :=
  let app : SharedApp :=
    { database := database, currentUser := user, alerts := [],
      trapped := false }
  { home := app, results := app, ref := ResultsViewController.viewDidLoad app }

/-- The results screen has loaded the quote of the stock. -/
def machine (stock : Batch) : EventMachine BothScreens Event where
  step screens
    | .authChanged user =>
        if screens.results.trapped then none
        else
          some { screens with
            home := { screens.home with currentUser := user }
            results := { screens.results with currentUser := user } }
    | .tap key =>
        if screens.results.trapped = false ∧
            SharedApp.freshKey key screens.home.database ∧
            SharedApp.freshKey key screens.results.database then
          some { screens with
            home := HomeStockDetialViewController.saveButtonPressed
              (some stock) key screens.home
            results := ResultsViewController.saveButtonPressed screens.ref
              (some stock.quote) key screens.results }
        else none

/-- One new record under the watch list of the signed-in user, or no change
when nobody is signed in. -/
def savedFor (quote : Quote) (key : String) (app : SharedApp) : SharedApp :=
  match app.currentUser with
  | none => app
  | some uid =>
      SharedApp.showAlert "Stock Saved!"
        (SharedApp.savedMessage quote.companyName)
        { app with
          database :=
            app.database.put (savedObject quote key) (uid.recordPath key) }

def SameEffect (stock : Batch) (screens : BothScreens) (event : Event)
    (next : BothScreens) : Prop :=
  ∀ key, event = .tap key →
    next.home = savedFor stock.quote key screens.home ∧
      next.results = next.home

/-- The user who is signed in at the tap was so when the screen loaded. -/
def UserGuard (screens : BothScreens) (event : Event) (_ : BothScreens) :
    Prop :=
  ∀ key, event = .tap key →
    ∃ uid, screens.results.currentUser = some uid ∧ screens.ref = some uid

/-! ## One tap -/

/-- For a signed-in user it is one new record, and nothing else changes. -/
theorem savedFor_oneRecord {uid : Uid} {key : String} {app : SharedApp}
    (huser : app.currentUser = some uid)
    (hfresh : SharedApp.freshKey key app.database = true) (quote : Quote) :
    app.database.find (uid.recordPath key) = none ∧
      (savedFor quote key app).database.find (uid.recordPath key) =
        some (savedObject quote key) ∧
      ∀ path, Forest.Apart (uid.recordPath key) path →
        (savedFor quote key app).database.find path =
          app.database.find path := by
  have hdatabase : (savedFor quote key app).database =
      app.database.put (savedObject quote key) (uid.recordPath key) := by
    simp only [savedFor, huser, SharedApp.showAlert]
  rw [hdatabase]
  refine ⟨SharedApp.find_recordPath_of_freshKey hfresh uid, ?_, ?_⟩
  · exact Forest.find_put_self _ (uid.recordPath_ne_nil key) app.database
  · intro path hapart
    exact Forest.find_put_of_apart _ hapart app.database

theorem find_resultsSave (uid : Uid) (quote : Quote) (key : String)
    (app : SharedApp) :
    (ResultsViewController.saveButtonPressed (some uid) (some quote) key
        app).database.find (uid.recordPath key) =
      some (savedObject quote key) := by
  have hwritten := Forest.find_put_self (savedObject quote key)
    (uid.recordPath_ne_nil key) app.database
  exact hwritten

theorem find_homeSave_of_ne {uid : Uid} {app : SharedApp}
    (hother : app.currentUser ≠ some uid) (stock : Batch) (key : String) :
    (HomeStockDetialViewController.saveButtonPressed (some stock) key
        app).database.find (uid.recordPath key) =
      app.database.find (uid.recordPath key) := by
  rcases homeSave_database_cases (some stock) key app with
    hsame | ⟨current, quote, huser, hwritten⟩
  · rw [hsame]
  · have hne : current ≠ uid := by
      rintro rfl
      exact hother huser
    rw [hwritten]
    exact Forest.find_put_of_apart _
      (Uid.apart_of_ne hne ["WatchList", key] ["WatchList", key]) app.database

theorem homeSave_eq_savedFor (stock : Batch) (key : String)
    (app : SharedApp) :
    HomeStockDetialViewController.saveButtonPressed (some stock) key app =
      savedFor stock.quote key app := by
  cases huser : app.currentUser with
  | none =>
      simp only [HomeStockDetialViewController.saveButtonPressed, savedFor,
        huser]
  | some uid =>
      simp only [HomeStockDetialViewController.saveButtonPressed, savedFor,
        huser, HomeStockDetialViewController.object]

theorem resultsSave_eq_iff {key : String} {app : SharedApp}
    (huntrapped : app.trapped = false)
    (hfresh : SharedApp.freshKey key app.database = true)
    (ref : Option Uid) (stock : Batch) :
    ResultsViewController.saveButtonPressed ref (some stock.quote) key app =
        HomeStockDetialViewController.saveButtonPressed (some stock) key
          app ↔
      ∃ uid, app.currentUser = some uid ∧ ref = some uid := by
  constructor
  · intro hsame
    cases ref with
    | none =>
        have htrapped := congrArg SharedApp.trapped hsame
        rw [homeSave_eq_savedFor] at htrapped
        cases huser : app.currentUser with
        | none =>
            simp [ResultsViewController.saveButtonPressed, savedFor, huser,
              huntrapped] at htrapped
        | some uid =>
            simp [ResultsViewController.saveButtonPressed, savedFor, huser,
              SharedApp.showAlert, huntrapped] at htrapped
    | some uid =>
        refine ⟨uid, ?_, rfl⟩
        by_contra hother
        have hwritten := find_resultsSave uid stock.quote key app
        have hunchanged := find_homeSave_of_ne hother stock key
        rw [hsame, hunchanged, SharedApp.find_recordPath_of_freshKey hfresh uid]
          at hwritten
        contradiction
  · rintro ⟨uid, huser, rfl⟩
    simp only [ResultsViewController.saveButtonPressed,
      HomeStockDetialViewController.saveButtonPressed, huser,
      ResultsViewController.object, HomeStockDetialViewController.object]

/-! ## Runs -/

structure Agree (screens : BothScreens) : Prop where
  same : screens.results = screens.home
  untrapped : screens.results.trapped = false

theorem loaded_agree (user : Option Uid) (database : Database) :
    (loaded user database).Agree := by
  constructor <;> rfl

theorem sameEffect_iff_userGuard {stock : Batch}
    {screens next : BothScreens} {event : Event} (hagree : screens.Agree)
    (hnext : (machine stock).step screens event = some next) :
    SameEffect stock screens event next ↔
      UserGuard screens event next := by
  cases event with
  | authChanged user => simp [SameEffect, UserGuard]
  | tap key =>
      simp only [machine] at hnext
      split at hnext
      next hready =>
        cases hnext
        have hfresh := hready.2.2
        have hiff := resultsSave_eq_iff hagree.untrapped hfresh screens.ref
          stock
        simp only [SameEffect, UserGuard, Event.tap.injEq, forall_eq',
          homeSave_eq_savedFor, true_and]
        rw [← hagree.same, ← homeSave_eq_savedFor]
        exact hiff
      next => contradiction

theorem agree_step {stock : Batch} {screens next : BothScreens}
    {event : Event} (hagree : screens.Agree)
    (hnext : (machine stock).step screens event = some next)
    (hguard : UserGuard screens event next) : next.Agree := by
  have hsame := (sameEffect_iff_userGuard hagree hnext).mpr hguard
  cases event with
  | authChanged user =>
      simp only [machine] at hnext
      split at hnext
      next => contradiction
      next =>
        cases hnext
        exact ⟨by rw [hagree.same], hagree.untrapped⟩
  | tap key =>
      rcases hguard key rfl with ⟨uid, huser, href⟩
      rcases hsame key rfl with ⟨-, hresults⟩
      refine ⟨hresults, ?_⟩
      simp only [machine] at hnext
      split at hnext
      next =>
        cases hnext
        simp only [href, ResultsViewController.saveButtonPressed,
          SharedApp.showAlert]
        exact hagree.untrapped
      next => contradiction

theorem sameEffect_iff (stock : Batch) (user : Option Uid)
    (database : Database) (events : List Event) :
    (machine stock).AllSteps (SameEffect stock) (loaded user database)
        events ↔
      (machine stock).AllSteps UserGuard (loaded user database) events :=
  EventMachine.allSteps_iff_guard agree_step sameEffect_iff_userGuard
    (loaded_agree user database) events

theorem not_sameEffect_signedOut :
    ¬ (machine (.named "AAPL" "Apple Inc")).AllSteps
      (SameEffect (.named "AAPL" "Apple Inc")) (loaded none [])
      [.tap "-M000000000000000000"] := by
  intro hall
  have hstep : (machine (.named "AAPL" "Apple Inc")).step (loaded none [])
      (.tap "-M000000000000000000") =
      some { loaded none [] with
        results := { (loaded none []).results with trapped := true } } := rfl
  rcases hall _ hstep with ⟨hsame, -⟩
  rcases hsame "-M000000000000000000" rfl with ⟨-, hresults⟩
  have htrapped : true = false := congrArg SharedApp.trapped hresults
  contradiction

end BothScreens

end Stockly
