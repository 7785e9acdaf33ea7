import Stockly.SaveActions
import Stockly.SignUpViewController
import Stockly.WelcomeViewController

/-!
# The nodes of the users

The app runs on any number of devices, each with its own signed-in user, and
all of them write to one database.  A sign-up replaces the node of the user
who is signed in when it completes, a Facebook login merges into it, and the
Save buttons and the row deletes work on the watch list below it.
-/

namespace Stockly

open KeyTree

/-- `commit editingStyle` after the row has given its `stockID`, which is
read as a path. -/
def ProfileTableViewController.removeStock (stockID : String)
    (error : Option String) (app : SharedApp) : SharedApp :=
  match app.currentUser with
  | none => app
  | some uid =>
      match childPath stockID with
      | none => { app with trapped := true }
      | some path =>
          match error with
          | some _ =>
              SharedApp.showAlert "Error deleting stock"
                "Please check your connection and try again" app
          | none =>
              { app with
                database :=
                  (Forest.remove (uid.watchListPath ++ path)
                    app.database).getD app.database }

/-- One installation: the `ref` of every results screen that was opened, and
the sign-ups whose account exists but whose completion has not run. -/
structure Device where
  currentUser : Option FirebaseUser
  refs : List (Option Uid)
  signUps : ℕ
  alerts : List Alert
  trapped : Bool

structure UserNodes where
  database : Database
  devices : ℕ → Device

namespace UserNodes

inductive Action where
  | accountCreated (uid : Uid) (email : String)
  | signUpCompleted (usernameField emailField : Option String)
  | signIn (user : FirebaseUser)
  | facebookProfile
  | signOut
  | openResults
  | homeSave (stock : Option Batch) (key : String)
  | resultsSave (screen : ℕ) (quote : Option Quote) (key : String)
  | deleteRow (stockID : String) (error : Option String)
  | relaunch (kept : Bool)

abbrev Event := ℕ × Action

def currentUser (nodes : UserNodes) (device : ℕ) : Option FirebaseUser :=
  (nodes.devices device).currentUser

def currentUid (nodes : UserNodes) (device : ℕ) : Option Uid :=
  (nodes.currentUser device).map fun user => user.uid

def setDevice (device : ℕ) (state : Device) (nodes : UserNodes) : UserNodes :=
  { nodes with devices := Function.update nodes.devices device state }

def app (device : ℕ) (nodes : UserNodes) : SharedApp :=
  { database := nodes.database
    currentUser := nodes.currentUid device
    alerts := (nodes.devices device).alerts
    trapped := (nodes.devices device).trapped }

def withApp (device : ℕ) (app : SharedApp) (nodes : UserNodes) : UserNodes :=
  { nodes.setDevice device
      { nodes.devices device with
        alerts := app.alerts, trapped := app.trapped } with
    database := app.database }

def signUpProfile (usernameField emailField : Option String) (device : ℕ)
    (nodes : UserNodes) : Database :=
  match SignUpViewController.saveUserIntoFirebase usernameField emailField
      (nodes.currentUid device) with
  | none => nodes.database
  | some write => setProfile write nodes.database

def facebookProfile (device : ℕ) (nodes : UserNodes) : Database :=
  (WelcomeController.saveUserIntoFirebase
    (WelcomeController.opened (nodes.currentUser device))).written.foldl
      (fun database write => updateProfile write database) nodes.database

/-- A new account has a uid without data, and automatic ids are fresh. -/
def perform (device : ℕ) (action : Action) (nodes : UserNodes) :
    Option UserNodes :=
  let state := nodes.devices device
  match action with
  | .accountCreated uid email =>
      if (nodes.database.find uid.userPath).isNone then
        some (nodes.setDevice device
          { state with
            currentUser := some (FirebaseUser.mk uid none (some email))
            signUps := state.signUps + 1 })
      else none
  | .signUpCompleted usernameField emailField =>
      if 0 < state.signUps then
        some { nodes.setDevice device
            { state with signUps := state.signUps - 1 } with
          database := nodes.signUpProfile usernameField emailField device }
      else none
  | .signIn user =>
      some (nodes.setDevice device { state with currentUser := some user })
  | .facebookProfile =>
      some { nodes with database := nodes.facebookProfile device }
  | .signOut =>
      some (nodes.setDevice device { state with currentUser := none })
  | .openResults =>
      some (nodes.setDevice device
        { state with
          refs := state.refs ++
            [ResultsViewController.viewDidLoad (nodes.app device)] })
  | .homeSave stock key =>
      if SharedApp.freshKey key nodes.database then
        some (nodes.withApp device
          (HomeStockDetialViewController.saveButtonPressed stock key
            (nodes.app device)))
      else none
  | .resultsSave screen quote key =>
      match state.refs[screen]? with
      | none => none
      | some ref =>
          if SharedApp.freshKey key nodes.database then
            some (nodes.withApp device
              (ResultsViewController.saveButtonPressed ref quote key
                (nodes.app device)))
          else none
  | .deleteRow stockID error =>
      some (nodes.withApp device
        (ProfileTableViewController.removeStock stockID error
          (nodes.app device)))
  | .relaunch kept =>
      some (nodes.setDevice device
        { currentUser := if kept then state.currentUser else none
          refs := [], signUps := 0, alerts := [], trapped := false })

def Action.isRelaunch : Action → Bool
  | .relaunch _ => true
  | _ => false

/-- A device that trapped can only be launched again. -/
def machine : EventMachine UserNodes Event where
  step nodes event :=
    if (nodes.devices event.1).trapped && !event.2.isRelaunch then none
    else nodes.perform event.1 event.2

/-! ## What the database should keep -/

def DeletesAs (uid : Uid) (nodes : UserNodes) (event : Event) : Prop :=
  (∃ stockID, event.2 = .deleteRow stockID none) ∧
    nodes.currentUid event.1 = some uid

/-- What is done as one user changes nothing below another's node. -/
def OthersKept (nodes : UserNodes) (event : Event) (next : UserNodes) :
    Prop :=
  ∀ current uid path, nodes.currentUid event.1 = some current →
    uid ≠ current →
      next.database.find (uid.userPath ++ path) =
        nodes.database.find (uid.userPath ++ path)

def WritesProfile (event : Event) : Prop :=
  event.2 = .facebookProfile ∨
    ∃ usernameField emailField,
      event.2 = .signUpCompleted usernameField emailField

/-- A profile write changes nothing but the name and the email of the user
who is signed in. -/
def ProfileKept (nodes : UserNodes) (event : Event) (next : UserNodes) :
    Prop :=
  WritesProfile event → ∀ path,
    (∀ current, nodes.currentUid event.1 = some current →
      Forest.Apart (current.fieldPath "name") path ∧
        Forest.Apart (current.fieldPath "email") path) →
    next.database.find path = nodes.database.find path

def OwnNodeOnly (nodes : UserNodes) (event : Event) (next : UserNodes) :
    Prop :=
  OthersKept nodes event next ∧ ProfileKept nodes event next

/-- Until a delete is committed as its user, a record stays as it is. -/
def RecordsStay (nodes : UserNodes) (events : List Event) : Prop :=
  ∀ before during after, events = before ++ during ++ after →
    ∀ saved later, machine.run nodes before = some saved →
      machine.run saved during = some later →
      ∀ uid key record,
        saved.database.find (uid.recordPath key) = some record →
        machine.AllSteps (fun state event _ => ¬ DeletesAs uid state event)
          saved during →
          later.database.find (uid.recordPath key) = some record

structure NodesKept (nodes : UserNodes) (events : List Event) : Prop where
  recordsStay : RecordsStay nodes events
  ownNodeOnly : machine.AllSteps OwnNodeOnly nodes events

/-- Nothing stands below the user's node but a name and an email. -/
def OnlyProfile (uid : Uid) (database : Database) : Prop :=
  ∀ field, field ≠ "name" → field ≠ "email" →
    database.find (uid.fieldPath field) = none

/-- The results screen saves for the user for whom it was opened, and a
sign-up completes for a user without data. -/
def WriteGuard (nodes : UserNodes) (event : Event) (_ : UserNodes) : Prop :=
  match event.2 with
  | .resultsSave screen (some _) _ =>
      ∀ current uid, nodes.currentUid event.1 = some current →
        (nodes.devices event.1).refs[screen]? = some (some uid) →
          uid = current
  | .signUpCompleted (some _) (some _) =>
      ∀ current, nodes.currentUid event.1 = some current →
        OnlyProfile current nodes.database
  | _ => True

/-! ## One step -/

inductive Effect (nodes : UserNodes) (event : Event) (next : UserNodes) :
    Prop where
  | unchanged (hguard : WriteGuard nodes event next)
      (hdatabase : next.database = nodes.database)
  | replaced (write : ProfileWrite)
      (haction : event.2 =
        .signUpCompleted (some write.name) (some write.email))
      (hcurrent : nodes.currentUid event.1 = some write.uid)
      (hdatabase : next.database = setProfile write nodes.database)
  | merged (write : ProfileWrite) (haction : event.2 = .facebookProfile)
      (hcurrent : nodes.currentUid event.1 = some write.uid)
      (hdatabase : next.database = updateProfile write nodes.database)
  | homeSaved (stock : Option Batch) (key : String) (uid : Uid)
      (quote : Quote) (haction : event.2 = .homeSave stock key)
      (hcurrent : nodes.currentUid event.1 = some uid)
      (hfresh : SharedApp.freshKey key nodes.database = true)
      (hdatabase : next.database =
        nodes.database.put (savedObject quote key) (uid.recordPath key))
  | resultsSaved (screen : ℕ) (key : String) (uid : Uid) (quote : Quote)
      (haction : event.2 = .resultsSave screen (some quote) key)
      (href : (nodes.devices event.1).refs[screen]? = some (some uid))
      (hfresh : SharedApp.freshKey key nodes.database = true)
      (hdatabase : next.database =
        nodes.database.put (savedObject quote key) (uid.recordPath key))
  | deleted (stockID : String) (uid : Uid) (path : List String)
      (haction : event.2 = .deleteRow stockID none)
      (hcurrent : nodes.currentUid event.1 = some uid)
      (hdatabase : next.database =
        (Forest.remove (uid.watchListPath ++ path) nodes.database).getD
          nodes.database)

theorem removeStock_database_cases (stockID : String)
    (error : Option String) (app : SharedApp) :
    (ProfileTableViewController.removeStock stockID error app).database =
        app.database ∨
      ∃ uid path, error = none ∧ app.currentUser = some uid ∧
        (ProfileTableViewController.removeStock stockID error
            app).database =
          (Forest.remove (uid.watchListPath ++ path) app.database).getD
            app.database := by
  unfold ProfileTableViewController.removeStock
  cases app.currentUser with
  | none => exact Or.inl rfl
  | some uid =>
      cases childPath stockID with
      | none => exact Or.inl rfl
      | some path =>
          cases error with
          | some description => exact Or.inl rfl
          | none => exact Or.inr ⟨uid, path, rfl, rfl, rfl⟩

theorem effect_of_signUpCompleted {nodes next : UserNodes} {device : ℕ}
    (usernameField emailField : Option String)
    (hdatabase : next.database =
      nodes.signUpProfile usernameField emailField device) :
    Effect nodes (device, .signUpCompleted usernameField emailField) next := by
  unfold signUpProfile SignUpViewController.saveUserIntoFirebase at hdatabase
  cases usernameField with
  | none => exact Effect.unchanged trivial hdatabase
  | some name =>
      cases emailField with
      | none => exact Effect.unchanged trivial hdatabase
      | some email =>
          cases hcurrent : nodes.currentUid device with
          | none =>
              rw [hcurrent] at hdatabase
              refine Effect.unchanged (fun current hother => ?_) hdatabase
              rw [hcurrent] at hother
              contradiction
          | some uid =>
              rw [hcurrent] at hdatabase
              exact Effect.replaced (ProfileWrite.mk uid name email) rfl
                hcurrent hdatabase

theorem effect_of_facebookProfile {nodes next : UserNodes} {device : ℕ}
    (hdatabase : next.database = nodes.facebookProfile device) :
    Effect nodes (device, .facebookProfile) next := by
  unfold facebookProfile WelcomeController.saveUserIntoFirebase at hdatabase
  cases huser : nodes.currentUser device with
  | none =>
      rw [huser] at hdatabase
      exact Effect.unchanged trivial hdatabase
  | some user =>
      rw [huser] at hdatabase
      refine Effect.merged (ProfileWrite.mk user.uid _ _) rfl ?_ hdatabase
      simp only [currentUid, huser, Option.map_some]

theorem effect_of_perform {nodes next : UserNodes} {device : ℕ}
    {action : Action} (hnext : nodes.perform device action = some next) :
    Effect nodes (device, action) next := by
  cases action with
  | accountCreated uid email =>
      rcases Option.ite_none_right_eq_some.mp hnext with ⟨-, hnext⟩
      cases hnext
      exact Effect.unchanged trivial rfl
  | signUpCompleted usernameField emailField =>
      rcases Option.ite_none_right_eq_some.mp hnext with ⟨-, hnext⟩
      cases hnext
      exact effect_of_signUpCompleted usernameField emailField rfl
  | signIn user =>
      cases hnext
      exact Effect.unchanged trivial rfl
  | facebookProfile =>
      cases hnext
      exact effect_of_facebookProfile rfl
  | signOut =>
      cases hnext
      exact Effect.unchanged trivial rfl
  | openResults =>
      cases hnext
      exact Effect.unchanged trivial rfl
  | homeSave stock key =>
      rcases Option.ite_none_right_eq_some.mp hnext with ⟨hfresh, hnext⟩
      cases hnext
      rcases homeSave_database_cases stock key (nodes.app device) with
        hsame | ⟨uid, quote, hcurrent, hwritten⟩
      · exact Effect.unchanged trivial hsame
      · exact Effect.homeSaved stock key uid quote rfl hcurrent hfresh hwritten
  | resultsSave screen quote key =>
      simp only [perform] at hnext
      split at hnext
      next => contradiction
      next ref href =>
        rcases Option.ite_none_right_eq_some.mp hnext with ⟨hfresh, hnext⟩
        cases hnext
        cases quote with
        | none =>
            refine Effect.unchanged trivial ?_
            cases ref <;> rfl
        | some quote =>
            cases ref with
            | none =>
                refine Effect.unchanged ?_ rfl
                intro current uid _ hother
                simp only [href, Option.some.injEq, reduceCtorEq] at hother
            | some uid =>
                exact Effect.resultsSaved screen key uid quote rfl href hfresh
                  rfl
  | deleteRow stockID error =>
      cases hnext
      rcases removeStock_database_cases stockID error (nodes.app device) with
        hsame | ⟨uid, path, rfl, hcurrent, hremoved⟩
      · exact Effect.unchanged trivial hsame
      · exact Effect.deleted stockID uid path rfl hcurrent hremoved
  | relaunch kept =>
      cases hnext
      exact Effect.unchanged trivial rfl

theorem effect_of_step {nodes next : UserNodes} {event : Event}
    (hnext : machine.step nodes event = some next) :
    Effect nodes event next := by
  simp only [machine] at hnext
  split at hnext
  next => contradiction
  next => exact effect_of_perform hnext

/-! ## What each write leaves alone -/

theorem find_put_record {uid other : Uid} {key field : String}
    {record saved : KeyTree Scalar} {database : Database}
    (hfresh : SharedApp.freshKey key database = true)
    (hfound : database.find (other.recordPath field) = some saved) :
    (database.put record (uid.recordPath key)).find
      (other.recordPath field) = some saved := by
  have hne : uid.recordPath key ≠ other.recordPath field := by
    intro hsame
    rw [← hsame, SharedApp.find_recordPath_of_freshKey hfresh] at hfound
    contradiction
  have hapart : Forest.Apart (uid.recordPath key) (other.recordPath field) :=
    Forest.apart_of_length_eq hne rfl
  rw [Forest.find_put_of_apart record hapart]
  exact hfound

theorem find_getD_remove {path other : List String} {database : Database}
    (hapart : Forest.Apart path other) :
    ((Forest.remove path database).getD database).find other =
      database.find other := by
  cases hremove : Forest.remove path database with
  | none => rfl
  | some rest => exact Forest.find_remove_of_apart hapart hremove

theorem outside_or_below {uid : Uid} {path : List String}
    (hname : Forest.Apart (uid.fieldPath "name") path)
    (hemail : Forest.Apart (uid.fieldPath "email") path) :
    Forest.Apart uid.userPath path ∨
      ∃ field further, field ≠ "name" ∧ field ≠ "email" ∧
        path = uid.fieldPath field ++ further := by
  by_cases hbelow : uid.userPath <+: path
  · right
    rcases hbelow with ⟨rest, rfl⟩
    cases rest with
    | nil =>
        have habove : uid.userPath ++ [] <+: uid.fieldPath "name" :=
          ⟨["name"], by simp [Uid.userPath, Uid.fieldPath]⟩
        exact absurd habove hname.2
    | cons field further =>
        refine ⟨field, further, ?_, ?_, rfl⟩
        · rintro rfl
          exact hname.1 ⟨further, rfl⟩
        · rintro rfl
          exact hemail.1 ⟨further, rfl⟩
  · left
    refine ⟨hbelow, fun habove => hname.2 ?_⟩
    exact habove.trans ⟨["name"], rfl⟩

theorem find_setProfile_of_onlyProfile {write : ProfileWrite}
    {database : Database} (honly : OnlyProfile write.uid database)
    {path : List String}
    (hname : Forest.Apart (write.uid.fieldPath "name") path)
    (hemail : Forest.Apart (write.uid.fieldPath "email") path) :
    (setProfile write database).find path = database.find path := by
  rcases outside_or_below hname hemail with
    houtside | ⟨field, further, hnotName, hnotEmail, rfl⟩
  · exact find_setProfile_of_apart houtside database
  · rw [find_setProfile_field hnotName hnotEmail]
    have hnothing := honly field hnotName hnotEmail
    exact (Forest.find_append_of_none (List.cons_ne_nil _ _) further
      hnothing).symm

theorem onlyProfile_of_kept {write : ProfileWrite} {database : Database}
    (hkept : ∀ path, Forest.Apart (write.uid.fieldPath "name") path →
      Forest.Apart (write.uid.fieldPath "email") path →
        (setProfile write database).find path = database.find path) :
    OnlyProfile write.uid database := by
  intro field hname hemail
  have hnamePath :
      Forest.Apart (write.uid.fieldPath "name") (write.uid.fieldPath field) :=
    write.uid.apart_of_field_ne hname.symm [] []
  have hemailPath :
      Forest.Apart (write.uid.fieldPath "email") (write.uid.fieldPath field) :=
    write.uid.apart_of_field_ne hemail.symm [] []
  rw [← hkept (write.uid.fieldPath field) hnamePath hemailPath]
  have hgone :
      (setProfile write database).find (write.uid.fieldPath field ++ []) =
        none :=
    find_setProfile_field hname hemail [] database
  exact hgone

/-! ## The law of one step -/

theorem othersKept_of_put {nodes next : UserNodes} {event : Event}
    {uid : Uid} {record : KeyTree Scalar} {key : String}
    (hown : ∀ current, nodes.currentUid event.1 = some current →
      uid = current)
    (hdatabase : next.database =
      nodes.database.put record (uid.recordPath key)) :
    OthersKept nodes event next := by
  intro current other path hcurrent hne
  have huid : uid ≠ other := by
    intro hsame
    exact hne (hsame ▸ hown current hcurrent)
  rw [hdatabase]
  exact Forest.find_put_of_apart record
    (Uid.apart_of_ne huid ["WatchList", key] path) nodes.database

theorem othersKept_of_effect {nodes next : UserNodes} {event : Event}
    (heffect : Effect nodes event next)
    (hguard : WriteGuard nodes event next) :
    OthersKept nodes event next := by
  cases heffect with
  | unchanged _ hdatabase =>
      intro current uid path _ _
      rw [hdatabase]
  | replaced write haction hcurrent hdatabase =>
      intro current uid path hother hne
      rw [hcurrent, Option.some.injEq] at hother
      subst hother
      have hapart := Uid.apart_of_ne hne.symm [] path
      rw [List.append_nil] at hapart
      rw [hdatabase]
      exact find_setProfile_of_apart hapart nodes.database
  | merged write haction hcurrent hdatabase =>
      intro current uid path hother hne
      rw [hcurrent, Option.some.injEq] at hother
      subst hother
      rw [hdatabase]
      exact find_updateProfile_of_apart
        (Uid.apart_of_ne hne.symm ["name"] path)
        (Uid.apart_of_ne hne.symm ["email"] path) nodes.database
  | homeSaved stock key uid quote haction hcurrent hfresh hdatabase =>
      refine othersKept_of_put (fun current hother => ?_) hdatabase
      rw [hcurrent, Option.some.injEq] at hother
      exact hother
  | resultsSaved screen key uid quote haction href hfresh hdatabase =>
      refine othersKept_of_put (fun current hcurrent => ?_) hdatabase
      unfold WriteGuard at hguard
      rw [haction] at hguard
      exact hguard current uid hcurrent href
  | deleted stockID uid removed haction hcurrent hdatabase =>
      intro current other path hother hne
      rw [hcurrent, Option.some.injEq] at hother
      subst hother
      rw [hdatabase]
      exact find_getD_remove
        (Uid.apart_of_ne hne.symm ("WatchList" :: removed) path)

theorem profileKept_of_effect {nodes next : UserNodes} {event : Event}
    (heffect : Effect nodes event next)
    (hguard : WriteGuard nodes event next) :
    ProfileKept nodes event next := by
  intro hprofile path hapart
  cases heffect with
  | unchanged _ hdatabase => rw [hdatabase]
  | replaced write haction hcurrent hdatabase =>
      unfold WriteGuard at hguard
      rw [haction] at hguard
      rcases hapart write.uid hcurrent with ⟨hname, hemail⟩
      rw [hdatabase]
      exact find_setProfile_of_onlyProfile (hguard write.uid hcurrent) hname
        hemail
  | merged write haction hcurrent hdatabase =>
      rcases hapart write.uid hcurrent with ⟨hname, hemail⟩
      rw [hdatabase]
      exact find_updateProfile_of_apart hname hemail nodes.database
  | homeSaved stock key uid quote haction hcurrent hfresh hdatabase =>
      simp [WritesProfile, haction] at hprofile
  | resultsSaved screen key uid quote haction href hfresh hdatabase =>
      simp [WritesProfile, haction] at hprofile
  | deleted stockID uid removed haction hcurrent hdatabase =>
      simp [WritesProfile, haction] at hprofile

theorem writeGuard_of_ownNodeOnly {nodes next : UserNodes} {event : Event}
    (heffect : Effect nodes event next)
    (hown : OwnNodeOnly nodes event next) :
    WriteGuard nodes event next := by
  rcases hown with ⟨hothers, hprofile⟩
  cases heffect with
  | unchanged hguard _ => exact hguard
  | replaced write haction hcurrent hdatabase =>
      unfold WriteGuard
      rw [haction]
      intro current hother
      rw [hcurrent, Option.some.injEq] at hother
      subst hother
      apply onlyProfile_of_kept
      intro path hname hemail
      rw [← hdatabase]
      refine hprofile (Or.inr ⟨_, _, haction⟩) path fun other hother => ?_
      rw [hcurrent, Option.some.injEq] at hother
      subst hother
      exact ⟨hname, hemail⟩
  | merged write haction hcurrent hdatabase =>
      unfold WriteGuard
      rw [haction]
      trivial
  | homeSaved stock key uid quote haction hcurrent hfresh hdatabase =>
      unfold WriteGuard
      rw [haction]
      trivial
  | resultsSaved screen key uid quote haction href hfresh hdatabase =>
      unfold WriteGuard
      rw [haction]
      intro current other hcurrent hother
      rw [href, Option.some.injEq, Option.some.injEq] at hother
      subst hother
      by_contra hne
      have hkept := hothers current uid ["WatchList", key] hcurrent hne
      have hwritten := Forest.find_put_self (savedObject quote key)
        (uid.recordPath_ne_nil key) nodes.database
      have hnothing := SharedApp.find_recordPath_of_freshKey hfresh uid
      rw [hdatabase] at hkept
      have hsame := hwritten.symm.trans (hkept.trans hnothing)
      contradiction
  | deleted stockID uid removed haction hcurrent hdatabase =>
      unfold WriteGuard
      rw [haction]
      trivial

theorem ownNodeOnly_iff_writeGuard {nodes next : UserNodes} {event : Event}
    (hnext : machine.step nodes event = some next) :
    OwnNodeOnly nodes event next ↔ WriteGuard nodes event next := by
  have heffect := effect_of_step hnext
  constructor
  · exact writeGuard_of_ownNodeOnly heffect
  · intro hguard
    exact ⟨othersKept_of_effect heffect hguard,
      profileKept_of_effect heffect hguard⟩

/-- A completion which runs while its new account is signed in is safe. -/
theorem writeGuard_of_newAccount {nodes made : UserNodes} {device : ℕ}
    {uid : Uid} {email : String}
    (hmade : machine.step nodes (device, .accountCreated uid email) =
      some made)
    (usernameField emailField : Option String) (next : UserNodes) :
    WriteGuard made (device, .signUpCompleted usernameField emailField)
      next := by
  simp only [machine] at hmade
  split at hmade
  next => contradiction
  next =>
    rcases Option.ite_none_right_eq_some.mp hmade with ⟨hnew, hmade⟩
    cases hmade
    have hnone : nodes.database.find uid.userPath = none := by
      simpa using hnew
    unfold WriteGuard
    split
    next => contradiction
    next name written haction =>
      intro current hcurrent field _ _
      have huid : uid = current := by
        simpa [currentUid, currentUser, setDevice] using hcurrent
      subst huid
      exact Forest.find_append_of_none uid.userPath_ne_nil [field] hnone
    next => trivial

/-! ## Records -/

theorem record_step {nodes next : UserNodes} {event : Event} {uid : Uid}
    {key : String} {record : KeyTree Scalar}
    (hnext : machine.step nodes event = some next)
    (hguard : WriteGuard nodes event next)
    (hdelete : ¬ DeletesAs uid nodes event)
    (hrecord : nodes.database.find (uid.recordPath key) = some record) :
    next.database.find (uid.recordPath key) = some record := by
  have heffect := effect_of_step hnext
  cases heffect with
  | unchanged _ hdatabase =>
      rw [hdatabase]
      exact hrecord
  | replaced write haction hcurrent hdatabase =>
      unfold WriteGuard at hguard
      rw [haction] at hguard
      rw [hdatabase, find_setProfile_of_onlyProfile
        (hguard write.uid hcurrent)
        (write.uid.fieldPath_apart_recordPath uid (by decide) key)
        (write.uid.fieldPath_apart_recordPath uid (by decide) key)]
      exact hrecord
  | merged write haction hcurrent hdatabase =>
      rw [hdatabase, find_updateProfile_of_apart
        (write.uid.fieldPath_apart_recordPath uid (by decide) key)
        (write.uid.fieldPath_apart_recordPath uid (by decide) key)]
      exact hrecord
  | homeSaved stock other owner quote haction hcurrent hfresh hdatabase =>
      rw [hdatabase]
      exact find_put_record hfresh hrecord
  | resultsSaved screen other owner quote haction href hfresh hdatabase =>
      rw [hdatabase]
      exact find_put_record hfresh hrecord
  | deleted stockID owner removed haction hcurrent hdatabase =>
      have hne : owner ≠ uid := by
        rintro rfl
        exact hdelete ⟨⟨stockID, haction⟩, hcurrent⟩
      have hapart :
          Forest.Apart (owner.watchListPath ++ removed) (uid.recordPath key) :=
        Uid.apart_of_ne hne ("WatchList" :: removed) ["WatchList", key]
      rw [hdatabase, find_getD_remove hapart]
      exact hrecord

theorem recordsStay_of_writeGuard {nodes : UserNodes} {events : List Event}
    (hguard : machine.AllSteps WriteGuard nodes events) :
    RecordsStay nodes events := by
  intro before during after hsplit saved later hsaved hlater uid key record
    hrecord hdeletes
  rw [hsplit, EventMachine.allSteps_append] at hguard
  have hstart := EventMachine.allSteps_append.mp hguard.1
  have hduring := (hstart.2 saved hsaved).and hdeletes
  have hall := EventMachine.allStates_of_guard
    (fun hfound => hfound)
    (fun hfound hnext hstep => record_step hnext hstep.1 hstep.2 hfound)
    hrecord during hduring
  exact hall.of_run hlater

theorem nodesKept_iff (nodes : UserNodes) (events : List Event) :
    NodesKept nodes events ↔ machine.AllSteps WriteGuard nodes events := by
  have hown := EventMachine.allSteps_congr ownNodeOnly_iff_writeGuard nodes
    events
  constructor
  · intro hkept
    exact hown.mp hkept.ownNodeOnly
  · intro hguard
    exact ⟨recordsStay_of_writeGuard hguard, hown.mpr hguard⟩

def signedOutDevice : Device :=
  { currentUser := none, refs := [], signUps := 0, alerts := []
    trapped := false }

def savesForCarol : List Event :=
  [(0, .signIn ⟨⟨"carol", by decide⟩, none, some "carol@mail.com"⟩),
    (0, .openResults), (0, .signOut),
    (0, .signIn ⟨⟨"dan", by decide⟩, none, some "dan@mail.com"⟩)]

theorem not_nodesKept_savesForCarol :
    ¬ NodesKept { database := [], devices := fun _ => signedOutDevice }
      (savesForCarol ++
        [(0, .resultsSave 0 (some (.named "AAPL" "Apple Inc"))
          "-M000000000000000000")]) := by
  intro hkept
  have hlast := EventMachine.AllSteps.last savesForCarol hkept.ownNodeOnly rfl
    rfl
  have hcarol := hlast.1 ⟨"dan", by decide⟩ ⟨"carol", by decide⟩
    ["WatchList", "-M000000000000000000"] rfl (by decide)
  have hsaved :
      some (savedObject (.named "AAPL" "Apple Inc") "-M000000000000000000") =
        none := hcarol
  contradiction

end UserNodes

end Stockly
