import Stockly.SignUpViewController
import Stockly.WelcomeViewController

/-!
# The name on the settings screen

The completion of a sign-up stores the name on the device, a successful
sign-out removes it again, and the settings screen prefers it to the name in
the database.  The other ways in do not touch it, and neither does a launch
which finds that the session is gone, or one which comes between the creation
of an account and the completion.
-/

namespace Stockly

open KeyTree

inductive Presented where
  | launchScreen
  | onboarding
  | mainTabBar
deriving DecidableEq, Repr

/-- What outlives a screen, and the name each account was signed up with. -/
structure AppSession where
  hasRunBefore : Bool
  currentUser : Option FirebaseUser
  storedName : Option String
  signUpNames : List (Uid × String)
  signUps : List SignUpRequest
  database : Database
  presented : Presented
  alerts : List Alert

namespace AppSession

def showAlert (title message : String) (session : AppSession) : AppSession :=
  { session with alerts := session.alerts ++ [Alert.mk title message] }

def installed (currentUser : Option FirebaseUser)
    (signUpNames : List (Uid × String)) (database : Database) : AppSession :=
  { hasRunBefore := false, currentUser := currentUser, storedName := none
    signUpNames := signUpNames, signUps := [], database := database
    presented := .launchScreen, alerts := [] }

end AppSession

/-- `application(_:didFinishLaunchingWithOptions:)`: the first launch signs
out whoever a former installation has left signed in. -/
def AppDelegate.didFinishLaunching (signOutError : Option String)
    (session : AppSession) : AppSession :=
  if session.hasRunBefore then session
  else
    { session with
      currentUser :=
        if signOutError.isNone then none else session.currentUser
      hasRunBefore := true }

def LaunchScreenViewController.checkLoggedInUserStatus
    (session : AppSession) : AppSession :=
  { session with
    presented :=
      if session.currentUser.isNone then .onboarding else .mainTabBar }

/-- A new process: whoever is in the keychain may be kept, and no completion
of an earlier sign-up is called. -/
def AppSession.launch (kept : Bool) (signOutError : Option String)
    (session : AppSession) : AppSession :=
  LaunchScreenViewController.checkLoggedInUserStatus
    (AppDelegate.didFinishLaunching signOutError
      { session with
        currentUser := if kept then session.currentUser else none
        signUps := [] })

/-! ## The ways in and out -/

def SignUpViewController.filled (name email password : String)
    (session : AppSession) : SignUpViewController :=
  { opened (session.currentUser.map fun user => user.uid)
      session.storedName with
    usernameField := some name
    emailField := some email
    passwordField := some password
    alerts := session.alerts }

/-- A tap on Sign Up, which asks for an account unless the checks fail. -/
def AppSession.signUp (name email password : String) (session : AppSession) :
    AppSession :=
  let tapped :=
    (SignUpViewController.filled name email password
      session).signUpButtonPressed
  { session with
    signUps := session.signUps ++ tapped.requests, alerts := tapped.alerts }

def AppSession.advance (number : ℕ) (request : SignUpRequest)
    (progress : SignUpProgress) (session : AppSession) : AppSession :=
  { session with
    signUps :=
      session.signUps.set number { request with progress := progress } }

/-- `updateCurrentUser:byForce:savingToDisk:error:` for a new account. -/
def AppSession.accountCreated (number : ℕ) (request : SignUpRequest)
    (uid : Uid) (session : AppSession) : AppSession :=
  { session.advance number request .created with
    currentUser := some (FirebaseUser.mk uid none (some request.email))
    signUpNames := (uid, request.name) :: session.signUpNames }

/-- The completion, with the fields as they were at the tap. -/
def AppSession.signUpCompleted (request : SignUpRequest)
    (error : Option String) (session : AppSession) : AppSession :=
  let screen :=
    SignUpViewController.completed request.name error
      (SignUpViewController.filled request.name request.email
        request.password session)
  { session with
    storedName := screen.storedName
    database := screen.written.foldl
      (fun database write => setProfile write database) session.database
    presented := if error.isNone then .mainTabBar else session.presented
    alerts := screen.alerts }

/-- The completion of `SignInViewController.signInButtonTapped`. -/
def SignInViewController.signedIn (outcome : Except String FirebaseUser)
    (session : AppSession) : AppSession :=
  match outcome with
  | .error description =>
      AppSession.showAlert "Sign In Error" description session
  | .ok user =>
      { session with currentUser := some user, presented := .mainTabBar }

def AppSession.facebookSignIn (outcome : Except String FirebaseUser)
    (session : AppSession) : AppSession :=
  let screen :=
    WelcomeController.signedIn outcome
      { WelcomeController.opened session.currentUser with
        alerts := session.alerts }
  { session with currentUser := screen.currentUser, alerts := screen.alerts }

def AppSession.facebookProfile (session : AppSession) : AppSession :=
  let screen :=
    WelcomeController.saveUserIntoFirebase
      (WelcomeController.opened session.currentUser)
  { session with
    database := screen.written.foldl
      (fun database write => updateProfile write database) session.database
    presented := .mainTabBar }

/-- The labels are `none` until `updateViews` has written them. -/
structure SettingsViewController where
  nameLabel : Option String
  emailLabel : Option String
  alerts : List Alert

namespace SettingsViewController

/-- The `"Sign Out"` action of `handleSignOutButtonTapped`. -/
def handleSignOutButtonTapped (error : Option String)
    (session : AppSession) : AppSession :=
  match error with
  | some description =>
      AppSession.showAlert "Sign Out Error" description session
  | none =>
      { session with
        currentUser := none, storedName := none, presented := .onboarding }

structure CurrentUser where
  uid : Uid
  name : String
  phoneNumber : String
  email : String

/-- `dictionary[key] as? String ?? ""`. -/
def textAt (key : String) (dictionary : Forest Scalar) : String :=
  match dictionary.lookup key with
  | some (.leaf (.string text)) => text
  | _ => ""

def CurrentUser.ofDictionary (uid : Uid) (dictionary : Forest Scalar) :
    CurrentUser :=
  { uid := uid, name := textAt "name" dictionary
    phoneNumber := textAt "phone number" dictionary
    email := textAt "email" dictionary }

def opened : SettingsViewController :=
  { nameLabel := none, emailLabel := none, alerts := [] }

def showAlert (title message : String) (screen : SettingsViewController) :
    SettingsViewController :=
  { screen with alerts := screen.alerts ++ [Alert.mk title message] }

/-- `updateViews` with its read of the user's node, which may fail. -/
def updateViews (readError : Option String) (session : AppSession)
    (screen : SettingsViewController) : SettingsViewController :=
  match session.currentUser with
  | none =>
      showAlert "Error Getting User" "please check connection and try again."
        screen
  | some currentUser =>
      match session.storedName with
      | some name =>
          { screen with
            nameLabel := some name, emailLabel := currentUser.email }
      | none =>
          match readError with
          | some description =>
              showAlert "Error Finding User" description screen
          | none =>
              match session.database.find currentUser.uid.userPath with
              | some (.branch dictionary) =>
                  let user := CurrentUser.ofDictionary currentUser.uid
                    dictionary
                  { screen with
                    nameLabel := some user.name
                    emailLabel := currentUser.email }
              | _ => screen

end SettingsViewController

/-! ## The machine -/

namespace AppSession

open SettingsViewController

inductive Event where
  | launch (kept : Bool) (signOutError : Option String)
  | signUp (name email password : String)
  | accountCreated (number : ℕ) (uid : Uid)
  | signUpCompleted (number : ℕ) (error : Option String)
  | signIn (outcome : Except String FirebaseUser)
  | facebookSignIn (outcome : Except String FirebaseUser)
  | facebookProfile
  | signOut (error : Option String)

/-- Firebase gives a new account a uid that nobody has had. -/
def isNewAccount (uid : Uid) (session : AppSession) : Bool :=
  (session.signUpNames.lookup uid).isNone &&
    (session.database.find uid.userPath).isNone

def machine : EventMachine AppSession Event where
  step session
    | .launch kept signOutError => some (session.launch kept signOutError)
    | .signUp name email password => some (session.signUp name email password)
    | .accountCreated number uid =>
        if session.isNewAccount uid then
          (SignUpRequest.find session.signUps number .sent).map
            fun request => session.accountCreated number request uid
        else none
    | .signUpCompleted number error =>
        (SignUpRequest.find session.signUps number
          (SignUpRequest.answering error)).map
            fun request =>
              (session.advance number request .answered).signUpCompleted
                request error
    | .signIn outcome => some (SignInViewController.signedIn outcome session)
    | .facebookSignIn outcome => some (session.facebookSignIn outcome)
    | .facebookProfile => some session.facebookProfile
    | .signOut error => some (handleSignOutButtonTapped error session)

def StoredNameRight (session : AppSession) : Prop :=
  ∀ user name, session.currentUser = some user →
    session.storedName = some name →
      session.signUpNames.lookup user.uid = some name

/-- The settings screen shows the email of the signed-in user, next to a name
which they signed up with or which is in their own profile. -/
def ShowsOwnName (session : AppSession) : Prop :=
  ∀ user readError name, session.currentUser = some user →
    (updateViews readError session .opened).nameLabel = some name →
      (updateViews readError session .opened).emailLabel = user.email ∧
        (session.signUpNames.lookup user.uid = some name ∨
          ∃ dictionary,
            session.database.find user.uid.userPath =
                some (.branch dictionary) ∧
              textAt "name" dictionary = name)

def NameRight (session : AppSession) : Prop :=
  session.StoredNameRight ∧ session.ShowsOwnName

/-- Whoever becomes the signed-in user finds no stored name, or the one they
signed up with; and a success is told to nobody, or to a user who signed up
with the name that is then stored. -/
structure SignInGuard (session : AppSession) (event : Event)
    (_ : AppSession) : Prop where
  signIn : ∀ user name,
    event = .signIn (.ok user) ∨ event = .facebookSignIn (.ok user) →
    session.storedName = some name →
      session.signUpNames.lookup user.uid = some name
  accountCreated : ∀ number uid request name,
    event = .accountCreated number uid →
    session.signUps[number]? = some request →
    session.storedName = some name → name = request.name
  signUpCompleted : ∀ number request user,
    event = .signUpCompleted number none →
    session.signUps[number]? = some request →
    session.currentUser = some user →
      session.signUpNames.lookup user.uid = some request.name

/-! ## One step -/

theorem showsOwnName_of_storedNameRight {session : AppSession}
    (hright : session.StoredNameRight) : session.ShowsOwnName := by
  intro user readError name huser hname
  cases hstored : session.storedName with
  | some stored =>
      simp only [updateViews, huser, hstored, Option.some.injEq] at hname ⊢
      subst hname
      exact ⟨trivial, Or.inl (hright user stored huser hstored)⟩
  | none =>
      cases readError with
      | some description =>
          simp [updateViews, huser, hstored, opened,
            SettingsViewController.showAlert] at hname
      | none =>
          simp only [updateViews, huser, hstored] at hname ⊢
          split at hname
          next dictionary hnode =>
            have hlabel : textAt "name" dictionary = name :=
              Option.some.inj hname
            rw [hnode]
            exact ⟨rfl, Or.inr ⟨dictionary, rfl, hlabel⟩⟩
          next => contradiction

theorem StoredNameRight.of_eq {session next : AppSession}
    (hright : session.StoredNameRight)
    (huser : next.currentUser = session.currentUser)
    (hstored : next.storedName = session.storedName)
    (hnames : next.signUpNames = session.signUpNames) :
    next.StoredNameRight := by
  unfold StoredNameRight
  rw [huser, hstored, hnames]
  exact hright

theorem storedNameRight_of_signedOut {session : AppSession}
    (hsignedOut : session.currentUser = none) :
    session.StoredNameRight := by
  intro user name huser
  rw [hsignedOut] at huser
  contradiction

theorem launch_cases (kept : Bool) (signOutError : Option String)
    (session : AppSession) :
    ((session.launch kept signOutError).currentUser = none ∨
        (session.launch kept signOutError).currentUser =
          session.currentUser) ∧
      (session.launch kept signOutError).storedName = session.storedName ∧
      (session.launch kept signOutError).signUpNames =
        session.signUpNames := by
  unfold launch AppDelegate.didFinishLaunching
    LaunchScreenViewController.checkLoggedInUserStatus
  cases kept <;> cases signOutError <;> cases session.hasRunBefore <;>
    simp

theorem requests_filled (name email password : String)
    (session : AppSession) :
    (SignUpViewController.filled name email password
        session).signUpButtonPressed.requests =
      if name ≠ "" ∧ SignUpViewController.isValidName name = true ∧
          SignUpViewController.isValidEmail email = true then
        [SignUpRequest.mk name email password .sent]
      else [] := by
  unfold SignUpViewController.signUpButtonPressed
  simp only [SignUpViewController.filled, Option.some.injEq]
  by_cases hempty : name = ""
  · simp [hempty, SignUpViewController.showAlert,
      SignUpViewController.opened]
  · by_cases hname : SignUpViewController.isValidName name = true
    · by_cases hemail : SignUpViewController.isValidEmail email = true
      · simp [hempty, hname, hemail, SignUpViewController.opened]
      · simp [hempty, hname, hemail, SignUpViewController.showAlert,
          SignUpViewController.opened]
    · simp [hempty, hname, SignUpViewController.showAlert,
        SignUpViewController.opened]

theorem accountCreated_step {session next : AppSession} {number : ℕ}
    {uid : Uid}
    (hnext : machine.step session (.accountCreated number uid) = some next) :
    ∃ request, session.signUps[number]? = some request ∧
      next = session.accountCreated number request uid := by
  rcases Option.ite_none_right_eq_some.mp hnext with ⟨-, hnext⟩
  rcases Option.map_eq_some_iff.mp hnext with ⟨request, hfind, hsame⟩
  exact ⟨request, (SignUpRequest.find_eq_some_iff.mp hfind).1, hsame.symm⟩

theorem signUpCompleted_step {session next : AppSession} {number : ℕ}
    {error : Option String}
    (hnext : machine.step session (.signUpCompleted number error) =
      some next) :
    ∃ request, session.signUps[number]? = some request ∧
      next = (session.advance number request .answered).signUpCompleted
        request error := by
  rcases Option.map_eq_some_iff.mp hnext with ⟨request, hfind, hsame⟩
  exact ⟨request, (SignUpRequest.find_eq_some_iff.mp hfind).1, hsame.symm⟩

theorem storedName_signUpCompleted (request : SignUpRequest)
    (error : Option String) (session : AppSession) :
    (session.signUpCompleted request error).storedName =
      if error.isNone then some request.name else session.storedName := by
  cases error <;> rfl

theorem storedNameRight_accountCreated {session : AppSession} {number : ℕ}
    {request : SignUpRequest} {uid : Uid} :
    (session.accountCreated number request uid).StoredNameRight ↔
      ∀ name, session.storedName = some name → name = request.name := by
  constructor
  · intro hright name hstored
    have hlookup := hright _ name rfl hstored
    have hsame : some request.name = some name :=
      List.lookup_cons_self.symm.trans hlookup
    exact (Option.some.inj hsame).symm
  · intro hguard user name huser hstored
    cases huser
    rw [hguard name hstored]
    exact List.lookup_cons_self

theorem storedNameRight_signUpCompleted {session : AppSession} {number : ℕ}
    {request : SignUpRequest} {error : Option String} :
    ((session.advance number request .answered).signUpCompleted
        request error).StoredNameRight ↔
      ∀ user name, session.currentUser = some user →
        (if error.isNone then some request.name else session.storedName) =
            some name →
          session.signUpNames.lookup user.uid = some name := by
  unfold StoredNameRight
  rw [storedName_signUpCompleted]
  rfl

theorem storedNameRight_step {session next : AppSession} {event : Event}
    (hright : session.StoredNameRight)
    (hnext : machine.step session event = some next)
    (hguard : SignInGuard session event next) : next.StoredNameRight := by
  cases event with
  | launch kept signOutError =>
      cases hnext
      obtain ⟨hnobody | hsame, hstored, hnames⟩ :=
        launch_cases kept signOutError session
      · exact storedNameRight_of_signedOut hnobody
      · exact hright.of_eq hsame hstored hnames
  | signUp name email password =>
      cases hnext
      exact hright.of_eq rfl rfl rfl
  | accountCreated number uid =>
      rcases accountCreated_step hnext with ⟨request, hrequest, rfl⟩
      apply storedNameRight_accountCreated.mpr
      intro name hstored
      exact hguard.accountCreated number uid request name rfl hrequest hstored
  | signUpCompleted number error =>
      rcases signUpCompleted_step hnext with ⟨request, hrequest, rfl⟩
      apply storedNameRight_signUpCompleted.mpr
      intro user name huser hstored
      cases error with
      | some description => exact hright user name huser hstored
      | none =>
          have hsame : request.name = name := Option.some.inj hstored
          rw [← hsame]
          exact hguard.signUpCompleted number request user rfl hrequest huser
  | signIn outcome =>
      cases hnext
      cases outcome with
      | error description => exact hright.of_eq rfl rfl rfl
      | ok user =>
          intro other name hother hcached
          cases hother
          exact hguard.signIn user name (Or.inl rfl) hcached
  | facebookSignIn outcome =>
      cases hnext
      cases outcome with
      | error description => exact hright.of_eq rfl rfl rfl
      | ok user =>
          intro other name hother hcached
          cases hother
          exact hguard.signIn user name (Or.inr rfl) hcached
  | facebookProfile =>
      cases hnext
      exact hright.of_eq rfl rfl rfl
  | signOut error =>
      cases hnext
      cases error with
      | some description => exact hright.of_eq rfl rfl rfl
      | none => exact storedNameRight_of_signedOut rfl

theorem signInGuard_of_storedNameRight {session next : AppSession}
    {event : Event} (hnext : machine.step session event = some next)
    (hright : next.StoredNameRight) : SignInGuard session event next where
  signIn user name hevent hstored := by
    rcases hevent with hevent | hevent
    · subst hevent
      cases hnext
      exact hright user name rfl hstored
    · subst hevent
      cases hnext
      exact hright user name rfl hstored
  accountCreated number uid request name hevent hrequest hstored := by
    subst hevent
    rcases accountCreated_step hnext with ⟨other, hother, rfl⟩
    rw [hrequest, Option.some.injEq] at hother
    subst hother
    exact storedNameRight_accountCreated.mp hright name hstored
  signUpCompleted number request user hevent hrequest huser := by
    subst hevent
    rcases signUpCompleted_step hnext with ⟨other, hother, rfl⟩
    rw [hrequest, Option.some.injEq] at hother
    subst hother
    exact storedNameRight_signUpCompleted.mp hright user request.name huser rfl

/-! ## Runs -/

theorem nameRight_iff (currentUser : Option FirebaseUser)
    (signUpNames : List (Uid × String)) (database : Database)
    (events : List Event) :
    machine.AllStates NameRight
        (installed currentUser signUpNames database) events ↔
      machine.AllSteps SignInGuard
        (installed currentUser signUpNames database) events := by
  have hinstalled :
      (installed currentUser signUpNames database).StoredNameRight := by
    intro user name _ hcached
    contradiction
  exact EventMachine.allStates_iff_guard
    (fun hright => ⟨hright, showsOwnName_of_storedNameRight hright⟩)
    storedNameRight_step
    (fun _ hnext hright => signInGuard_of_storedNameRight hnext hright.1)
    hinstalled events

def annSignsUp : List Event :=
  [.launch true none, .signUp "Ann" "ann@mail.com" "secret",
    .accountCreated 0 ⟨"ann", by decide⟩, .signUpCompleted 0 none]

def bob : FirebaseUser := ⟨⟨"bob", by decide⟩, none, some "bob@mail.com"⟩

def otherSignsIn : List Event :=
  annSignsUp ++ [.launch false none, .signIn (.ok bob)]

theorem signUp_ann (session : AppSession) :
    ∃ alerts, session.signUp "Ann" "ann@mail.com" "secret" =
      { session with
        signUps := session.signUps ++
          [SignUpRequest.mk "Ann" "ann@mail.com" "secret" .sent]
        alerts := alerts } := by
  have hname : SignUpViewController.isValidName "Ann" = true :=
    SignUpViewController.requestValid_ann.name
  have hemail : SignUpViewController.isValidEmail "ann@mail.com" = true :=
    SignUpViewController.requestValid_ann.email
  have hrequests := requests_filled "Ann" "ann@mail.com" "secret" session
  rw [if_pos ⟨by decide, hname, hemail⟩] at hrequests
  simp only [signUp, hrequests]
  exact ⟨_, rfl⟩

theorem run_annSignsUp :
    ∃ session, machine.run (installed none [] []) annSignsUp = some session ∧
      session.storedName = some "Ann" ∧
        session.signUpNames = [(⟨"ann", by decide⟩, "Ann")] := by
  have hlaunched : machine.run (installed none [] []) annSignsUp =
      machine.run
        (((installed none [] []).launch true none).signUp "Ann" "ann@mail.com"
          "secret")
        [.accountCreated 0 ⟨"ann", by decide⟩, .signUpCompleted 0 none] := rfl
  rcases signUp_ann ((installed none [] []).launch true none) with
    ⟨alerts, hsignUp⟩
  rw [hlaunched, hsignUp]
  exact ⟨_, rfl, rfl, rfl⟩

theorem not_nameRight_otherSignsIn :
    ¬ machine.AllStates NameRight (installed none [] []) otherSignsIn := by
  intro hall
  rcases run_annSignsUp with ⟨session, hrun, hstored, hnames⟩
  have hlater : machine.run session [.launch false none, .signIn (.ok bob)] =
      some (SignInViewController.signedIn (.ok bob)
        (session.launch false none)) := rfl
  have hright := (hall.of_run (EventMachine.run_trans hrun hlater)).1
  obtain ⟨-, hkept, hsame⟩ := launch_cases false none session
  have hlookup := hright bob "Ann" rfl (hkept.trans hstored)
  have hbob : List.lookup bob.uid session.signUpNames = some "Ann" :=
    (congrArg (List.lookup bob.uid) hsame).symm.trans hlookup
  rw [hnames] at hbob
  contradiction

end AppSession

end Stockly
