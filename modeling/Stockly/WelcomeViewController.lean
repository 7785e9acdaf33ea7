import Stockly.EventMachine
import Stockly.FirebaseAccounts
import Stockly.JGProgressHUD

/-!
# Logging in with Facebook

A login attempt goes through four requests, each of which is started in the
completion of the one before.  The HUD, which blocks all touches, is raised
for the first two of them and is dismissed in three completions only; the
other ways out return and leave it as it is.
-/

namespace Stockly

inductive LoginResult where
  | success (accessToken : Option String)
  | cancelled
  | failed (description : String)
deriving DecidableEq, Repr

/-- The screen with the signed-in user and the number of requests of each
kind which have not been answered. -/
structure WelcomeController where
  hud : JGProgressHUD
  hudText : Option String
  alerts : List Alert
  name : Option String
  email : Option String
  currentUser : Option FirebaseUser
  written : List ProfileWrite
  logins : ℕ
  signIns : ℕ
  profileRequests : ℕ
  writes : ℕ

namespace WelcomeController

def showAlert (title message : String) (screen : WelcomeController) :
    WelcomeController :=
  { screen with alerts := screen.alerts ++ [Alert.mk title message] }

def saveUserIntoFirebase (screen : WelcomeController) : WelcomeController :=
  match screen.currentUser with
  | none => screen
  | some user =>
      let name := user.displayName.getD ""
      let email := user.email.getD ""
      { screen with
        name := some name
        email := some email
        written := screen.written ++ [ProfileWrite.mk user.uid name email]
        writes := screen.writes + 1 }

/-- The completion of `updateChildValues`. -/
def profileWritten (error : Option String) (screen : WelcomeController) :
    WelcomeController :=
  match error with
  | some _ => screen
  | none => { screen with hud := screen.hud.dismiss }

def fetchFacebookUser (screen : WelcomeController) : WelcomeController :=
  { screen with profileRequests := screen.profileRequests + 1 }

/-- The completion of the request for the profile. -/
def profileFetched (response : Bool) (error : Option String)
    (screen : WelcomeController) : WelcomeController :=
  match error with
  | some _ => screen
  | none => if response then saveUserIntoFirebase screen else screen

def signIntoFirebase (accessToken : Option String)
    (screen : WelcomeController) : WelcomeController :=
  match accessToken with
  | none => screen
  | some _ =>
      { screen with
        hudText := some "Signing In..."
        hud := screen.hud.show
        signIns := screen.signIns + 1 }

/-- The completion of `signIn`. -/
def signedIn (outcome : Except String FirebaseUser)
    (screen : WelcomeController) : WelcomeController :=
  match outcome with
  | .error description =>
      showAlert "Sign In Error" description
        { screen with hud := screen.hud.dismiss }
  | .ok user => fetchFacebookUser { screen with currentUser := some user }

def facebookButtonPressed (screen : WelcomeController) : WelcomeController :=
  { screen with
    hudText := some "Logging in with Facebook..."
    hud := screen.hud.show
    logins := screen.logins + 1 }

/-- The completion of `logIn`. -/
def loggedIn (result : LoginResult) (screen : WelcomeController) :
    WelcomeController :=
  match result with
  | .success accessToken => signIntoFirebase accessToken screen
  | .failed description => showAlert "Login Failure" description screen
  | .cancelled =>
      showAlert "Login Cancelled" "User cancelled login attempt."
        { screen with hud := screen.hud.dismiss }

/-! ## The machine -/

inductive Event where
  | facebookButtonPressed
  | loginResult (result : LoginResult)
  | signInResult (outcome : Except String FirebaseUser)
  | profileResult (response : Bool) (error : Option String)
  | writeResult (error : Option String)
  | authChanged (user : Option FirebaseUser)
  | hudAnimationFinished

def machine : EventMachine WelcomeController Event where
  step screen
    | .facebookButtonPressed => some screen.facebookButtonPressed
    | .loginResult result =>
        if 0 < screen.logins then
          some (loggedIn result { screen with logins := screen.logins - 1 })
        else none
    | .signInResult outcome =>
        if 0 < screen.signIns then
          some (signedIn outcome { screen with signIns := screen.signIns - 1 })
        else none
    | .profileResult response error =>
        if 0 < screen.profileRequests then
          some (profileFetched response error
            { screen with profileRequests := screen.profileRequests - 1 })
        else none
    | .writeResult error =>
        if 0 < screen.writes then
          some (profileWritten error { screen with writes := screen.writes - 1 })
        else none
    | .authChanged user => some { screen with currentUser := user }
    | .hudAnimationFinished =>
        some { screen with hud := screen.hud.animationDidFinish }

def opened (currentUser : Option FirebaseUser) : WelcomeController :=
  { hud := .hidden, hudText := none, alerts := [], name := none, email := none
    currentUser := currentUser, written := [], logins := 0, signIns := 0
    profileRequests := 0, writes := 0 }

def pending (screen : WelcomeController) : ℕ :=
  screen.logins + screen.signIns + screen.profileRequests + screen.writes

/-- When nothing is pending, the HUD is down or on its way down. -/
def Unlocked (screen : WelcomeController) : Prop :=
  screen.pending = 0 → screen.hud.staysUp = false

/-- The answers on which the code returns without dismissing the HUD. -/
def QuietExit (screen : WelcomeController) : Event → Prop
  | .loginResult (.failed _) => True
  | .loginResult (.success accessToken) => accessToken = none
  | .profileResult response error =>
      error.isSome ∨ response = false ∨ screen.currentUser = none
  | .writeResult error => error.isSome
  | _ => False

/-- A quiet exit from the only request pending finds the HUD down. -/
def ExitGuard (screen : WelcomeController) (event : Event)
    (_ : WelcomeController) : Prop :=
  QuietExit screen event → screen.pending = 1 → screen.hud.staysUp = false

/-! ## One step -/

inductive Effect (screen : WelcomeController) (event : Event)
    (next : WelcomeController) : Prop where
  | quiet (hquiet : QuietExit screen event) (hhud : next.hud = screen.hud)
      (hpending : next.pending + 1 = screen.pending)
  | dismissed (hquiet : ¬ QuietExit screen event)
      (hhud : next.hud.staysUp = false)
  | goesOn (hquiet : ¬ QuietExit screen event) (hpending : 0 < next.pending)
  | idle (hquiet : ¬ QuietExit screen event)
      (hhud : next.hud.staysUp = screen.hud.staysUp)
      (hpending : next.pending = screen.pending)

theorem effect_of_loginResult {screen : WelcomeController}
    (hlogin : 0 < screen.logins) (result : LoginResult) :
    Effect screen (.loginResult result)
      (loggedIn result { screen with logins := screen.logins - 1 }) := by
  cases result with
  | success accessToken =>
      cases accessToken with
      | none =>
          refine Effect.quiet rfl rfl ?_
          simp only [loggedIn, signIntoFirebase, pending]
          omega
      | some tokenString =>
          apply Effect.goesOn
          · simp [QuietExit]
          · simp only [loggedIn, signIntoFirebase, pending]
            omega
  | cancelled =>
      apply Effect.dismissed
      · simp [QuietExit]
      · exact screen.hud.staysUp_dismiss
  | failed description =>
      refine Effect.quiet trivial rfl ?_
      simp only [loggedIn, showAlert, pending]
      omega

theorem effect_of_signInResult {screen : WelcomeController}
    (outcome : Except String FirebaseUser) :
    Effect screen (.signInResult outcome)
      (signedIn outcome { screen with signIns := screen.signIns - 1 }) := by
  cases outcome with
  | error description =>
      apply Effect.dismissed
      · simp [QuietExit]
      · exact screen.hud.staysUp_dismiss
  | ok user =>
      apply Effect.goesOn
      · simp [QuietExit]
      · simp only [signedIn, fetchFacebookUser, pending]
        omega

theorem profileFetched_of_quietExit {screen : WelcomeController}
    {response : Bool} {error : Option String}
    (hquiet : QuietExit screen (.profileResult response error)) :
    profileFetched response error
        { screen with profileRequests := screen.profileRequests - 1 } =
      { screen with profileRequests := screen.profileRequests - 1 } := by
  cases error with
  | some description => rfl
  | none =>
      cases response with
      | false => rfl
      | true =>
          have huser : screen.currentUser = none := by
            simpa [QuietExit] using hquiet
          simp only [profileFetched, saveUserIntoFirebase, huser, if_true]

theorem effect_of_profileResult {screen : WelcomeController}
    (hrequest : 0 < screen.profileRequests) (response : Bool)
    (error : Option String) :
    Effect screen (.profileResult response error)
      (profileFetched response error
        { screen with profileRequests := screen.profileRequests - 1 }) := by
  by_cases hquiet : QuietExit screen (.profileResult response error)
  · refine Effect.quiet hquiet ?_ ?_
    · rw [profileFetched_of_quietExit hquiet]
    · rw [profileFetched_of_quietExit hquiet]
      simp only [pending]
      omega
  · apply Effect.goesOn hquiet
    simp only [QuietExit, not_or, Option.not_isSome_iff_eq_none,
      Bool.not_eq_false] at hquiet
    rcases hquiet with ⟨rfl, rfl, huser⟩
    rcases Option.ne_none_iff_exists'.mp huser with ⟨user, huser⟩
    simp only [profileFetched, saveUserIntoFirebase, huser, if_true, pending]
    omega

theorem effect_of_writeResult {screen : WelcomeController}
    (hwrite : 0 < screen.writes) (error : Option String) :
    Effect screen (.writeResult error)
      (profileWritten error
        { screen with writes := screen.writes - 1 }) := by
  cases error with
  | none =>
      apply Effect.dismissed
      · simp [QuietExit]
      · exact screen.hud.staysUp_dismiss
  | some description =>
      refine Effect.quiet rfl rfl ?_
      simp only [profileWritten, pending]
      omega

theorem effect_of_step {screen next : WelcomeController} {event : Event}
    (hnext : machine.step screen event = some next) :
    Effect screen event next := by
  cases event with
  | facebookButtonPressed =>
      cases hnext
      apply Effect.goesOn
      · simp [QuietExit]
      · simp only [facebookButtonPressed, pending]
        omega
  | loginResult result =>
      rcases Option.ite_none_right_eq_some.mp hnext with ⟨hlogin, hnext⟩
      cases hnext
      exact effect_of_loginResult hlogin result
  | signInResult outcome =>
      rcases Option.ite_none_right_eq_some.mp hnext with ⟨-, hnext⟩
      cases hnext
      exact effect_of_signInResult outcome
  | profileResult response error =>
      rcases Option.ite_none_right_eq_some.mp hnext with ⟨hrequest, hnext⟩
      cases hnext
      exact effect_of_profileResult hrequest response error
  | writeResult error =>
      rcases Option.ite_none_right_eq_some.mp hnext with ⟨hwrite, hnext⟩
      cases hnext
      exact effect_of_writeResult hwrite error
  | authChanged user =>
      cases hnext
      exact Effect.idle (by simp [QuietExit]) rfl rfl
  | hudAnimationFinished =>
      cases hnext
      apply Effect.idle
      · simp [QuietExit]
      · exact screen.hud.staysUp_animationDidFinish
      · rfl

/-! ## Runs -/

theorem unlocked_step {screen next : WelcomeController} {event : Event}
    (hunlocked : screen.Unlocked)
    (hnext : machine.step screen event = some next)
    (hguard : ExitGuard screen event next) : next.Unlocked := by
  intro hidle
  cases effect_of_step hnext with
  | quiet hquiet hhud hpending =>
      rw [hhud]
      exact hguard hquiet (by omega)
  | dismissed hquiet hhud => exact hhud
  | goesOn hquiet hpending => omega
  | idle hquiet hhud hpending =>
      rw [hhud]
      exact hunlocked (by omega)

theorem exitGuard_of_unlocked {screen next : WelcomeController}
    {event : Event} (hnext : machine.step screen event = some next)
    (hunlocked : next.Unlocked) : ExitGuard screen event next := by
  intro hexit hlast
  cases effect_of_step hnext with
  | quiet hquiet hhud hpending =>
      rw [← hhud]
      exact hunlocked (by omega)
  | dismissed hquiet hhud => exact absurd hexit hquiet
  | goesOn hquiet hpending => exact absurd hexit hquiet
  | idle hquiet hhud hpending => exact absurd hexit hquiet

theorem unlocked_iff (currentUser : Option FirebaseUser)
    (events : List Event) :
    machine.AllStates Unlocked (opened currentUser) events ↔
      machine.AllSteps ExitGuard (opened currentUser) events := by
  have hopened : (opened currentUser).Unlocked := fun _ => rfl
  exact EventMachine.allStates_iff_guard (fun hunlocked => hunlocked)
    unlocked_step (fun _ hnext => exitGuard_of_unlocked hnext) hopened events

theorem not_unlocked_of_failedLogin :
    ¬ machine.AllStates Unlocked (opened none)
      [.facebookButtonPressed, .hudAnimationFinished,
        .loginResult (.failed "The network connection was lost.")] := by
  intro hall
  have hrun : machine.run (opened none)
      [.facebookButtonPressed, .hudAnimationFinished,
        .loginResult (.failed "The network connection was lost.")] =
      some { opened none with
        hud := .shown, hudText := some "Logging in with Facebook..."
        alerts := [Alert.mk "Login Failure"
          "The network connection was lost."] } := rfl
  have hdown : JGProgressHUD.shown.staysUp = false := hall.of_run hrun rfl
  contradiction

end WelcomeController

end Stockly
