import Stockly.EventMachine
import Stockly.FirebaseAccounts
import Stockly.JGProgressHUD
import Stockly.TextPattern

/-!
# The sign-up screen

A tap on Sign Up checks the name and the email and asks Firebase for a new
account.  The answer comes later, and the profile which is then written is
read from the fields again, while the name which is stored on the device is
the one of the tap.
-/

namespace Stockly

/-- A success comes in two steps: the new account becomes the signed-in one,
and the completion is called later. -/
inductive SignUpProgress where
  | sent
  | created
  | answered
deriving DecidableEq, Repr

structure SignUpRequest where
  name : String
  email : String
  password : String
  progress : SignUpProgress
deriving DecidableEq, Repr

namespace SignUpRequest

def find (requests : List SignUpRequest) (number : ℕ)
    (progress : SignUpProgress) : Option SignUpRequest :=
  requests[number]?.filter fun request => request.progress = progress

/-- What a completion finds: an account was created or it was not. -/
def answering (error : Option String) : SignUpProgress :=
  if error.isNone then .created else .sent

theorem find_eq_some_iff {requests : List SignUpRequest} {number : ℕ}
    {progress : SignUpProgress} {request : SignUpRequest} :
    find requests number progress = some request ↔
      requests[number]? = some request ∧ request.progress = progress := by
  simp [find, Option.filter_eq_some_iff]

end SignUpRequest

/-- The screen with the signed-in user, the stored `"name"` and the address
each account was created with. -/
structure SignUpViewController where
  usernameField : Option String
  emailField : Option String
  passwordField : Option String
  hud : JGProgressHUD
  hudText : Option String
  alerts : List Alert
  requests : List SignUpRequest
  currentUser : Option Uid
  accounts : List (Uid × String)
  storedName : Option String
  written : List ProfileWrite

namespace SignUpViewController

open TextPattern

/-- `"^[a-zA-Z]+(([',. -][a-zA-Z ])?[a-zA-Z]*)*$"`. -/
def nameRegEx : RegularExpression Char :=
  let letter := oneOf (lowercase ++ uppercase)
  oneOrMore letter *
    .star
      (optional
          (oneOf ['\'', ',', '.', ' ', '-'] *
            oneOf (lowercase ++ uppercase ++ [' '])) *
        .star letter)

/-- `"[A-Z0-9a-z._%+-]+@[A-Za-z0-9.-]+\\.[A-Za-z]{2,64}"`. -/
def emailRegEx : RegularExpression Char :=
  oneOrMore
      (oneOf (uppercase ++ digits ++ lowercase ++ ['.', '_', '%', '+', '-'])) *
    (.char '@' *
      (oneOrMore (oneOf (uppercase ++ lowercase ++ digits ++ ['.', '-'])) *
        (.char '.' * between (oneOf (uppercase ++ lowercase)) 2 64)))

def isValidName (testStr : String) : Bool := matchesWhole nameRegEx testStr

def isValidEmail (testStr : String) : Bool := matchesWhole emailRegEx testStr

def showAlert (title message : String) (screen : SignUpViewController) :
    SignUpViewController :=
  { screen with alerts := screen.alerts ++ [Alert.mk title message] }

def signUpButtonPressed (screen : SignUpViewController) :
    SignUpViewController :=
  if screen.usernameField = some "" then
    showAlert "Sign Up Error" "Name Field Required"
      { screen with hud := screen.hud.dismiss }
  else
    match screen.usernameField with
    | none => screen
    | some name =>
        if isValidName name then
          match screen.emailField with
          | none => screen
          | some email =>
              if isValidEmail email then
                match screen.passwordField with
                | none => screen
                | some password =>
                    { screen with
                      hudText := some "Signing Up..."
                      hud := screen.hud.show
                      requests := screen.requests ++
                        [SignUpRequest.mk name email password .sent] }
              else
                showAlert "Email Invalid" "Please Provide Valid Email" screen
        else showAlert "Name Invalid" "Please Provide Valid Name" screen

def saveUserIntoFirebase (usernameField emailField : Option String)
    (currentUser : Option Uid) : Option ProfileWrite :=
  match usernameField, emailField, currentUser with
  | some name, some email, some uid => some (ProfileWrite.mk uid name email)
  | _, _, _ => none

/-- The completion which the tap captured `name` for.  The user is looked up
again, and may be another than the one it was called for. -/
def completed (name : String) (error : Option String)
    (screen : SignUpViewController) : SignUpViewController :=
  match error with
  | some description =>
      showAlert "Sign Up Error" description
        { screen with hud := screen.hud.dismiss }
  | none =>
      showAlert "Sign Up Successful" "Time to check out some stocks"
        { screen with
          written := screen.written ++
            (saveUserIntoFirebase screen.usernameField screen.emailField
              screen.currentUser).toList
          hud := screen.hud.dismiss
          storedName := some name }

/-! ## The machine -/

inductive Event where
  | editName (text : Option String)
  | editEmail (text : Option String)
  | editPassword (text : Option String)
  | signUpButtonPressed
  | accountCreated (number : ℕ) (uid : Uid)
  | completion (number : ℕ) (error : Option String)

def advance (number : ℕ) (request : SignUpRequest)
    (progress : SignUpProgress) (screen : SignUpViewController) :
    SignUpViewController :=
  { screen with
    requests :=
      screen.requests.set number { request with progress := progress } }

/-- `updateCurrentUser:byForce:savingToDisk:error:` for a new account. -/
def accountCreated (number : ℕ) (request : SignUpRequest) (uid : Uid)
    (screen : SignUpViewController) : SignUpViewController :=
  { screen.advance number request .created with
    currentUser := some uid
    accounts := (uid, request.email) :: screen.accounts }

/-- Every request is answered at most once, and in any order. -/
def machine : EventMachine SignUpViewController Event where
  step screen
    | .editName text => some { screen with usernameField := text }
    | .editEmail text => some { screen with emailField := text }
    | .editPassword text => some { screen with passwordField := text }
    | .signUpButtonPressed => some screen.signUpButtonPressed
    | .accountCreated number uid =>
        (SignUpRequest.find screen.requests number .sent).map fun request =>
          screen.accountCreated number request uid
    | .completion number error =>
        (SignUpRequest.find screen.requests number
          (SignUpRequest.answering error)).map fun request =>
            completed request.name error
              (screen.advance number request .answered)

def opened (currentUser : Option Uid) (storedName : Option String) :
    SignUpViewController :=
  { usernameField := some "", emailField := some "", passwordField := some ""
    hud := .hidden, hudText := none, alerts := [], requests := []
    currentUser := currentUser, accounts := [], storedName := storedName
    written := [] }

/-- Every profile written has a valid name, the address which the account at
its place was created with, and the name stored with it. -/
def ProfileRight (screen : SignUpViewController) (event : Event)
    (next : SignUpViewController) : Prop :=
  ∀ number write, event = .completion number none →
    next.written = screen.written ++ [write] →
      isValidName write.name = true ∧
        screen.accounts.lookup write.uid = some write.email ∧
          next.storedName = some write.name

/-- When a success is told, the name field still holds what it held at the
tap, and the email field the address of the account now signed in. -/
def FieldsKept (screen : SignUpViewController) (event : Event)
    (_ : SignUpViewController) : Prop :=
  ∀ number request uid name email, event = .completion number none →
    screen.requests[number]? = some request →
    screen.usernameField = some name → screen.emailField = some email →
    screen.currentUser = some uid →
      name = request.name ∧ screen.accounts.lookup uid = some email

/-! ## Requests -/

structure RequestValid (request : SignUpRequest) : Prop where
  name : isValidName request.name = true
  email : isValidEmail request.email = true

def RequestsChecked (screen : SignUpViewController) : Prop :=
  ∀ request ∈ screen.requests, RequestValid request

theorem requestsChecked_signUpButtonPressed {screen : SignUpViewController}
    (hchecked : screen.RequestsChecked) :
    screen.signUpButtonPressed.RequestsChecked := by
  unfold signUpButtonPressed
  split
  next => exact hchecked
  next =>
    split
    next => exact hchecked
    next name _ =>
      split
      next hname =>
        split
        next => exact hchecked
        next email _ =>
          split
          next hemail =>
            split
            next => exact hchecked
            next password _ =>
              intro request hrequest
              rcases List.mem_append.mp hrequest with hold | hnew
              · exact hchecked request hold
              · obtain rfl := List.mem_singleton.mp hnew
                exact ⟨hname, hemail⟩
          next => exact hchecked
      next => exact hchecked

@[simp] theorem requests_completed (name : String) (error : Option String)
    (screen : SignUpViewController) :
    (completed name error screen).requests = screen.requests := by
  cases error <;> rfl

theorem RequestsChecked.set {screen : SignUpViewController}
    (hchecked : screen.RequestsChecked) {number : ℕ}
    {request : SignUpRequest} (hrequest : screen.requests[number]? = some request)
    (progress : SignUpProgress) :
    ∀ other ∈ screen.requests.set number { request with progress := progress },
      RequestValid other := by
  have hasked : RequestValid request :=
    hchecked request (List.mem_of_getElem? hrequest)
  intro other hother
  rcases List.mem_or_eq_of_mem_set hother with hold | hnew
  · exact hchecked other hold
  · rw [hnew]
    exact ⟨hasked.name, hasked.email⟩

theorem completion_step {screen next : SignUpViewController} {number : ℕ}
    {error : Option String}
    (hnext : machine.step screen (.completion number error) = some next) :
    ∃ request, screen.requests[number]? = some request ∧
      next = completed request.name error
        (screen.advance number request .answered) := by
  rcases Option.map_eq_some_iff.mp hnext with ⟨request, hfind, hsame⟩
  have hrequest := (SignUpRequest.find_eq_some_iff.mp hfind).1
  exact ⟨request, hrequest, hsame.symm⟩

theorem requestsChecked_step {screen next : SignUpViewController}
    {event : Event} (hchecked : screen.RequestsChecked)
    (hnext : machine.step screen event = some next) :
    next.RequestsChecked := by
  cases event with
  | editName text =>
      cases hnext
      exact hchecked
  | editEmail text =>
      cases hnext
      exact hchecked
  | editPassword text =>
      cases hnext
      exact hchecked
  | signUpButtonPressed =>
      cases hnext
      exact requestsChecked_signUpButtonPressed hchecked
  | accountCreated number uid =>
      rcases Option.map_eq_some_iff.mp hnext with ⟨request, hfind, hsame⟩
      have hrequest := (SignUpRequest.find_eq_some_iff.mp hfind).1
      rw [← hsame]
      exact hchecked.set hrequest .created
  | completion number error =>
      rcases completion_step hnext with ⟨request, hrequest, hsame⟩
      unfold RequestsChecked
      rw [hsame, requests_completed]
      exact hchecked.set hrequest .answered

/-! ## Profiles -/

theorem written_completed (name : String) (screen : SignUpViewController) :
    (completed name none screen).written =
      screen.written ++
        (saveUserIntoFirebase screen.usernameField screen.emailField
          screen.currentUser).toList := rfl

theorem saveUserIntoFirebase_eq_some_iff
    {usernameField emailField : Option String} {currentUser : Option Uid}
    {write : ProfileWrite} :
    saveUserIntoFirebase usernameField emailField currentUser = some write ↔
      usernameField = some write.name ∧ emailField = some write.email ∧
        currentUser = some write.uid := by
  cases write
  cases usernameField <;> cases emailField <;> cases currentUser <;>
    simp [saveUserIntoFirebase, and_comm, and_assoc]

theorem profileRight_iff_fieldsKept {screen next : SignUpViewController}
    {event : Event} (hchecked : screen.RequestsChecked)
    (hnext : machine.step screen event = some next) :
    ProfileRight screen event next ↔ FieldsKept screen event next := by
  constructor
  · intro hright number request uid name email hevent hrequest hname hemail
      huser
    subst hevent
    rcases completion_step hnext with ⟨other, hother, rfl⟩
    rw [hrequest, Option.some.injEq] at hother
    subst hother
    have hsaved : saveUserIntoFirebase screen.usernameField screen.emailField
        screen.currentUser = some (ProfileWrite.mk uid name email) :=
      saveUserIntoFirebase_eq_some_iff.mpr ⟨hname, hemail, huser⟩
    have hwritten :
        (completed request.name none
          (screen.advance number request .answered)).written =
          screen.written ++ [ProfileWrite.mk uid name email] := by
      rw [written_completed]
      simp only [advance, hsaved, Option.toList]
    obtain ⟨-, haddress, hstored⟩ := hright number _ rfl hwritten
    have hsame : request.name = name := Option.some.inj hstored
    exact ⟨hsame.symm, haddress⟩
  · intro hkept number write hevent hwrite
    subst hevent
    rcases completion_step hnext with ⟨request, hrequest, rfl⟩
    have hsaved : saveUserIntoFirebase screen.usernameField screen.emailField
        screen.currentUser = some write := by
      rw [written_completed] at hwrite
      simpa [advance, Option.toList_eq_singleton_iff] using hwrite
    rcases saveUserIntoFirebase_eq_some_iff.mp hsaved with
      ⟨hname, hemail, huser⟩
    obtain ⟨hsame, haddress⟩ :=
      hkept number request write.uid write.name write.email rfl hrequest hname
        hemail huser
    have hvalid : RequestValid request :=
      hchecked request (List.mem_of_getElem? hrequest)
    refine ⟨?_, haddress, ?_⟩
    · rw [hsame]
      exact hvalid.name
    · rw [hsame]
      rfl

theorem profileRight_iff (currentUser : Option Uid)
    (storedName : Option String) (events : List Event) :
    machine.AllSteps ProfileRight (opened currentUser storedName) events ↔
      machine.AllSteps FieldsKept (opened currentUser storedName) events := by
  have hopened : (opened currentUser storedName).RequestsChecked := by
    intro request hrequest
    contradiction
  exact EventMachine.allSteps_iff_guard
    (fun hchecked hnext _ => requestsChecked_step hchecked hnext)
    profileRight_iff_fieldsKept hopened events

def nameEdited : List Event :=
  [.editName (some "Ann"), .editEmail (some "ann@mail.com"),
    .editPassword (some "secret"), .signUpButtonPressed,
    .editName (some "4nn"), .accountCreated 0 ⟨"uid", by decide⟩]

theorem requestValid_ann :
    RequestValid (SignUpRequest.mk "Ann" "ann@mail.com" "secret" .sent) where
  name := by decide +kernel
  email := by decide +kernel

theorem run_nameEdited :
    machine.run (opened none none) nameEdited =
      some { opened none none with
        usernameField := some "4nn", emailField := some "ann@mail.com"
        passwordField := some "secret", hud := .presenting false
        hudText := some "Signing Up..."
        currentUser := some ⟨"uid", by decide⟩
        accounts := [(⟨"uid", by decide⟩, "ann@mail.com")]
        requests :=
          [SignUpRequest.mk "Ann" "ann@mail.com" "secret" .created] } := by
  have hname : isValidName "Ann" = true := requestValid_ann.name
  have hemail : isValidEmail "ann@mail.com" = true := requestValid_ann.email
  simp [EventMachine.run, machine, opened, nameEdited, signUpButtonPressed,
    hname, hemail, JGProgressHUD.show, SignUpRequest.find, accountCreated,
    advance]

theorem not_profileRight_of_nameEdited :
    ¬ machine.AllSteps ProfileRight (opened none none)
      (nameEdited ++ [.completion 0 none]) := by
  intro hall
  have hright :=
    EventMachine.AllSteps.last nameEdited hall run_nameEdited rfl
  rcases hright 0 _ rfl rfl with ⟨hvalid, -⟩
  have hinvalid : isValidName "4nn" = false := by decide +kernel
  rw [hinvalid] at hvalid
  contradiction

end SignUpViewController

end Stockly
