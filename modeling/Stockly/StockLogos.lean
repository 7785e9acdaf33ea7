import Stockly.Collection
import Stockly.DataGetter
import Stockly.EventMachine
import Mathlib.Logic.Function.Basic

/-!
# The logos of the detail screens

`fetchLogo` stores the url of a logo in its `StockController` and the callback
of `fetchImage` reads it back from there, also after an error.  All detail
screens of the Home table share one controller; every results screen has its
own.  `URL(string:)` belongs to Foundation and is a parameter.
-/

universe u

namespace Stockly

inductive DetailScreen where
  | home (stockController : Option ℕ)
  | results (stockController : ℕ)
deriving DecidableEq, Repr

structure LogoRequest where
  screen : ℕ
  stockController : ℕ
  symbol : String
  answered : Bool
deriving DecidableEq, Repr

def LogoRequest.answer (request : LogoRequest) : LogoRequest :=
  { request with answered := true }

structure Download (URL : Type u) where
  screen : ℕ
  symbol : String
  url : URL
deriving DecidableEq, Repr

/-- The detail screens opened so far, with the one variable of each controller
that their logos go through. -/
structure DetailScreens (URL : Type u) where
  stockLogoURL : ℕ → Option String
  controllers : ℕ
  screens : List DetailScreen
  requests : List LogoRequest
  downloads : List (Download URL)
  trapped : Bool

namespace DetailScreens

variable {URL : Type u}

def launched : DetailScreens URL :=
  { stockLogoURL := fun _ => none, controllers := 1, screens := [],
    requests := [], downloads := [], trapped := false }

/-! ## Requests -/

def fetchLogo (screen stockController : ℕ) (symbol : String)
    (state : DetailScreens URL) : DetailScreens URL :=
  { state with
    requests := state.requests ++
      [LogoRequest.mk screen stockController symbol false] }

def homeFetchImage (screen : ℕ) (stockController : Option ℕ) (stock : Batch)
    (state : DetailScreens URL) : DetailScreens URL :=
  match stockController with
  | none => state
  | some stockController =>
      state.fetchLogo screen stockController stock.quote.symbol

def resultsFetchImage (screen stockController : ℕ) (stock : Quote)
    (state : DetailScreens URL) : DetailScreens URL :=
  state.fetchLogo screen stockController stock.symbol

/-- `HomeTableViewController.prepare` hands its one controller to the new
screen, which fetches the image when its view loads. -/
def prepareHome (stock : Batch) (state : DetailScreens URL) :
    DetailScreens URL :=
  homeFetchImage state.screens.length (some 0) stock
    { state with screens := state.screens ++ [.home (some 0)] }

def prepareResults (state : DetailScreens URL) : DetailScreens URL :=
  { state with
    screens := state.screens ++ [.results state.controllers]
    controllers := state.controllers + 1 }

/-! ## Responses -/

variable (urlOf : String → Option URL)

/-- The completion which both `fetchImage` pass to `fetchLogo`: it prints an
error and goes on, through two forced values. -/
def imageCallback (request : LogoRequest) (_ : Option FetchError)
    (state : DetailScreens URL) : DetailScreens URL :=
  match state.stockLogoURL request.stockController with
  | none => { state with trapped := true }
  | some string =>
      match urlOf string with
      | none => { state with trapped := true }
      | some url =>
          { state with
            downloads := state.downloads ++
              [Download.mk request.screen request.symbol url] }

def respond (number : ℕ) (request : LogoRequest) (transport : Transport Logo)
    (state : DetailScreens URL) : DetailScreens URL :=
  DataGetter.fetchDecoded
    (fun logo state =>
      { state with
        stockLogoURL := Function.update state.stockLogoURL
          request.stockController (some logo.url) })
    (fun error _ state => imageCallback urlOf request error state)
    transport
    { state with
      requests := state.requests.modify number LogoRequest.answer }

/-! ## Runs -/

inductive Event where
  | openDetail (stock : Batch)
  | openResults
  | updateViews (screen : ℕ) (quote : Quote)
  | response (number : ℕ) (transport : Transport Logo)

/-- `updateViews` runs on a results screen whose controller has loaded a
quote; a response comes once for each request. -/
def handle (state : DetailScreens URL) : Event → Option (DetailScreens URL)
  | .openDetail stock => some (state.prepareHome stock)
  | .openResults => some state.prepareResults
  | .updateViews screen quote =>
      match state.screens[screen]? with
      | some (.results stockController) =>
          some (state.resultsFetchImage screen stockController quote)
      | _ => none
  | .response number transport =>
      match state.requests[number]? with
      | none => none
      | some request =>
          if request.answered then none
          else some (state.respond urlOf number request transport)

def machine : EventMachine (DetailScreens URL) Event where
  step state event :=
    if state.trapped then none else state.handle urlOf event

/-! ## Own logos -/

/-- The callback does not trap, and its screen downloads the image at the url
that the server returned for the request, or nothing when it returned none. -/
def OwnLogo (state : DetailScreens URL) (event : Event)
    (next : DetailScreens URL) : Prop :=
  ∀ number transport, event = .response number transport →
    next.trapped = false ∧
      ∀ request, state.requests[number]? = some request →
        next.downloads = state.downloads ++
          match DataGetter.outcome transport with
          | .ok logo =>
              ((urlOf logo.url).map
                (Download.mk request.screen request.symbol)).toList
          | .error _ => []

/-- The server returns a logo, and with a url that `URL(string:)` accepts. -/
def LogoGuard (_ : DetailScreens URL) (event : Event)
    (_ : DetailScreens URL) : Prop :=
  ∀ number transport, event = .response number transport →
    ∃ logo, DataGetter.outcome transport = .ok logo ∧
      (urlOf logo.url).isSome

variable {urlOf} {state next : DetailScreens URL}

theorem machine_step_eq_some {event : Event} :
    (machine urlOf).step state event = some next ↔
      state.trapped = false ∧ state.handle urlOf event = some next := by
  cases htrapped : state.trapped <;> simp [machine, htrapped]

theorem exists_request_of_response {number : ℕ} {transport : Transport Logo}
    (hstep : (machine urlOf).step state (.response number transport) =
      some next) :
    ∃ request, state.requests[number]? = some request ∧
      next = state.respond urlOf number request transport := by
  obtain ⟨-, hhandle⟩ := machine_step_eq_some.mp hstep
  unfold handle at hhandle
  cases hrequest : state.requests[number]? with
  | none => simp [hrequest] at hhandle
  | some request =>
      simp only [hrequest, Option.ite_none_left_eq_some,
        Option.some.injEq] at hhandle
      exact ⟨request, rfl, hhandle.2.symm⟩

theorem imageCallback_spec (request : LogoRequest)
    (error : Option FetchError) (state : DetailScreens URL) :
    let url := (state.stockLogoURL request.stockController).bind urlOf
    (imageCallback urlOf request error state).trapped =
        (state.trapped || url.isNone) ∧
      (imageCallback urlOf request error state).downloads =
        state.downloads ++ (url.map
          (Download.mk request.screen request.symbol)).toList := by
  unfold imageCallback
  cases state.stockLogoURL request.stockController with
  | none => simp
  | some string => cases hurl : urlOf string <;> simp [hurl]

theorem respond_ok {number : ℕ} {request : LogoRequest}
    {transport : Transport Logo} {logo : Logo}
    (hlogo : DataGetter.outcome transport = .ok logo) :
    (state.respond urlOf number request transport).trapped =
        (state.trapped || (urlOf logo.url).isNone) ∧
      (state.respond urlOf number request transport).downloads =
        state.downloads ++ ((urlOf logo.url).map
          (Download.mk request.screen request.symbol)).toList := by
  unfold respond
  rw [DataGetter.fetchDecoded_eq, hlogo]
  have hspec := @imageCallback_spec _ urlOf request none
    { state with
      requests := state.requests.modify number LogoRequest.answer
      stockLogoURL := Function.update state.stockLogoURL
        request.stockController (some logo.url) }
  simpa using hspec

/-- After an error it reads whatever url the controller got before, for
whichever stock. -/
theorem respond_error {number : ℕ} {request : LogoRequest}
    {transport : Transport Logo} {error : FetchError}
    (herror : DataGetter.outcome transport = .error error) :
    let url := (state.stockLogoURL request.stockController).bind urlOf
    (state.respond urlOf number request transport).trapped =
        (state.trapped || url.isNone) ∧
      (state.respond urlOf number request transport).downloads =
        state.downloads ++ (url.map
          (Download.mk request.screen request.symbol)).toList := by
  unfold respond
  rw [DataGetter.fetchDecoded_eq, herror]
  exact imageCallback_spec request (some error)
    { state with
      requests := state.requests.modify number LogoRequest.answer }

theorem ownLogo_iff_of_step {event : Event}
    (hstep : (machine urlOf).step state event = some next) :
    OwnLogo urlOf state event next ↔ LogoGuard urlOf state event next := by
  unfold OwnLogo LogoGuard
  refine forall_congr' fun number => forall_congr' fun transport => ?_
  refine forall_congr' fun hevent => ?_
  subst hevent
  obtain ⟨request, hrequest, hnext⟩ := exists_request_of_response hstep
  have hup : state.trapped = false := (machine_step_eq_some.mp hstep).1
  cases houtcome : DataGetter.outcome transport with
  | ok logo =>
      obtain ⟨htrapped, hdownloads⟩ :=
        @respond_ok _ urlOf state number request transport logo houtcome
      rw [hnext, htrapped, hdownloads, hup]
      cases hurl : urlOf logo.url <;> simp [hrequest, hurl]
  | error error =>
      obtain ⟨htrapped, hdownloads⟩ :=
        @respond_error _ urlOf state number request transport error houtcome
      rw [hnext, htrapped, hdownloads, hup]
      cases hurl : (state.stockLogoURL request.stockController).bind urlOf <;>
        simp [hrequest]

theorem ownLogo_iff (urlOf : String → Option URL) (events : List Event) :
    (machine urlOf).AllSteps (OwnLogo urlOf) launched events ↔
      (machine urlOf).AllSteps (LogoGuard urlOf) launched events :=
  EventMachine.allSteps_congr ownLogo_iff_of_step launched events

def nonemptyURL (string : String) : Option String :=
  if string = "" then none else some string

theorem not_ownLogo_after_failure :
    ¬ (machine nonemptyURL).AllSteps (OwnLogo nonemptyURL) launched
      [.openDetail (.named "AAPL" "Apple Inc"),
        .response 0 (.decoded ⟨"https://storage/AAPL.png"⟩),
        .openDetail (.named "TSLA" "Tesla Inc"),
        .response 1 (.failed "The request timed out.")] := by
  intro hall
  obtain ⟨middle, hmiddle, hbefore⟩ := Option.map_eq_some_iff.mp
    (show ((machine nonemptyURL).run launched
        [.openDetail (.named "AAPL" "Apple Inc"),
          .response 0 (.decoded ⟨"https://storage/AAPL.png"⟩),
          .openDetail (.named "TSLA" "Tesla Inc")]).map
            (fun state => (state.downloads.length,
              state.requests[1]?.isSome)) = some (1, true) by decide)
  obtain ⟨final, hrun, hafter⟩ := Option.map_eq_some_iff.mp
    (show ((machine nonemptyURL).run launched
        ([.openDetail (.named "AAPL" "Apple Inc"),
          .response 0 (.decoded ⟨"https://storage/AAPL.png"⟩),
          .openDetail (.named "TSLA" "Tesla Inc")] ++
          [.response 1 (.failed "The request timed out.")])).map
            (fun state => state.downloads.length) = some 2 by decide)
  rw [EventMachine.run_append, hmiddle] at hrun
  simp only [Option.bind_some, EventMachine.run_cons,
    EventMachine.run_nil, Option.bind_fun_some] at hrun
  simp only [Prod.mk.injEq, Option.isSome_iff_exists] at hbefore
  obtain ⟨hone, request, hrequest⟩ := hbefore
  have hown := (hall.last [_, _, _] hmiddle hrun 1 _ rfl).2 request hrequest
  rw [hown] at hafter
  simp only [DataGetter.outcome_failed, List.append_nil] at hafter
  omega

end DetailScreens

end Stockly
