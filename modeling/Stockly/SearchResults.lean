import Stockly.SearchRows

/-!
# Results for the text in the search bar

Responses replace the results whatever text they were requested for, and
emptying the bar does not touch the results.  Once everything has settled the
results belong to the text in the bar exactly when the step that settled the
screen has brought them there.
-/

namespace Stockly
namespace SearchViewController

variable {screen next : SearchViewController}

def barText (screen : SearchViewController) : String :=
  screen.text.getD ""

def ReturnedFor (text : String) (results : List SearchStock)
    (screen : SearchViewController) : Prop :=
  ∃ request ∈ screen.requests,
    request.text = text ∧ request.reply = some (some results, none)

/-- No delayed search is pending, no request is in flight, and none has
failed. -/
structure Settled (screen : SearchViewController) : Prop where
  noDelayed : screen.delayed = 0
  noneInFlight : ∀ request ∈ screen.requests, request.reply ≠ none
  noneFailed : ∀ request ∈ screen.requests,
    ∀ results error, request.reply ≠ some (results, some error)

/-- Once the screen has settled, the results are those the server returned
for the text in the bar, and are empty when the bar is. -/
def ResultsMatchBar (screen : SearchViewController) : Prop :=
  Settled screen →
    (screen.barText = "" → screen.searchResults = []) ∧
      (screen.barText ≠ "" →
        ReturnedFor screen.barText screen.searchResults screen)

def OthersAnswered (number : ℕ) (screen : SearchViewController) : Prop :=
  ∀ (place : ℕ) (request : SearchRequest),
    screen.requests[place]? = some request → place ≠ number →
      request.reply ≠ none ∧
        ∀ results error, request.reply ≠ some (results, some error)

/-- Before an event which leaves the screen settled and may change the bar or
the results. -/
def SettlesAt (screen : SearchViewController) : Event → Prop
  | .searchBarCancelButtonClicked => Settled screen
  | .textDidChange none => Settled { screen with delayed := 0 }
  | .makeSearchRequest =>
      screen.enteredText = "" ∧
        Settled { screen with delayed := screen.delayed - 1 }
  | .response number _ => screen.delayed = 0 ∧ screen.OthersAnswered number
  | _ => False

/-- The bar is emptied, and a delayed search of an empty text fires, only
when there are no results; the response that settles the screen answers the
text in the bar, or at least brings results returned for it, and brings none
when the bar is empty. -/
def SearchGuard (screen : SearchViewController) (event : Event)
    (_ : SearchViewController) : Prop :=
  SettlesAt screen event →
    (event = .searchBarCancelButtonClicked ∨ event = .textDidChange none ∨
      event = .makeSearchRequest → screen.searchResults = []) ∧
    ∀ number transport results, event = .response number transport →
      DataGetter.outcome transport = .ok results →
        (screen.barText = "" → results = []) ∧
        (screen.barText ≠ "" →
          screen.requests[number]?.map SearchRequest.text =
              some screen.barText ∨
            ReturnedFor screen.barText results screen)

def BarEntered (screen : SearchViewController) : Prop :=
  screen.barText = "" ∨ screen.barText = screen.enteredText

theorem BarEntered.step {event : Event} (hscreen : BarEntered screen)
    (hstep : machine.step screen event = some next) :
    BarEntered next := by
  cases effect_of_step hstep with
  | clear => exact .inl rfl
  | edit text => exact .inr rfl
  | cancel => exact .inl rfl
  | beginEditing | search | skip | request | results | failure | alert
  | reload | row | rowOutOfRange | select | selectOutOfRange =>
      exact hscreen

theorem Settled.of_eq (hscreen : Settled screen)
    (hdelayed : next.delayed = screen.delayed)
    (hrequests : next.requests = screen.requests) : Settled next := by
  obtain ⟨hnone, hflight, hfailed⟩ := hscreen
  rw [← hdelayed] at hnone
  rw [← hrequests] at hflight hfailed
  exact ⟨hnone, hflight, hfailed⟩

theorem ResultsMatchBar.of_eq (hscreen : ResultsMatchBar screen)
    (hdelayed : next.delayed = screen.delayed)
    (hrequests : next.requests = screen.requests)
    (htext : next.text = screen.text)
    (hresults : next.searchResults = screen.searchResults) :
    ResultsMatchBar next := by
  have hbar : next.barText = screen.barText := by
    unfold barText
    rw [htext]
  intro hsettled
  have hbefore : Settled screen :=
    hsettled.of_eq hdelayed.symm hrequests.symm
  unfold ReturnedFor
  rw [hbar, hresults, hrequests]
  exact hscreen hbefore

theorem answer_mem_requests {number : ℕ} {request : SearchRequest}
    {reply : SearchReply}
    (hrequest : screen.requests[number]? = some request)
    (hrequests : next.requests =
      screen.requests.modify number (SearchRequest.answer reply)) :
    request.answer reply ∈ next.requests := by
  apply List.mem_of_getElem? (i := number)
  rw [hrequests, List.getElem?_modify, hrequest]
  simp

/-- A response settles the screen when it is the last one. -/
theorem settled_respond_iff {number : ℕ} {results : List SearchStock}
    {queue : List MainBlock} :
    Settled
        { screen with
          searchResults := results
          requests := screen.requests.modify number
            (SearchRequest.answer (some results, none))
          mainQueue := queue } ↔
      screen.delayed = 0 ∧ screen.OthersAnswered number := by
  constructor
  · intro hsettled
    refine ⟨hsettled.noDelayed, ?_⟩
    intro place request hplace hne
    have hstill : (screen.requests.modify number (SearchRequest.answer
        (some results, none)))[place]? = some request := by
      rw [List.getElem?_modify, hplace]
      simp [hne.symm]
    have hmem := List.mem_of_getElem? hstill
    exact ⟨hsettled.noneInFlight request hmem,
      hsettled.noneFailed request hmem⟩
  · rintro ⟨hnone, hothers⟩
    have hall : ∀ request ∈ screen.requests.modify number
        (SearchRequest.answer (some results, none)),
        request.reply ≠ none ∧
          ∀ results error, request.reply ≠ some (results, some error) := by
      intro request hmem
      obtain ⟨place, hplace⟩ := List.mem_iff_getElem?.mp hmem
      rw [List.getElem?_modify] at hplace
      obtain ⟨before, hbefore, hsame⟩ := Option.map_eq_some_iff.mp hplace
      by_cases hhere : number = place
      · rw [if_pos hhere] at hsame
        subst hsame
        simp [SearchRequest.answer]
      · rw [if_neg hhere] at hsame
        subst hsame
        exact hothers place before hbefore fun heq => hhere heq.symm
    exact ⟨hnone, fun request hmem => (hall request hmem).1,
      fun request hmem => (hall request hmem).2⟩

theorem returnedFor_respond {number : ℕ} {text : String}
    {fetched results : List SearchStock}
    (hflight : screen.InFlight number)
    (hrequests : next.requests = screen.requests.modify number
      (SearchRequest.answer (some fetched, none))) :
    ReturnedFor text results next ↔
      (screen.requests[number]?.map SearchRequest.text = some text ∧
        results = fetched) ∨
      ReturnedFor text results screen := by
  obtain ⟨flying, hflying, hreply⟩ := hflight
  unfold ReturnedFor
  rw [hrequests]
  constructor
  · rintro ⟨request, hmem, htext, hresults⟩
    obtain ⟨place, hplace⟩ := List.mem_iff_getElem?.mp hmem
    rw [List.getElem?_modify] at hplace
    obtain ⟨before, hbefore, hsame⟩ := Option.map_eq_some_iff.mp hplace
    by_cases hhere : number = place
    · subst hhere
      rw [hflying, Option.some.injEq] at hbefore
      subst hbefore
      simp only [if_true, SearchRequest.answer] at hsame
      subst hsame
      simp only [Option.some.injEq, Prod.mk.injEq, and_true] at hresults
      left
      rw [hflying]
      exact ⟨congrArg some htext, hresults.symm⟩
    · rw [if_neg hhere] at hsame
      subst hsame
      right
      exact ⟨_, List.mem_of_getElem? hbefore, htext, hresults⟩
  · rintro (⟨htext, hresults⟩ | ⟨request, hmem, htext, hresults⟩)
    · rw [hflying] at htext
      refine ⟨flying.answer (some fetched, none), ?_,
        Option.some.inj htext, ?_⟩
      · rw [← hrequests]
        exact answer_mem_requests hflying hrequests
      · rw [hresults]
        rfl
    · obtain ⟨place, hplace⟩ := List.mem_iff_getElem?.mp hmem
      have hne : number ≠ place := by
        intro hsame
        rw [← hsame, hflying, Option.some.injEq] at hplace
        rw [← hplace, hreply] at hresults
        contradiction
      refine ⟨request, ?_, htext, hresults⟩
      apply List.mem_of_getElem? (i := place)
      rw [List.getElem?_modify, hplace]
      simp [hne]

theorem not_settled_of_request
    (hrequests : next.requests =
      screen.requests ++ [SearchRequest.mk screen.enteredText none]) :
    ¬ Settled next := by
  intro hsettled
  apply hsettled.noneInFlight (SearchRequest.mk screen.enteredText none)
  · rw [hrequests]
    exact List.mem_append_right _ List.mem_cons_self
  · rfl

theorem not_settled_of_failure {number : ℕ} {error : FetchError}
    (hflight : screen.InFlight number)
    (hrequests : next.requests = screen.requests.modify number
      (SearchRequest.answer (none, some error))) :
    ¬ Settled next := by
  obtain ⟨flying, hflying, -⟩ := hflight
  intro hsettled
  apply hsettled.noneFailed (flying.answer (none, some error)) _ none error
  · rfl
  · exact answer_mem_requests hflying hrequests

theorem ResultsMatchBar.step {event : Event} (hbar : BarEntered screen)
    (hscreen : ResultsMatchBar screen)
    (hstep : machine.step screen event = some next)
    (hguard : SearchGuard screen event next) :
    ResultsMatchBar next := by
  cases effect_of_step hstep with
  | clear =>
      intro hsettled
      have hempty := (hguard (hsettled.of_eq rfl rfl)).1 (.inr (.inl rfl))
      exact ⟨fun _ => hempty, fun hne => absurd rfl hne⟩
  | cancel =>
      intro hsettled
      have hempty := (hguard (hsettled.of_eq rfl rfl)).1 (.inl rfl)
      exact ⟨fun _ => hempty, fun hne => absurd rfl hne⟩
  | edit text =>
      intro hsettled
      have hdelayed := hsettled.noDelayed
      contradiction
  | skip hdelayed htext =>
      intro hsettled
      have hempty := (hguard ⟨htext, hsettled⟩).1 (.inr (.inr rfl))
      refine ⟨fun _ => hempty, fun hne => ?_⟩
      -- a bar that is not empty holds the entered text
      rcases hbar with hnone | hentered
      · exact absurd hnone hne
      · exact absurd (hentered.trans htext) hne
  | request hdelayed htext =>
      intro hsettled
      exact absurd hsettled (not_settled_of_request rfl)
  | results hflight hresults =>
      intro hsettled
      have hlast := settled_respond_iff.mp hsettled
      obtain ⟨hempty, hanswers⟩ := (hguard hlast).2 _ _ _ rfl hresults
      refine ⟨hempty, fun hne => ?_⟩
      apply (returnedFor_respond hflight rfl).mpr
      rcases hanswers hne with htext | hreturned
      · exact .inl ⟨htext, rfl⟩
      · exact .inr hreturned
  | failure hflight herror =>
      intro hsettled
      exact absurd hsettled (not_settled_of_failure hflight rfl)
  | beginEditing | search | alert | reload | row | rowOutOfRange | select
  | selectOutOfRange => exact hscreen.of_eq rfl rfl rfl rfl

theorem searchGuard_of_resultsMatchBar {event : Event}
    (hbar : BarEntered screen)
    (hstep : machine.step screen event = some next)
    (hnext : ResultsMatchBar next) :
    SearchGuard screen event next := by
  intro hsettles
  constructor
  · rintro (rfl | rfl | rfl)
    · cases effect_of_step hstep with
      | cancel =>
          have hsettled : Settled screen := hsettles
          exact (hnext (hsettled.of_eq rfl rfl)).1 rfl
    · cases effect_of_step hstep with
      | clear =>
          have hsettled : Settled { screen with delayed := 0 } := hsettles
          exact (hnext (hsettled.of_eq rfl rfl)).1 rfl
    · obtain ⟨htext, hsettled⟩ := hsettles
      cases effect_of_step hstep with
      | skip hdelayed hempty =>
          apply (hnext hsettled).1
          rcases hbar with hnone | hentered
          · exact hnone
          · exact hentered.trans htext
      | request hdelayed hfilled => exact absurd htext hfilled
  · rintro number transport results rfl hresults
    cases effect_of_step hstep with
    | failure hflight herror =>
        rw [hresults] at herror
        contradiction
    | results hflight hother =>
        rw [hresults, Except.ok.injEq] at hother
        subst hother
        obtain ⟨hempty, hreturned⟩ :=
          hnext (settled_respond_iff.mpr hsettles)
        refine ⟨hempty, fun hne => ?_⟩
        rcases (returnedFor_respond hflight rfl).mp (hreturned hne) with
          ⟨htext, -⟩ | hbefore
        · exact .inl htext
        · exact .inr hbefore

theorem resultsMatchBar_iff (events : List Event) :
    machine.AllStates ResultsMatchBar launched events ↔
      machine.AllSteps SearchGuard launched events := by
  apply @EventMachine.allStates_iff_guard _ _ machine
    (fun screen => BarEntered screen ∧ ResultsMatchBar screen)
  · intro screen hscreen
    exact hscreen.2
  · intro screen event next hscreen hstep hguard
    exact ⟨hscreen.1.step hstep,
      ResultsMatchBar.step hscreen.1 hscreen.2 hstep hguard⟩
  · intro screen event next hscreen hstep hnext
    exact searchGuard_of_resultsMatchBar hscreen.1 hstep hnext
  · refine ⟨.inl rfl, fun _ => ⟨fun _ => rfl, fun hne => absurd rfl hne⟩⟩

theorem not_resultsMatchBar_after_clear :
    ¬ machine.AllStates ResultsMatchBar launched
      [.searchBarTextDidBeginEditing, .textDidChange (some "a"),
        .makeSearchRequest, .response 0 (.decoded [appleResult]),
        .textDidChange (some ""), .makeSearchRequest] := by
  intro hall
  have hrun : machine.run launched
      [.searchBarTextDidBeginEditing, .textDidChange (some "a"),
        .makeSearchRequest, .response 0 (.decoded [appleResult]),
        .textDidChange (some ""), .makeSearchRequest] =
      some
        { launched with
          searchResults := [appleResult]
          showsCancelButton := true
          requests := [⟨"a", some (some [appleResult], none)⟩]
          mainQueue := [.reloadData] } := by
    decide
  have hmatch := hall.of_run hrun
  have hsettled : Settled
        { launched with
          searchResults := [appleResult]
          showsCancelButton := true
          requests := [⟨"a", some (some [appleResult], none)⟩]
          mainQueue := [.reloadData] } := by
    constructor <;> simp [launched]
  have hempty := (hmatch hsettled).1 rfl
  contradiction

end SearchViewController
end Stockly
