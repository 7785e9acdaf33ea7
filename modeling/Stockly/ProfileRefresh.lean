import Stockly.ProfileTimer

/-!
# The refresh rounds of the watch-list screen

Every tick clears one shared array and starts a round of fetches with its own
dispatch group.  What holds of every run is kept in `RoundInvariant`: a group
is left once for each stock its round has gathered, so it balances exactly
when every fetch of the round has brought a batch.  What the array holds at a
notification depends on the other rounds as well, and is the round's own
stocks as long as rounds do not overlap.
-/

namespace Stockly

namespace RefreshRound

variable {round : RefreshRound}

structure RoundInvariant (number : ℕ) (round : RefreshRound) : Prop where
  slots : round.replies.length = round.symbols.length
  enters : round.group.enters = round.symbols.length
  leaves : round.group.leaves = (round.fetchedStocks number).length
  notified : round.group.notified = 0 ∨
    round.group.notified = 1 ∧ round.group.Balanced

@[simp] theorem fetchedStocks_start (number : ℕ) (symbols : List String) :
    (start symbols).fetchedStocks number = [] :=
  FanOut.gather_start (contribution number) symbols.length

theorem start_roundInvariant (number : ℕ) (symbols : List String) :
    RoundInvariant number (start symbols) := by
  constructor
  · simp [start, FanOut.start]
  · simp [start, DispatchGroup.foldl_enter, DispatchGroup.new]
  · rw [fetchedStocks_start]
    simp [start, DispatchGroup.foldl_enter, DispatchGroup.new]
  · simp [start, DispatchGroup.foldl_enter, DispatchGroup.new]

theorem fetchedStocks_reply_batch {number slot : ℕ}
    (hflight : round.replies[slot]? = some none) (batch : Batch) :
    ((round.reply slot (none, some batch)).fetchedStocks number).Perm
      (round.fetchedStocks number ++ [.ofBatch number slot batch]) :=
  FanOut.gather_set_perm hflight rfl

theorem fetchedStocks_reply_error {number slot : ℕ}
    (hflight : round.replies[slot]? = some none) (error : FetchError) :
    (round.reply slot (some error, none)).fetchedStocks number =
      round.fetchedStocks number :=
  FanOut.gather_set_none hflight rfl

theorem RoundInvariant.not_balanced_of_inFlight {number slot : ℕ}
    (hround : RoundInvariant number round)
    (hflight : round.replies[slot]? = some none) :
    ¬ round.group.Balanced := by
  intro hbalanced
  have hlength : (round.fetchedStocks number).length =
      round.replies.length := by
    rw [← hround.leaves, hbalanced, hround.enters, hround.slots]
  have hslot : slot < round.replies.length :=
    (List.getElem?_eq_some_iff.mp hflight).1
  obtain ⟨reply, hreply, -⟩ :=
    (FanOut.length_gather_eq_iff round.replies).mp hlength slot hslot
  rw [hflight] at hreply
  cases hreply

theorem RoundInvariant.notified_eq_zero_of_inFlight {number slot : ℕ}
    (hround : RoundInvariant number round)
    (hflight : round.replies[slot]? = some none) :
    round.group.notified = 0 := by
  rcases hround.notified with hzero | ⟨-, hbalanced⟩
  · exact hzero
  · exact absurd hbalanced (hround.not_balanced_of_inFlight hflight)

theorem RoundInvariant.batch {number slot : ℕ}
    (hround : RoundInvariant number round)
    (hflight : round.replies[slot]? = some none) (batch : Batch) :
    RoundInvariant number (round.reply slot (none, some batch)).leave := by
  constructor
  · simpa [leave, reply] using hround.slots
  · exact hround.enters
  · have hperm := @fetchedStocks_reply_batch round number slot hflight batch
    have hlength := hperm.length_eq
    rw [List.length_append, List.length_singleton] at hlength
    have hleaves := hround.leaves
    change round.group.leaves + 1 = _
    rw [hleaves]
    exact hlength.symm
  · exact .inl (hround.notified_eq_zero_of_inFlight hflight)

theorem RoundInvariant.failure {number slot : ℕ}
    (hround : RoundInvariant number round)
    (hflight : round.replies[slot]? = some none) (error : FetchError) :
    RoundInvariant number (round.reply slot (some error, none)) := by
  constructor
  · simpa [reply] using hround.slots
  · exact hround.enters
  · rw [fetchedStocks_reply_error hflight]
    exact hround.leaves
  · exact hround.notified

theorem RoundInvariant.notify {number : ℕ}
    (hround : RoundInvariant number round) (hready : round.group.Ready) :
    RoundInvariant number round.notify := by
  refine ⟨hround.slots, hround.enters, hround.leaves, .inr ⟨?_, hready.1⟩⟩
  change round.group.notified + 1 = 1
  rw [hready.2]

theorem RoundInvariant.balanced_iff {number : ℕ}
    (hround : RoundInvariant number round) :
    round.group.Balanced ↔
      ∀ reply ∈ round.replies, ∃ batch, reply = some (none, some batch) := by
  have hlength : round.group.Balanced ↔
      (round.fetchedStocks number).length = round.replies.length := by
    unfold DispatchGroup.Balanced
    rw [hround.leaves, hround.enters, hround.slots]
  rw [hlength]
  unfold fetchedStocks
  rw [FanOut.length_gather_eq_iff]
  constructor
  · intro hall reply hreply
    obtain ⟨slot, hslot, rfl⟩ := List.getElem_of_mem hreply
    obtain ⟨answer, hanswer, hvalue⟩ := hall slot hslot
    rw [List.getElem?_eq_getElem hslot, Option.some.injEq] at hanswer
    rw [hanswer]
    rcases answer with ⟨_ | error, _ | batch⟩
    · simp [contribution] at hvalue
    · exact ⟨batch, rfl⟩
    · simp [contribution] at hvalue
    · simp [contribution] at hvalue
  · intro hall slot hslot
    obtain ⟨batch, hbatch⟩ := hall _ (List.getElem_mem hslot)
    exact ⟨(none, some batch),
      by rw [List.getElem?_eq_getElem hslot, hbatch], rfl⟩

theorem RoundInvariant.settled_of_balanced {number : ℕ}
    (hround : RoundInvariant number round)
    (hbalanced : round.group.Balanced) :
    FanOut.Settled round.replies := by
  intro hnone
  obtain ⟨batch, hbatch⟩ := hround.balanced_iff.mp hbalanced none hnone
  contradiction

end RefreshRound

namespace ProfileTableViewController

open RefreshRound

variable {screen next : ProfileTableViewController}

theorem InFlight.exists_round {number slot : ℕ}
    (hflight : screen.InFlight number slot) :
    ∃ round, screen.rounds[number]? = some round ∧
      round.replies[slot]? = some none :=
  Option.bind_eq_some_iff.mp hflight

theorem InFlight.reply_eq {number slot : ℕ} {round : RefreshRound}
    (hflight : screen.InFlight number slot)
    (hround : screen.rounds[number]? = some round) :
    round.replies[slot]? = some none := by
  unfold InFlight at hflight
  rw [hround] at hflight
  exact hflight

theorem getElem?_modify_eq_some {rounds : List RefreshRound}
    {change : RefreshRound → RefreshRound} {number other : ℕ}
    {round : RefreshRound} :
    (rounds.modify number change)[other]? = some round ↔
      ∃ before, rounds[other]? = some before ∧
        round = if number = other then change before else before := by
  rw [List.getElem?_modify]
  simp [eq_comm]

theorem getElem?_concat_eq_some {rounds : List RefreshRound}
    {last : RefreshRound} {number : ℕ} {round : RefreshRound} :
    (rounds ++ [last])[number]? = some round ↔
      rounds[number]? = some round ∨
        number = rounds.length ∧ round = last := by
  rw [List.getElem?_append]
  split
  next hlt =>
    have hne : number ≠ rounds.length := by omega
    simp [hne]
  next hle =>
    have hnone : rounds[number]? = none :=
      List.getElem?_eq_none (not_lt.mp hle)
    rw [hnone, List.getElem?_singleton]
    have hiff : number - rounds.length = 0 ↔ number = rounds.length := by
      omega
    simp [hiff, eq_comm]

def RoundsInvariant (screen : ProfileTableViewController) : Prop :=
  ∀ number round, screen.rounds[number]? = some round →
    RoundInvariant number round

theorem RoundsInvariant.modify
    {number : ℕ} {change : RefreshRound → RefreshRound}
    (hscreen : RoundsInvariant screen)
    (hrounds : next.rounds = screen.rounds.modify number change)
    (hchange : ∀ round, screen.rounds[number]? = some round →
      RoundInvariant number (change round)) :
    RoundsInvariant next := by
  intro other round hround
  rw [hrounds, getElem?_modify_eq_some] at hround
  obtain ⟨before, hbefore, hround⟩ := hround
  by_cases hsame : number = other
  · subst hsame
    rw [if_pos rfl] at hround
    rw [hround]
    exact hchange before hbefore
  · rw [if_neg hsame] at hround
    rw [hround]
    exact hscreen other before hbefore

theorem RoundsInvariant.step {event : Event}
    (hscreen : RoundsInvariant screen)
    (hstep : machine.step screen event = some next) :
    RoundsInvariant next := by
  cases effect_of_step hstep with
  | tick hlive =>
      intro number round hround
      rcases getElem?_concat_eq_some.mp hround with
        hold | ⟨hnumber, hnew⟩
      · exact hscreen number round hold
      · rw [hnew]
        exact start_roundInvariant number screen.symbolList
  | batch hflight hbatch =>
      apply hscreen.modify (List.modify_modify_eq _ _ _ _)
      intro round hround
      have hslot := hflight.reply_eq hround
      exact (hscreen _ round hround).batch hslot _
  | failure hflight herror =>
      apply hscreen.modify rfl
      intro round hround
      have hslot := hflight.reply_eq hround
      exact (hscreen _ round hround).failure hslot _
  | notify hready =>
      apply hscreen.modify rfl
      intro round hround
      obtain ⟨waiting, hwaiting, hready⟩ := hready
      rw [hround, Option.some.injEq] at hwaiting
      subst hwaiting
      exact (hscreen _ round hround).notify hready
  | appear | disappear | change | emptySnapshot | brokenSnapshot
  | fullSnapshot | row | rowOutOfRange | deleteSignedOut
  | deleteOutOfRange | deleteInvalidPath | delete | deleteMismatch =>
      exact hscreen

theorem roundsInvariant_run {currentUser : Option String}
    {database : DataSnapshot} {events : List Event}
    (hrun : machine.run (launched currentUser database) events =
      some screen) :
    RoundsInvariant screen := by
  refine EventMachine.invariant_run RoundsInvariant.step ?_ hrun
  intro number round hround
  simp [launched] at hround

/-! ## Replies and responses -/

def fetchReply : Except FetchError Batch → FetchReply
  | .ok batch => (none, some batch)
  | .error error => (some error, none)

def replied (number slot : ℕ) (screen : ProfileTableViewController) :
    Option FetchReply :=
  (screen.rounds[number]?.bind fun round => round.replies[slot]?).join

theorem replied_of_round {number slot : ℕ} {round : RefreshRound}
    (hround : screen.rounds[number]? = some round) :
    screen.replied number slot = round.replies[slot]?.join := by
  unfold replied
  rw [hround]
  rfl

theorem InFlight.replied_eq_none {number slot : ℕ}
    (hflight : screen.InFlight number slot) :
    screen.replied number slot = none := by
  unfold InFlight at hflight
  unfold replied
  rw [hflight]
  rfl

theorem replied_modify
    {change : RefreshRound → RefreshRound} {number other slot : ℕ}
    (hrounds : next.rounds = screen.rounds.modify number change)
    (hchange : ∀ round, (change round).replies = round.replies) :
    next.replied other slot = screen.replied other slot := by
  unfold replied
  rw [hrounds, List.getElem?_modify]
  cases screen.rounds[other]? with
  | none => rfl
  | some round =>
      by_cases hsame : number = other
      · simp [hsame, hchange]
      · simp [hsame]

theorem replied_respond
    {change : RefreshRound → RefreshRound} {number slot : ℕ}
    {reply : FetchReply} (hflight : screen.InFlight number slot)
    (hrounds : next.rounds = screen.rounds.modify number change)
    (hchange : ∀ round,
      (change round).replies = round.replies.set slot (some reply))
    (other place : ℕ) :
    next.replied other place =
      if number = other ∧ slot = place then some reply
      else screen.replied other place := by
  obtain ⟨flying, hflying, hslot⟩ := hflight.exists_round
  have hlt : slot < flying.replies.length :=
    (List.getElem?_eq_some_iff.mp hslot).1
  unfold replied
  rw [hrounds, List.getElem?_modify]
  by_cases hsame : number = other
  · subst hsame
    rw [hflying]
    by_cases hplace : slot = place
    · subst hplace
      simp [hchange, hlt]
    · simp [hchange, hplace, List.getElem?_set_ne]
  · simp [hsame]

theorem replied_fireTimer (number slot : ℕ)
    (screen : ProfileTableViewController) :
    screen.fireTimer.replied number slot = screen.replied number slot := by
  unfold replied
  change ((screen.rounds ++ [start screen.symbolList])[number]?.bind
    fun round => round.replies[slot]?).join = _
  rw [List.getElem?_append]
  split
  · rfl
  next hle =>
    have hnone : screen.rounds[number]? = none :=
      List.getElem?_eq_none (not_lt.mp hle)
    rw [hnone, List.getElem?_singleton]
    by_cases hfirst : number - screen.rounds.length = 0
    · by_cases hslot : slot < screen.symbolList.length <;>
        simp [hfirst, hslot, start, FanOut.start]
    · simp [hfirst]

theorem replied_of_step {event : Event}
    (hstep : machine.step screen event = some next)
    (hevent : ∀ number slot transport,
      event ≠ .response number slot transport)
    (number slot : ℕ) :
    next.replied number slot = screen.replied number slot := by
  cases effect_of_step hstep with
  | batch | failure => exact absurd rfl (hevent _ _ _)
  | tick => exact replied_fireTimer number slot screen
  | notify => exact replied_modify rfl fun _ => rfl
  | appear | disappear | change | emptySnapshot | brokenSnapshot
  | fullSnapshot | row | rowOutOfRange | deleteSignedOut
  | deleteOutOfRange | deleteInvalidPath | delete | deleteMismatch => rfl

theorem replied_of_response {number slot : ℕ} {transport : Transport Batch}
    (hstep : machine.step screen (.response number slot transport) =
      some next) (other place : ℕ) :
    next.replied other place =
      if number = other ∧ slot = place then
        some (fetchReply (DataGetter.outcome transport))
      else screen.replied other place := by
  cases effect_of_step hstep with
  | batch hflight hbatch =>
      rw [hbatch]
      exact replied_respond hflight (List.modify_modify_eq _ _ _ _)
        (fun _ => rfl) other place
  | failure hflight herror =>
      rw [herror]
      exact replied_respond hflight rfl (fun _ => rfl) other place

/-- The replies of the screen are the outcomes of the responses so far. -/
def ReplyHistory (events : List Event)
    (screen : ProfileTableViewController) : Prop :=
  ∀ number slot reply,
    screen.replied number slot = some reply ↔
      ∃ transport, .response number slot transport ∈ events ∧
        fetchReply (DataGetter.outcome transport) = reply

theorem ReplyHistory.step {events : List Event} {event : Event}
    (hscreen : ReplyHistory events screen)
    (hstep : machine.step screen event = some next) :
    ReplyHistory (events ++ [event]) next := by
  intro number slot reply
  by_cases hresponse :
      ∃ other place transport, event = .response other place transport
  · obtain ⟨other, place, transport, rfl⟩ := hresponse
    rw [replied_of_response hstep]
    by_cases hhere : other = number ∧ place = slot
    · obtain ⟨hnumber, hslot⟩ := hhere
      subst hnumber hslot
      -- no response came for this fetch before
      have hflight : screen.InFlight other place := by
        cases effect_of_step hstep with
        | batch hflight => exact hflight
        | failure hflight => exact hflight
      have hbefore : ∀ earlier,
          .response other place earlier ∉ events := by
        intro earlier hearlier
        have hreplied :=
          (hscreen other place _).mpr ⟨earlier, hearlier, rfl⟩
        rw [hflight.replied_eq_none] at hreplied
        contradiction
      simp [hbefore]
    · have hne : ∀ earlier,
          Event.response number slot earlier ≠
            .response other place transport := by
        intro earlier heq
        cases heq
        exact hhere ⟨rfl, rfl⟩
      simp [hhere, hne, hscreen number slot reply]
  · have hne : ∀ other place transport,
        event ≠ .response other place transport := by
      intro other place transport heq
      exact hresponse ⟨other, place, transport, heq⟩
    rw [replied_of_step hstep hne, hscreen number slot reply]
    simp [(hne _ _ _).symm]

theorem replyHistory_run {currentUser : Option String}
    {database : DataSnapshot} {events : List Event}
    (hrun : machine.run (launched currentUser database) events =
      some screen) :
    ReplyHistory events screen := by
  refine EventMachine.history_run ReplyHistory.step ?_ hrun
  intro number slot reply
  simp [launched, replied]

end ProfileTableViewController
end Stockly
