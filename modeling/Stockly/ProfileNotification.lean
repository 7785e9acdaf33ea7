import Stockly.ProfileRefresh

/-!
# The notification block of a refresh round

Once every fetch of a round has called back, its group balances, and its
notification block sorts, dismisses the HUD and reloads the table, exactly
when no fetch of the round came back with an error.
-/

namespace Stockly
namespace ProfileTableViewController

open RefreshRound

variable {screen : ProfileTableViewController} {number : ℕ}
  {round : RefreshRound} {currentUser : Option String}
  {database : DataSnapshot} {events : List Event}

/-- The group has as many leaves as enters, and the block has run or waits on
the main queue, from where it brings the list to the screen unless the app has
crashed; however the run goes on, it does not run twice. -/
structure NotifiesOnce (number : ℕ) (round : RefreshRound)
    (screen : ProfileTableViewController) : Prop where
  balanced : round.group.leaves = round.group.enters
  runs : round.group.notified = 1 ∨
    (screen.crash = none →
      ∃ next, machine.step screen (.notification number) = some next ∧
        next.watchList.Pairwise NameOrder ∧
        next.watchList.Perm screen.watchList ∧
        next.hud = false ∧
        next.table = .reloadData next.watchList.length)
  once : ∀ more later after,
    machine.run screen more = some later →
      later.rounds[number]? = some after → after.group.notified ≤ 1

def AllSucceed (number : ℕ) (events : List Event) : Prop :=
  ∀ slot transport, .response number slot transport ∈ events →
    ∃ batch, DataGetter.outcome transport = .ok batch

theorem balanced_iff_allSucceed
    (hrun : machine.run (launched currentUser database) events = some screen)
    (hround : screen.rounds[number]? = some round)
    (hsettled : FanOut.Settled round.replies) :
    round.group.Balanced ↔ AllSucceed number events := by
  have hinvariant : RoundInvariant number round :=
    roundsInvariant_run hrun number round hround
  have hhistory : ReplyHistory events screen := replyHistory_run hrun
  rw [hinvariant.balanced_iff]
  constructor
  · intro hall slot transport hresponse
    have hreplied := (hhistory number slot _).mpr ⟨transport, hresponse, rfl⟩
    rw [replied_of_round hround, Option.join_eq_some_iff] at hreplied
    obtain ⟨batch, hbatch⟩ := hall _ (List.mem_of_getElem? hreplied)
    cases houtcome : DataGetter.outcome transport with
    | ok batch => exact ⟨batch, rfl⟩
    | error error =>
        rw [houtcome] at hbatch
        simp [fetchReply] at hbatch
  · intro hall answer hanswer
    obtain ⟨slot, hslot, hget⟩ := List.getElem_of_mem hanswer
    cases answer with
    | none => exact absurd hanswer hsettled
    | some reply =>
        have hreplied : screen.replied number slot = some reply := by
          rw [replied_of_round hround, List.getElem?_eq_getElem hslot, hget]
          rfl
        obtain ⟨transport, hresponse, hreply⟩ :=
          (hhistory number slot reply).mp hreplied
        obtain ⟨batch, hbatch⟩ := hall slot transport hresponse
        rw [hbatch] at hreply
        exact ⟨batch, by rw [← hreply]; rfl⟩

theorem notified_le_one {more : List Event}
    {later : ProfileTableViewController} {after : RefreshRound}
    (hrun : machine.run (launched currentUser database) events = some screen)
    (hmore : machine.run screen more = some later)
    (hafter : later.rounds[number]? = some after) :
    after.group.notified ≤ 1 := by
  have hlater : machine.run (launched currentUser database)
      (events ++ more) = some later := EventMachine.run_trans hrun hmore
  rcases (roundsInvariant_run hlater number after hafter).notified with
    hzero | ⟨hone, -⟩ <;> omega

theorem step_notification
    (hround : screen.rounds[number]? = some round)
    (hready : round.group.Ready) (halive : screen.crash = none) :
    ∃ next, machine.step screen (.notification number) = some next ∧
      next.watchList.Pairwise NameOrder ∧
      next.watchList.Perm screen.watchList ∧
      next.hud = false ∧
      next.table = .reloadData next.watchList.length := by
  have hnotify : screen.NotifyReady number := ⟨round, hround, hready⟩
  have hperm := List.perm_insertionSort NameOrder screen.watchList
  have hstep : machine.step screen (.notification number) =
      some (screen.notifyRound number) :=
    (if_pos halive).trans (if_pos hnotify)
  refine ⟨screen.notifyRound number, hstep, ?_, hperm, rfl, ?_⟩
  · exact List.pairwise_insertionSort NameOrder screen.watchList
  · change RowTable.reloadData screen.watchList.length = _
    rw [← hperm.length_eq]
    rfl

/-- Once every fetch of a round has called back, its notification runs
exactly once exactly when none of the fetches failed; after a failure it never
runs, however the run goes on. -/
theorem notifiesOnce_iff_allSucceed
    (hrun : machine.run (launched currentUser database) events = some screen)
    (hround : screen.rounds[number]? = some round)
    (hsettled : FanOut.Settled round.replies) :
    (NotifiesOnce number round screen ↔ AllSucceed number events) ∧
      (¬ AllSucceed number events →
        ∀ more later after,
          machine.run screen more = some later →
            later.rounds[number]? = some after →
              after.group.notified = 0) := by
  have hiff := balanced_iff_allSucceed hrun hround hsettled
  constructor
  · constructor
    · intro honce
      exact hiff.mp honce.balanced
    · intro hall
      have hbalanced : round.group.Balanced := hiff.mpr hall
      refine ⟨hbalanced, ?_, fun more later after hmore hafter =>
        notified_le_one hrun hmore hafter⟩
      rcases (roundsInvariant_run hrun number round hround).notified with
        hzero | ⟨hone, -⟩
      · exact .inr (step_notification hround ⟨hbalanced, hzero⟩)
      · exact .inl hone
  · intro hfailed more later after hmore hafter
    have hlater : machine.run (launched currentUser database)
        (events ++ more) = some later := EventMachine.run_trans hrun hmore
    have hinvariant : RoundInvariant number after :=
      roundsInvariant_run hlater number after hafter
    rcases hinvariant.notified with hzero | ⟨-, hbalanced⟩
    · exact hzero
    · have hall : AllSucceed number (events ++ more) :=
        (balanced_iff_allSucceed hlater hafter
          (hinvariant.settled_of_balanced hbalanced)).mp hbalanced
      apply absurd _ hfailed
      intro slot transport hresponse
      exact hall slot transport (List.mem_append_left more hresponse)

theorem notifiesOnce_one_symbol :
    ∃ screen round,
      machine.run (launched (some "uid") (oneRecord "AAPL" "Apple Inc"))
        [.viewWillAppear, .snapshot 0, .timerTick 0,
          .response 0 0 (.decoded (.named "AAPL" "Apple Inc"))] =
            some screen ∧
        screen.rounds[0]? = some round ∧ NotifiesOnce 0 round screen := by
  obtain ⟨screen, hrun, hview⟩ := Option.map_eq_some_iff.mp
    (show (machine.run
        (launched (some "uid") (oneRecord "AAPL" "Apple Inc"))
        [.viewWillAppear, .snapshot 0, .timerTick 0,
          .response 0 0 (.decoded (.named "AAPL" "Apple Inc"))]).map
            (fun screen => screen.rounds[0]?.map
              fun round => decide (FanOut.Settled round.replies)) =
        some (some true) by decide)
  obtain ⟨round, hround, hsettled⟩ := Option.map_eq_some_iff.mp hview
  refine ⟨screen, round, hrun, hround,
    (notifiesOnce_iff_allSucceed hrun hround
      (of_decide_eq_true hsettled)).1.mpr ?_⟩
  intro slot transport hresponse
  have htransport : transport = .decoded (.named "AAPL" "Apple Inc") := by
    simp at hresponse
    exact hresponse.2
  exact ⟨_, by rw [htransport, DataGetter.outcome_decoded]⟩

def twoRecords : DataSnapshot :=
  [("-M000000000000000000",
    savedObject (.named "AAPL" "Apple Inc") "-M000000000000000000"),
   ("-M000000000000000001",
    savedObject (.named "TSLA" "Tesla Inc") "-M000000000000000001")]

theorem not_notifiesOnce_after_failure :
    ∃ screen round,
      machine.run (launched (some "uid") twoRecords)
        [.viewWillAppear, .snapshot 0, .timerTick 0,
          .response 0 0 (.failed "The request timed out."),
          .response 0 1 (.decoded (.named "TSLA" "Tesla Inc"))] =
            some screen ∧
        screen.rounds[0]? = some round ∧ FanOut.Settled round.replies ∧
          ¬ NotifiesOnce 0 round screen := by
  obtain ⟨screen, hrun, hview⟩ := Option.map_eq_some_iff.mp
    (show (machine.run (launched (some "uid") twoRecords)
        [.viewWillAppear, .snapshot 0, .timerTick 0,
          .response 0 0 (.failed "The request timed out."),
          .response 0 1 (.decoded (.named "TSLA" "Tesla Inc"))]).map
            (fun screen => screen.rounds[0]?.map
              fun round =>
                (decide (FanOut.Settled round.replies), round.group)) =
        some (some (true, { enters := 2, leaves := 1, notified := 0 }))
      by decide)
  obtain ⟨round, hround, hpair⟩ := Option.map_eq_some_iff.mp hview
  simp only [Prod.mk.injEq] at hpair
  obtain ⟨hsettled, hgroup⟩ := hpair
  refine ⟨screen, round, hrun, hround, of_decide_eq_true hsettled, ?_⟩
  intro honce
  have hbalanced := honce.balanced
  rw [hgroup] at hbalanced
  contradiction

end ProfileTableViewController
end Stockly
