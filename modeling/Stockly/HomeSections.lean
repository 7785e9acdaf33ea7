import Stockly.HomeTableViewController

/-!
# The sections of the Home table

The screen simulates the machine of last responses, every section showing the
shelf of its sector.  A shelf is empty or complete and never goes back to
empty, so the rows which the table was last given stay in bounds.
-/

namespace Stockly
namespace HomeTableViewController

variable {screen next : HomeTableViewController} {last : LastResponses}

/-- Each controller holds the last response of its sector, and the table has
no more rows than the arrays. -/
structure Shows (screen : HomeTableViewController) (last : LastResponses) :
    Prop where
  tech : TechStockController.layout.Holds last.tech
    screen.techStockController
  health : HealthStockController.layout.Holds last.health
    screen.healthStockController
  industrial : IndustrialStockController.layout.Holds last.industrial
    screen.industrialStockController
  rows : ∀ sectionNumber, (screen.table sectionNumber).numberOfRows ≤
    (screen.sectionStocks sectionNumber).length
  inRange : screen.outOfRange = false

theorem launched_shows : Shows launched .none := by
  refine ⟨SectorLayout.holds_new _, SectorLayout.holds_new _,
    SectorLayout.holds_new _, fun sectionNumber => ?_, rfl⟩
  rw [launched, RowTable.numberOfRows_reloadData]
  exact Nat.zero_le _

theorem Shows.exists_stockFor (hscreen : Shows screen last)
    {indexPath : IndexPath} (hrow : screen.HasRow indexPath) :
    ∃ stock, screen.stockFor indexPath = some stock := by
  have hlt : indexPath.row <
      (screen.sectionStocks indexPath.sectionNumber).length :=
    lt_of_lt_of_le hrow.2 (hscreen.rows indexPath.sectionNumber)
  exact ⟨_, List.getElem?_eq_getElem hlt⟩

def received {Root : Type} (make : Root → LastResponses.Event)
    (transport : Transport Root) : List LastResponses.Event :=
  match DataGetter.outcome transport with
  | .ok root => [make root]
  | .error _ => []

def label : Event → List LastResponses.Event
  | .techResponse transport => received .tech transport
  | .healthResponse transport => received .health transport
  | .industrialResponse transport => received .industrial transport
  | _ => []

theorem mem_received {Root : Type} {make : Root → LastResponses.Event}
    {transport : Transport Root} {other : LastResponses.Event} :
    other ∈ received make transport ↔
      ∃ root, other = make root ∧
        DataGetter.outcome transport = .ok root := by
  unfold received
  cases DataGetter.outcome transport with
  | ok root => simp
  | error error => simp

theorem received_eq_nil {Root : Type} {make : Root → LastResponses.Event}
    {transport : Transport Root} {error : FetchError}
    (herror : DataGetter.outcome transport = .error error) :
    received make transport = [] := by
  unfold received
  rw [herror]

/-! ## One response -/

theorem Shows.fetchTechStocks (hscreen : Shows screen last)
    (transport : Transport TechRoot) :
    Shows (screen.fetchTechStocks transport)
      { last with
        tech := SectorLayout.lastResponse transport last.tech } := by
  have hholds := hscreen.tech.fetchStocks transport screen.mainQueue
  refine ⟨hholds, hscreen.health, hscreen.industrial, ?_, hscreen.inRange⟩
  intro sectionNumber
  apply (hscreen.rows sectionNumber).trans
  by_cases hsection : sectionNumber = 0
  · subst hsection
    exact hscreen.tech.length_le hholds
  · simp [sectionStocks, hsection, HomeTableViewController.fetchTechStocks]

theorem Shows.fetchHealthStocks (hscreen : Shows screen last)
    (transport : Transport HealthRoot) :
    Shows (screen.fetchHealthStocks transport)
      { last with
        health := SectorLayout.lastResponse transport last.health } := by
  have hholds := hscreen.health.fetchStocks transport screen.mainQueue
  refine ⟨hscreen.tech, hholds, hscreen.industrial, ?_, hscreen.inRange⟩
  intro sectionNumber
  apply (hscreen.rows sectionNumber).trans
  by_cases hsection : sectionNumber = 1
  · subst hsection
    exact hscreen.health.length_le hholds
  · simp [sectionStocks, hsection, HomeTableViewController.fetchHealthStocks]

theorem Shows.fetchIndustrialStocks (hscreen : Shows screen last)
    (transport : Transport IndustrialRoot) :
    Shows (screen.fetchIndustrialStocks transport)
      { last with
        industrial :=
          SectorLayout.lastResponse transport last.industrial } := by
  have hholds := hscreen.industrial.fetchStocks transport screen.mainQueue
  refine ⟨hscreen.tech, hscreen.health, hholds, ?_, hscreen.inRange⟩
  intro sectionNumber
  apply (hscreen.rows sectionNumber).trans
  by_cases hfirst : sectionNumber = 0
  · simp [sectionStocks, hfirst,
      HomeTableViewController.fetchIndustrialStocks]
  · by_cases hsecond : sectionNumber = 1
    · simp [sectionStocks, hsecond,
        HomeTableViewController.fetchIndustrialStocks]
    · simp only [sectionStocks, if_neg hfirst, if_neg hsecond]
      exact hscreen.industrial.length_le hholds

/-! ## The table -/

theorem Shows.reloadData (hscreen : Shows screen last) :
    Shows screen.reloadData last := by
  refine ⟨hscreen.tech, hscreen.health, hscreen.industrial, ?_,
    hscreen.inRange⟩
  intro sectionNumber
  change (RowTable.reloadData _).numberOfRows ≤ _
  rw [RowTable.numberOfRows_reloadData]
  exact le_rfl

theorem Shows.cellForRowAt (hscreen : Shows screen last)
    {indexPath : IndexPath} (hrow : screen.HasRow indexPath) :
    Shows (screen.cellForRowAt indexPath) last := by
  obtain ⟨stock, hstock⟩ := hscreen.exists_stockFor hrow
  unfold HomeTableViewController.cellForRowAt
  rw [hstock]
  have hsame : ∀ sectionNumber,
      (Function.update screen.table indexPath.sectionNumber
        ((screen.table indexPath.sectionNumber).display indexPath.row stock)
        sectionNumber).numberOfRows =
          (screen.table sectionNumber).numberOfRows := by
    intro sectionNumber
    by_cases hsection : sectionNumber = indexPath.sectionNumber
    · simp [hsection]
    · simp [hsection]
  refine ⟨hscreen.tech, hscreen.health, hscreen.industrial, ?_,
    hscreen.inRange⟩
  intro sectionNumber
  exact (hsame sectionNumber).le.trans (hscreen.rows sectionNumber)

theorem Shows.prepare (hscreen : Shows screen last)
    {indexPath : IndexPath} (hrow : screen.HasRow indexPath) :
    Shows (screen.prepare indexPath) last := by
  obtain ⟨stock, hstock⟩ := hscreen.exists_stockFor hrow
  unfold HomeTableViewController.prepare
  rw [hstock]
  exact ⟨hscreen.tech, hscreen.health, hscreen.industrial, hscreen.rows,
    hscreen.inRange⟩

/-! ## Runs -/

theorem handle_of_step {event : Event}
    (hstep : machine.step screen event = some next) :
    screen.handle event = some next := by
  cases hrange : screen.outOfRange <;> simp [machine, hrange] at hstep
  exact hstep

theorem Shows.step {event : Event} (hscreen : Shows screen last)
    (hstep : machine.step screen event = some next) :
    ∃ later, LastResponses.machine.run last (label event) = some later ∧
      Shows next later := by
  have hhandle := handle_of_step hstep
  cases event with
  | techResponse transport =>
      cases hhandle
      refine ⟨_, ?_, hscreen.fetchTechStocks transport⟩
      cases houtcome : DataGetter.outcome transport <;>
        simp [label, received, SectorLayout.lastResponse, houtcome,
          LastResponses.machine]
  | healthResponse transport =>
      cases hhandle
      refine ⟨_, ?_, hscreen.fetchHealthStocks transport⟩
      cases houtcome : DataGetter.outcome transport <;>
        simp [label, received, SectorLayout.lastResponse, houtcome,
          LastResponses.machine]
  | industrialResponse transport =>
      cases hhandle
      refine ⟨_, ?_, hscreen.fetchIndustrialStocks transport⟩
      cases houtcome : DataGetter.outcome transport <;>
        simp [label, received, SectorLayout.lastResponse, houtcome,
          LastResponses.machine]
  | mainBlock =>
      refine ⟨last, rfl, ?_⟩
      unfold handle at hhandle
      cases hqueue : screen.mainQueue with
      | nil => simp [hqueue] at hhandle
      | cons error rest =>
          simp only [hqueue, Option.some.injEq] at hhandle
          subst next
          exact Shows.reloadData ⟨hscreen.tech, hscreen.health,
            hscreen.industrial, hscreen.rows, hscreen.inRange⟩
  | rowRequest indexPath =>
      refine ⟨last, rfl, ?_⟩
      simp only [handle, Option.ite_none_right_eq_some,
        Option.some.injEq] at hhandle
      exact hhandle.2 ▸ hscreen.cellForRowAt hhandle.1
  | rowSelect indexPath =>
      refine ⟨last, rfl, ?_⟩
      simp only [handle, Option.ite_none_right_eq_some,
        Option.some.injEq] at hhandle
      exact hhandle.2 ▸ hscreen.prepare hhandle.1

/-- The Home table refines the machine of last responses. -/
def simulation : EventMachine.Simulation machine LastResponses.machine where
  related := Shows
  label := label
  simulates := Shows.step

theorem exists_shows_of_run {events : List Event}
    (hrun : machine.run launched events = some screen) :
    ∃ last, Shows screen last ∧
      LastResponses.Received (events.flatMap label) last := by
  obtain ⟨last, hlast, hshows⟩ := simulation.run launched_shows hrun
  exact ⟨last, hshows, LastResponses.received_run hlast⟩

/-! ## The arrays -/

def Brings (event : Event) : LastResponses.Event → Prop
  | .tech root => ∃ transport, event = .techResponse transport ∧
      DataGetter.outcome transport = .ok root
  | .health root => ∃ transport, event = .healthResponse transport ∧
      DataGetter.outcome transport = .ok root
  | .industrial root => ∃ transport, event = .industrialResponse transport ∧
      DataGetter.outcome transport = .ok root

theorem brings_of_mem_label {event : Event} {other : LastResponses.Event}
    (hother : other ∈ label event) :
    Brings event other := by
  cases event with
  | techResponse transport =>
      obtain ⟨root, hroot, houtcome⟩ := mem_received.mp hother
      rw [hroot]
      exact ⟨transport, rfl, houtcome⟩
  | healthResponse transport =>
      obtain ⟨root, hroot, houtcome⟩ := mem_received.mp hother
      rw [hroot]
      exact ⟨transport, rfl, houtcome⟩
  | industrialResponse transport =>
      obtain ⟨root, hroot, houtcome⟩ := mem_received.mp hother
      rw [hroot]
      exact ⟨transport, rfl, houtcome⟩
  | mainBlock | rowRequest | rowSelect => contradiction

def OneResponse {Root : Type} (batches : Root → List Batch)
    (response : Transport Root → Event) (events : List Event)
    (stocks : List Batch) : Prop :=
  stocks = [] ∨
    ∃ transport root, response transport ∈ events ∧
      DataGetter.outcome transport = .ok root ∧ stocks = batches root

theorem oneResponse_of_holds {Root Slot : Type}
    {layout : SectorLayout Root Slot} {batches : Root → List Batch}
    {response : Transport Root → Event} {events : List Event}
    {received : Option Root} {controller : SectorStockController Slot}
    (hholds : layout.Holds received controller)
    (hbatches : ∀ root, layout.shelf (some root) = batches root)
    (hreceived : ∀ root, received = some root →
      ∃ event ∈ events, ∃ transport, event = response transport ∧
        DataGetter.outcome transport = .ok root) :
    OneResponse batches response events controller.stocks := by
  unfold OneResponse
  rw [hholds.stocks]
  cases received with
  | none => exact .inl rfl
  | some root =>
      obtain ⟨event, hevent, transport, hresponse, houtcome⟩ :=
        hreceived root rfl
      rw [hbatches]
      exact .inr ⟨transport, root, hresponse ▸ hevent, houtcome, rfl⟩

def FailedFetch : Event → Prop
  | .techResponse transport =>
      ∃ error, DataGetter.outcome transport = .error error
  | .healthResponse transport =>
      ∃ error, DataGetter.outcome transport = .error error
  | .industrialResponse transport =>
      ∃ error, DataGetter.outcome transport = .error error
  | _ => False

theorem label_eq_nil_of_failedFetch {event : Event}
    (hfailed : FailedFetch event) :
    label event = [] := by
  cases event with
  | techResponse | healthResponse | industrialResponse =>
      obtain ⟨error, herror⟩ := hfailed
      exact received_eq_nil herror
  | mainBlock | rowRequest | rowSelect => contradiction

theorem Shows.sectionStocks_eq (hscreen : Shows screen last)
    (hnext : Shows next last) (sectionNumber : ℕ) :
    next.sectionStocks sectionNumber = screen.sectionStocks sectionNumber := by
  unfold sectionStocks
  rw [hscreen.tech.stocks, hscreen.health.stocks, hscreen.industrial.stocks,
    hnext.tech.stocks, hnext.health.stocks, hnext.industrial.stocks]

/-- No row of the table is ever out of bounds, each section is empty or holds
its five batches of one response in its fixed order, and a failed fetch
changes no section. -/
structure SectionsRight (events : List Event)
    (screen : HomeTableViewController) : Prop where
  inBounds : ∀ indexPath, screen.HasRow indexPath →
    ∃ stock, screen.stockFor indexPath = some stock
  inRange : screen.outOfRange = false
  tech : OneResponse
    (fun root => [root.AAPL, root.TSLA, root.AMZN, root.FB, root.BABA])
    .techResponse events screen.techStockController.stocks
  health : OneResponse
    (fun root => [root.CELG, root.ALGN, root.ALXN, root.ANTM, root.TEVA])
    .healthResponse events screen.healthStockController.stocks
  industrial : OneResponse
    (fun root => [root.HEI, root.DHR, root.TDG, root.ZBRA, root.SWK])
    .industrialResponse events screen.industrialStockController.stocks
  afterFailure : ∀ event next, machine.step screen event = some next →
    FailedFetch event → ∀ sectionNumber,
      next.sectionStocks sectionNumber = screen.sectionStocks sectionNumber

theorem sectionsRight_run {events : List Event}
    (hrun : machine.run launched events = some screen) :
    SectionsRight events screen := by
  obtain ⟨last, hscreen, hreceived⟩ := exists_shows_of_run hrun
  have hbrought : ∀ other, other ∈ events.flatMap label →
      ∃ event ∈ events, Brings event other := by
    intro other hother
    obtain ⟨event, hevent, hlabel⟩ := List.mem_flatMap.mp hother
    exact ⟨event, hevent, brings_of_mem_label hlabel⟩
  constructor
  · intro indexPath hrow
    exact hscreen.exists_stockFor hrow
  · exact hscreen.inRange
  · apply oneResponse_of_holds hscreen.tech
    · intro root
      rfl
    · intro root hroot
      exact hbrought _ (hreceived.tech root hroot)
  · apply oneResponse_of_holds hscreen.health
    · intro root
      rfl
    · intro root hroot
      exact hbrought _ (hreceived.health root hroot)
  · apply oneResponse_of_holds hscreen.industrial
    · intro root
      rfl
    · intro root hroot
      exact hbrought _ (hreceived.industrial root hroot)
  · intro event next hstep hfailed
    obtain ⟨later, hlater, hnext⟩ := hscreen.step hstep
    rw [label_eq_nil_of_failedFetch hfailed] at hlater
    cases hlater
    exact hscreen.sectionStocks_eq hnext

def namedTechRoot : TechRoot :=
  { AAPL := .named "AAPL" "Apple Inc", TSLA := .named "TSLA" "Tesla Inc",
    FB := .named "FB" "Facebook Inc", AMZN := .named "AMZN" "Amazon.com Inc",
    BABA := .named "BABA" "Alibaba Group" }

theorem sectionsRight_after_one_response :
    ∃ screen, machine.run launched
        [.techResponse (.decoded namedTechRoot), .mainBlock,
          .rowRequest ⟨0, 4⟩,
          .healthResponse (.failed "The request timed out.")] =
            some screen ∧
      SectionsRight
        [.techResponse (.decoded namedTechRoot), .mainBlock,
          .rowRequest ⟨0, 4⟩,
          .healthResponse (.failed "The request timed out.")] screen := by
  obtain ⟨screen, hrun, -⟩ := Option.map_eq_some_iff.mp
    (show (machine.run launched
        [.techResponse (.decoded namedTechRoot), .mainBlock,
          .rowRequest ⟨0, 4⟩,
          .healthResponse (.failed "The request timed out.")]).map
            (fun screen => (screen.sectionStocks 0).length) = some 5
      by decide)
  exact ⟨screen, hrun, sectionsRight_run hrun⟩

end HomeTableViewController
end Stockly
