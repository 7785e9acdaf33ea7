import Stockly.ProfileOverlap

/-!
# Deleting a row of the watch list

A row is fetched for a symbol of the node, but the delete names the child to
remove by the symbol that the server put into the quote.  While the node stays
the same, every row has a symbol of the node; deleting the row removes the
record of that symbol only where the server's symbol, read as a path, leads to
it.
-/

namespace Stockly
namespace ProfileTableViewController

open KeyTree RefreshRound

variable {screen next : ProfileTableViewController} {node : DataSnapshot}

def fetchedFor (stock : FetchedStock) (screen : ProfileTableViewController) :
    Option String :=
  screen.rounds[stock.round]?.bind fun round => round.symbols[stock.slot]?

def SavedSymbol (node : DataSnapshot) (symbol : String) : Prop :=
  ∃ child ∈ node, stockSymbol child.2 = some symbol

/-- Committing a delete on the row never raises, and when the removal
succeeds the node has lost exactly one record, one with that symbol. -/
def DeletesRecord (row : ℕ) (symbol : String)
    (screen : ProfileTableViewController) : Prop :=
  ∀ error, (screen.commitDelete row error).crash = none ∧
    (error = none →
      ∃ key record, screen.database.lookup key = some record ∧
        stockSymbol record = some symbol ∧
        (screen.commitDelete row error).database =
          Forest.erase key screen.database)

/-- The identifier is a valid path and leads to a record with that symbol:
it is the record's key, or there is no other record and the path is empty. -/
def NamesRecord (node : DataSnapshot) (symbol id : String) : Prop :=
  ∃ key record path, node.lookup key = some record ∧
    stockSymbol record = some symbol ∧ childPath id = some path ∧
    (path = [key] ∨ path = [] ∧ Forest.keys node = [key])

/-! ## The records of the node -/

theorem isRecord_of_saved {key : String} {record : KeyTree Scalar}
    (hsaved : SavedUnder key record) :
    Forest.IsRecord record := by
  obtain ⟨quote, hrecord⟩ := hsaved.exists_quote
  refine ⟨_, "id", "stock symbol", hrecord, ?_, ?_, ?_, ?_⟩
  · simp
  · simp [Forest.keys]
  · simp [Forest.keys]
  · decide

/-! ## One delete -/

theorem commitDelete_crash_iff {row : ℕ} {stock : FetchedStock}
    (huser : screen.currentUser.isSome) (hup : screen.crash = none)
    (hstock : screen.watchList[row]? = some stock)
    (error : Option String) :
    (screen.commitDelete row error).crash = none ↔
      (childPath stock.stock.id).isSome ∧
        screen.table.numberOfRows = screen.watchList.length := by
  have hlt : row < screen.watchList.length :=
    (List.getElem?_eq_some_iff.mp hstock).1
  rcases commitDelete_cases row error screen with
    ⟨hnone, heq⟩ | ⟨hnone, heq⟩ | ⟨other, hother, hpath, heq⟩ |
      ⟨other, path, alerts, database, observers, hother, hpath, -, heq⟩
  · rw [hnone] at huser
    contradiction
  · rw [hstock] at hnone
    contradiction
  · rw [hstock, Option.some.injEq] at hother
    subst hother
    simp [heq, hpath]
  · rw [hstock, Option.some.injEq] at hother
    subst hother
    rw [heq, hpath]
    unfold deleteRows
    split
    next hcount =>
      simp only [List.length_eraseIdx_of_lt hlt] at hcount
      simp only [hup, Option.isSome_some, true_and, true_iff]
      omega
    next hcount =>
      simp only [List.length_eraseIdx_of_lt hlt] at hcount
      simp only [reduceCtorEq, Option.isSome_some, true_and, false_iff]
      omega

theorem commitDelete_database {row : ℕ} {stock : FetchedStock}
    {path : List String} (huser : screen.currentUser.isSome)
    (hstock : screen.watchList[row]? = some stock)
    (hpath : childPath stock.stock.id = some path) :
    (screen.commitDelete row none).database =
      (Forest.remove path screen.database).getD screen.database := by
  obtain ⟨uid, huid⟩ := Option.isSome_iff_exists.mp huser
  have hremove : (screen.removeValue path none).database =
      (Forest.remove path screen.database).getD screen.database := by
    unfold removeValue
    cases Forest.remove path screen.database <;> rfl
  simp only [commitDelete, huid, hstock, hpath]
  rw [← hremove]
  unfold deleteRows
  split <;> rfl

theorem deletesRecord_iff_of_node {row : ℕ} {stock : FetchedStock}
    {symbol : String}
    (hdistinct : (Forest.keys screen.database).Nodup)
    (hrecords : ∀ child ∈ screen.database, Forest.IsRecord child.2)
    (huser : screen.currentUser.isSome) (hup : screen.crash = none)
    (hstock : screen.watchList[row]? = some stock) :
    DeletesRecord row symbol screen ↔
      screen.table.numberOfRows = screen.watchList.length ∧
        NamesRecord screen.database symbol stock.stock.id := by
  unfold DeletesRecord NamesRecord
  constructor
  · intro hlaw
    obtain ⟨hcrash, hremoved⟩ := hlaw none
    rw [commitDelete_crash_iff huser hup hstock] at hcrash
    obtain ⟨hvalid, hcount⟩ := hcrash
    obtain ⟨path, hpath⟩ := Option.isSome_iff_exists.mp hvalid
    obtain ⟨key, record, hlookup, hsymbol, hdatabase⟩ := hremoved rfl
    have hkey : key ∈ Forest.keys screen.database := by
      rw [← Forest.isSome_lookup_iff, hlookup]
      rfl
    rw [commitDelete_database huser hstock hpath,
      Forest.remove_eq_erase_iff hdistinct hrecords hkey] at hdatabase
    exact ⟨hcount, key, record, path, hlookup, hsymbol, hpath, hdatabase⟩
  · rintro ⟨hcount, key, record, path, hlookup, hsymbol, hpath, hnames⟩ error
    have hkey : key ∈ Forest.keys screen.database := by
      rw [← Forest.isSome_lookup_iff, hlookup]
      rfl
    constructor
    · rw [commitDelete_crash_iff huser hup hstock, hpath]
      exact ⟨rfl, hcount⟩
    · intro herror
      subst herror
      refine ⟨key, record, hlookup, hsymbol, ?_⟩
      rw [commitDelete_database huser hstock hpath,
        Forest.remove_eq_erase_iff hdistinct hrecords hkey]
      exact hnames

theorem not_namesRecord_of_noSlash {symbol id : String}
    (hslash : '/' ∉ id.toList) (hkey : id ∉ Forest.keys node) :
    ¬ NamesRecord node symbol id := by
  rintro ⟨key, record, path, hlookup, -, hpath, hnames⟩
  simp only [childPath, Option.ite_none_right_eq_some,
    Option.some.injEq] at hpath
  obtain ⟨hvalid, hpieces⟩ := hpath
  have hnonempty : id ≠ "" := by
    intro hempty
    simp [isValidPathString, hempty] at hvalid
  rw [pathPieces_of_noSlash hnonempty hslash] at hpieces
  subst hpieces
  rcases hnames with hsame | ⟨hnil, -⟩
  · apply hkey
    rw [← Forest.isSome_lookup_iff, List.singleton_inj.mp hsame, hlookup]
    rfl
  · contradiction

/-! ## Rows of an unchanging node -/

def KeepsNode (event : Event) : Prop :=
  (∀ database, event ≠ .databaseChange database) ∧ NoRowDelete event

structure FromNode (node : DataSnapshot)
    (screen : ProfileTableViewController) : Prop where
  signedIn : screen.currentUser.isSome
  database : screen.database = node
  observers : ∀ queue ∈ screen.observers, ∀ snapShot ∈ queue, snapShot = node
  symbolList : ∀ symbol ∈ screen.symbolList, SavedSymbol node symbol
  rounds : ∀ round ∈ screen.rounds, ∀ symbol ∈ round.symbols,
    SavedSymbol node symbol
  watchList : ∀ stock ∈ screen.watchList, (screen.fetchedFor stock).isSome

theorem savedSymbol_of_mem_readSymbols {snapShot : DataSnapshot}
    {symbol : String} (hmem : symbol ∈ (readSymbols snapShot).1) :
    SavedSymbol snapShot symbol := by
  induction snapShot with
  | nil => simp [readSymbols] at hmem
  | cons child children ih =>
      cases hsymbol : stockSymbol child.2 with
      | none => simp [readSymbols, hsymbol] at hmem
      | some first =>
          simp only [readSymbols, hsymbol, List.mem_cons] at hmem
          rcases hmem with hfirst | hrest
          · exact ⟨child, List.mem_cons_self, by rw [hsymbol, hfirst]⟩
          · obtain ⟨other, hother, hsaved⟩ := ih hrest
            exact ⟨other, List.mem_cons_of_mem _ hother, hsaved⟩

theorem FromNode.nextSnapshot_eq {observer : ℕ} {snapShot : DataSnapshot}
    (hscreen : FromNode node screen)
    (hnext : screen.nextSnapshot observer = some snapShot) :
    snapShot = node := by
  obtain ⟨queue, hqueue, hhead⟩ := Option.bind_eq_some_iff.mp hnext
  exact hscreen.observers queue (List.mem_of_getElem? hqueue) snapShot
    (List.mem_of_head? hhead)

theorem FromNode.tail_observers {observer : ℕ}
    (hscreen : FromNode node screen) :
    ∀ queue ∈ screen.observers.modify observer List.tail,
      ∀ snapShot ∈ queue, snapShot = node := by
  intro queue hqueue snapShot hsnapShot
  obtain ⟨place, hplace⟩ := List.mem_iff_getElem?.mp hqueue
  rw [List.getElem?_modify] at hplace
  obtain ⟨before, hbefore, hsame⟩ := Option.map_eq_some_iff.mp hplace
  apply hscreen.observers before (List.mem_of_getElem? hbefore) snapShot
  rw [← hsame] at hsnapShot
  split at hsnapShot
  · exact List.mem_of_mem_tail hsnapShot
  · exact hsnapShot

theorem fetchedFor_modify {number : ℕ} {change : RefreshRound → RefreshRound}
    (hrounds : next.rounds = screen.rounds.modify number change)
    (hchange : ∀ round, (change round).symbols = round.symbols)
    (stock : FetchedStock) :
    next.fetchedFor stock = screen.fetchedFor stock := by
  unfold fetchedFor
  rw [hrounds, List.getElem?_modify]
  cases screen.rounds[stock.round]? with
  | none => rfl
  | some round =>
      by_cases hsame : number = stock.round
      · simp [hsame, hchange]
      · simp [hsame]

theorem FromNode.modify {number : ℕ} {change : RefreshRound → RefreshRound}
    (hscreen : FromNode node screen)
    (hrounds : next.rounds = screen.rounds.modify number change)
    (hchange : ∀ round, (change round).symbols = round.symbols)
    (huser : next.currentUser = screen.currentUser)
    (hdatabase : next.database = screen.database)
    (hobservers : next.observers = screen.observers)
    (hsymbols : next.symbolList = screen.symbolList)
    (hlist : ∀ stock ∈ next.watchList, (screen.fetchedFor stock).isSome) :
    FromNode node next := by
  constructor
  · rw [huser]
    exact hscreen.signedIn
  · rw [hdatabase]
    exact hscreen.database
  · rw [hobservers]
    exact hscreen.observers
  · rw [hsymbols]
    exact hscreen.symbolList
  · intro round hround
    rw [hrounds] at hround
    obtain ⟨place, hplace⟩ := List.mem_iff_getElem?.mp hround
    obtain ⟨before, hbefore, hsame⟩ := getElem?_modify_eq_some.mp hplace
    have hsymbols : round.symbols = before.symbols := by
      rw [hsame]
      split
      · exact hchange before
      · rfl
    rw [hsymbols]
    exact hscreen.rounds before (List.mem_of_getElem? hbefore)
  · intro stock hstock
    rw [fetchedFor_modify hrounds hchange]
    exact hlist stock hstock

theorem fetchedFor_ofBatch {number slot : ℕ} {batch : Batch}
    (hinvariant : RoundsInvariant screen)
    (hflight : screen.InFlight number slot) :
    (screen.fetchedFor (.ofBatch number slot batch)).isSome := by
  obtain ⟨round, hround, hslot⟩ := hflight.exists_round
  have hlt : slot < round.symbols.length := by
    rw [← (hinvariant number round hround).slots]
    exact (List.getElem?_eq_some_iff.mp hslot).1
  simp [fetchedFor, FetchedStock.ofBatch, hround, hlt]

theorem FromNode.fireTimer (hscreen : FromNode node screen) :
    FromNode node screen.fireTimer := by
  refine ⟨hscreen.signedIn, hscreen.database, hscreen.observers,
    hscreen.symbolList, ?_, ?_⟩
  · intro round hround
    rcases List.mem_append.mp hround with hold | hnew
    · exact hscreen.rounds round hold
    · rw [List.mem_singleton.mp hnew]
      exact hscreen.symbolList
  · intro stock hstock
    cases hstock

theorem FromNode.step {event : Event} (hscreen : FromNode node screen)
    (hinvariant : RoundsInvariant screen) (hevent : KeepsNode event)
    (hstep : machine.step screen event = some next) :
    FromNode node next := by
  cases effect_of_step hstep with
  | appear observers hobservers =>
      refine ⟨hscreen.signedIn, hscreen.database, ?_, hscreen.symbolList,
        hscreen.rounds, hscreen.watchList⟩
      rcases hobservers with hobservers | hobservers <;>
        rw [hobservers]
      · exact hscreen.observers
      · intro queue hqueue
        rcases List.mem_append.mp hqueue with hold | hnew
        · exact hscreen.observers queue hold
        · rw [List.mem_singleton.mp hnew]
          intro snapShot hsnapShot
          rw [List.mem_singleton.mp hsnapShot, hscreen.database]
  | change database => exact absurd rfl (hevent.1 database)
  | emptySnapshot observers hsnapShot hobservers =>
      subst hobservers
      exact ⟨hscreen.signedIn, hscreen.database, hscreen.tail_observers,
        hscreen.symbolList, hscreen.rounds, hscreen.watchList⟩
  | brokenSnapshot observers hsnapShot hsome hend hobservers
  | fullSnapshot observers hsnapShot hsome hend hobservers =>
      subst hobservers
      refine ⟨hscreen.signedIn, hscreen.database, hscreen.tail_observers, ?_,
        hscreen.rounds, hscreen.watchList⟩
      intro symbol hsymbol
      rw [← hscreen.nextSnapshot_eq hsnapShot]
      exact savedSymbol_of_mem_readSymbols hsymbol
  | tick hlive => exact hscreen.fireTimer
  | batch hflight hbatch =>
      refine hscreen.modify (List.modify_modify_eq _ _ _ _) (fun _ => rfl)
        rfl rfl rfl rfl ?_
      intro stock hstock
      rcases List.mem_append.mp hstock with hold | hnew
      · exact hscreen.watchList stock hold
      · rw [List.mem_singleton.mp hnew]
        exact fetchedFor_ofBatch hinvariant hflight
  | failure hflight herror =>
      exact hscreen.modify rfl (fun _ => rfl) rfl rfl rfl rfl
        hscreen.watchList
  | notify hready =>
      refine hscreen.modify rfl (fun _ => rfl) rfl rfl rfl rfl ?_
      intro stock hstock
      apply hscreen.watchList
      exact (List.perm_insertionSort NameOrder
        screen.watchList).mem_iff.mp hstock
  | disappear | row | rowOutOfRange =>
      exact ⟨hscreen.signedIn, hscreen.database, hscreen.observers,
        hscreen.symbolList, hscreen.rounds, hscreen.watchList⟩
  | deleteSignedOut | deleteOutOfRange | deleteInvalidPath | delete
  | deleteMismatch => exact absurd rfl (hevent.2 _ _)

theorem launched_fromNode (uid : String) (node : DataSnapshot) :
    FromNode node (launched (some uid) node) := by
  constructor <;> simp [launched]

theorem fromNode_run {uid : String} {events : List Event}
    (hkeeps : ∀ event ∈ events, KeepsNode event)
    (hrun : machine.run (launched (some uid) node) events = some screen) :
    FromNode node screen := by
  have hinitial : RoundsInvariant (launched (some uid) node) := by
    intro number round hround
    simp [launched] at hround
  have hboth : RoundsInvariant screen ∧ FromNode node screen :=
    @EventMachine.invariant_run_on _ _ machine
      (fun screen => RoundsInvariant screen ∧ FromNode node screen) KeepsNode
      (fun hscreen hevent hstep =>
        ⟨hscreen.1.step hstep, hscreen.2.step hscreen.1 hevent hstep⟩)
      _ _ _ ⟨hinitial, launched_fromNode uid node⟩ hkeeps hrun
  exact hboth.2

/-- While the node only holds what the Save buttons wrote, every row has been
fetched for the symbol of a record.  Deleting the row removes such a record,
and nothing else, exactly when the table has the rows of the list and the
server's symbol leads to the record; one without a slash that is not itself a
generated key never does. -/
theorem deletesRecord_iff (node : WatchListNode) {uid : String}
    {events : List Event} {row : ℕ} {stock : FetchedStock}
    (hkeeps : ∀ event ∈ events, KeepsNode event)
    (hrun : machine.run (launched (some uid) node.children) events =
      some screen)
    (hup : screen.crash = none)
    (hstock : screen.watchList[row]? = some stock) :
    ∃ symbol, screen.fetchedFor stock = some symbol ∧
      SavedSymbol node.children symbol ∧
      (DeletesRecord row symbol screen ↔
        screen.table.numberOfRows = screen.watchList.length ∧
          NamesRecord node.children symbol stock.stock.id) ∧
      ('/' ∉ stock.stock.id.toList →
        stock.stock.id ∉ Forest.keys node.children →
          ¬ DeletesRecord row symbol screen) := by
  have hnode : FromNode node.children screen := fromNode_run hkeeps hrun
  obtain ⟨symbol, hsymbol⟩ := Option.isSome_iff_exists.mp
    (hnode.watchList stock (List.mem_of_getElem? hstock))
  obtain ⟨round, hround, hslot⟩ := Option.bind_eq_some_iff.mp hsymbol
  have hsaved : SavedSymbol node.children symbol :=
    hnode.rounds round (List.mem_of_getElem? hround) symbol
      (List.mem_of_getElem? hslot)
  have hiff : DeletesRecord row symbol screen ↔
      screen.table.numberOfRows = screen.watchList.length ∧
        NamesRecord node.children symbol stock.stock.id := by
    rw [← hnode.database]
    apply deletesRecord_iff_of_node _ _ hnode.signedIn hup hstock
    · rw [hnode.database]
      exact node.distinct
    · rw [hnode.database]
      intro child hchild
      exact isRecord_of_saved (node.saved child hchild)
  refine ⟨symbol, hsymbol, hsaved, hiff, fun hslash hkey hlaw => ?_⟩
  exact not_namesRecord_of_noSlash hslash hkey (hiff.mp hlaw).2

def appleNode : WatchListNode where
  children := oneRecord "AAPL" "Apple Inc"
  distinct := by decide
  autoIds := by decide
  saved := by
    intro child hchild
    rw [List.mem_singleton.mp hchild]
    exact .inr ⟨_, rfl⟩

theorem deletesRecord_when_symbol_is_key :
    ∃ screen,
      machine.run (launched (some "uid") appleNode.children)
        [.viewWillAppear, .snapshot 0, .timerTick 0,
          .response 0 0 (.decoded (.named "-M000000000000000000" "Apple Inc")),
          .notification 0] = some screen ∧
        DeletesRecord 0 "AAPL" screen := by
  obtain ⟨screen, hrun, hview⟩ := Option.map_eq_some_iff.mp
    (show (machine.run (launched (some "uid") appleNode.children)
        [.viewWillAppear, .snapshot 0, .timerTick 0,
          .response 0 0 (.decoded (.named "-M000000000000000000" "Apple Inc")),
          .notification 0]).map
            (fun screen => (decide (screen.crash = none), screen.watchList,
              screen.table.numberOfRows,
              screen.watchList.map fun stock => screen.fetchedFor stock)) =
        some (true,
          [.ofBatch 0 0 (.named "-M000000000000000000" "Apple Inc")], 1,
          [some "AAPL"]) by decide)
  simp only [Prod.mk.injEq, decide_eq_true_eq] at hview
  obtain ⟨hup, hlist, hrows, hfetched⟩ := hview
  rw [hlist, List.map_singleton, List.singleton_inj] at hfetched
  have hstock : screen.watchList[0]? =
      some (.ofBatch 0 0 (.named "-M000000000000000000" "Apple Inc")) := by
    rw [hlist]
    rfl
  obtain ⟨symbol, hsymbol, -, hiff, -⟩ :=
    deletesRecord_iff appleNode (by simp [KeepsNode, NoRowDelete]) hrun hup
      hstock
  rw [hfetched, Option.some.injEq] at hsymbol
  subst hsymbol
  refine ⟨screen, hrun, hiff.mpr ⟨by rw [hrows, hlist]; rfl, ?_⟩⟩
  exact ⟨"-M000000000000000000", _, ["-M000000000000000000"], rfl, rfl,
    by decide, .inl rfl⟩

theorem not_deletesRecord_apple :
    ∃ screen stock,
      machine.run (launched (some "uid") appleNode.children)
        [.viewWillAppear, .snapshot 0, .timerTick 0,
          .response 0 0 (.decoded (.named "AAPL" "Apple Inc")),
          .notification 0] = some screen ∧
        screen.crash = none ∧ screen.watchList[0]? = some stock ∧
        screen.fetchedFor stock = some "AAPL" ∧
        ¬ DeletesRecord 0 "AAPL" screen := by
  obtain ⟨screen, hrun, hview⟩ := Option.map_eq_some_iff.mp
    (show (machine.run (launched (some "uid") appleNode.children)
        [.viewWillAppear, .snapshot 0, .timerTick 0,
          .response 0 0 (.decoded (.named "AAPL" "Apple Inc")),
          .notification 0]).map
            (fun screen => (decide (screen.crash = none),
              screen.watchList[0]?.map fun stock => screen.fetchedFor stock,
              Forest.keys screen.database,
              Forest.keys (screen.commitDelete 0 none).database)) =
        some (true, some (some "AAPL"), ["-M000000000000000000"],
          ["-M000000000000000000"]) by decide)
  simp only [Prod.mk.injEq, decide_eq_true_eq] at hview
  obtain ⟨hup, hfirst, hbefore, hafter⟩ := hview
  obtain ⟨stock, hstock, hfetched⟩ := Option.map_eq_some_iff.mp hfirst
  refine ⟨screen, stock, hrun, hup, hstock, hfetched, fun hlaw => ?_⟩
  obtain ⟨key, record, hlookup, -, hdatabase⟩ := (hlaw none).2 rfl
  have hkey : key ∈ Forest.keys screen.database := by
    rw [← Forest.isSome_lookup_iff, hlookup]
    rfl
  rw [hbefore, ← hafter, hdatabase, ← Forest.isSome_lookup_iff,
    Forest.lookup_erase, if_pos rfl] at hkey
  contradiction

end ProfileTableViewController
end Stockly
