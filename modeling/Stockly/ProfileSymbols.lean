import Stockly.ProfileTimer

/-!
# The symbols read from the watch-list node

The observer of `addStockToArray` should leave in `symbolList` the symbols of
the latest snapshot.  It clears the list only when the node has children, and
it leaves the closure at the first child without a symbol.
-/

namespace Stockly
namespace ProfileTableViewController

/-- The symbols of the well-formed children, in order. -/
def wellFormedSymbols (snapShot : DataSnapshot) : List String :=
  snapShot.filterMap fun child => stockSymbol child.2

/-- After a delivery the list holds the symbols of the snapshot. -/
def SymbolsOfLatest (screen : ProfileTableViewController) (event : Event)
    (next : ProfileTableViewController) : Prop :=
  ∀ observer, event = .snapshot observer →
    ∀ snapShot, screen.nextSnapshot observer = some snapShot →
      next.symbolList = wellFormedSymbols snapShot

/-- No child with a symbol comes after a child without one. -/
def BrokenChildrenLast (snapShot : DataSnapshot) : Prop :=
  snapShot.Pairwise fun earlier later =>
    stockSymbol earlier.2 = none → stockSymbol later.2 = none

/-- Children without a symbol come last, and an empty snapshot is delivered
only while the list is empty. -/
def SymbolGuard (screen : ProfileTableViewController) (event : Event)
    (_ : ProfileTableViewController) : Prop :=
  ∀ observer, event = .snapshot observer →
    ∀ snapShot, screen.nextSnapshot observer = some snapShot →
      BrokenChildrenLast snapShot ∧
        (snapShot = [] → screen.symbolList = [])

theorem wellFormedSymbols_eq_nil_iff {snapShot : DataSnapshot} :
    wellFormedSymbols snapShot = [] ↔
      ∀ child ∈ snapShot, stockSymbol child.2 = none := by
  simp only [wellFormedSymbols, List.filterMap_eq_nil_iff]

theorem readSymbols_eq_wellFormedSymbols_iff (snapShot : DataSnapshot) :
    (readSymbols snapShot).1 = wellFormedSymbols snapShot ↔
      BrokenChildrenLast snapShot := by
  unfold BrokenChildrenLast
  induction snapShot with
  | nil => simp [readSymbols, wellFormedSymbols]
  | cons child children ih =>
      rw [List.pairwise_cons]
      cases hsymbol : stockSymbol child.2 with
      | none =>
          have hread : (readSymbols (child :: children)).1 = [] := by
            simp [readSymbols, hsymbol]
          have hsymbols : wellFormedSymbols (child :: children) =
              wellFormedSymbols children := by
            simp [wellFormedSymbols, hsymbol]
          rw [hread, hsymbols, eq_comm, wellFormedSymbols_eq_nil_iff]
          constructor
          · intro hnone
            refine ⟨fun later hlater _ => hnone later hlater, ?_⟩
            exact List.pairwise_of_forall_mem_list
              fun _ _ later hlater _ => hnone later hlater
          · intro hlast later hlater
            exact hlast.1 later hlater rfl
      | some symbol =>
          have hread : (readSymbols (child :: children)).1 =
              symbol :: (readSymbols children).1 := by
            simp [readSymbols, hsymbol]
          have hsymbols : wellFormedSymbols (child :: children) =
              symbol :: wellFormedSymbols children := by
            simp [wellFormedSymbols, hsymbol]
          rw [hread, hsymbols, List.cons.injEq, ih]
          simp

theorem symbolsOfLatest_iff_of_step
    {screen next : ProfileTableViewController} {event : Event}
    (hstep : machine.step screen event = some next) :
    SymbolsOfLatest screen event next ↔ SymbolGuard screen event next := by
  -- only a delivery is concerned
  unfold SymbolsOfLatest SymbolGuard
  refine forall_congr' fun observer => forall_congr' fun hevent => ?_
  subst hevent
  refine forall_congr' fun snapShot => forall_congr' fun hsnapShot => ?_
  cases effect_of_step hstep with
  | emptySnapshot observers hempty =>
      have hnil : snapShot = [] := by
        rw [hempty] at hsnapShot
        exact (Option.some.inj hsnapShot).symm
      subst hnil
      simp [wellFormedSymbols, BrokenChildrenLast]
  | brokenSnapshot observers hbroken hsome =>
      have hsame := Option.some.inj (hbroken.symm.trans hsnapShot)
      subst hsame
      rw [readSymbols_eq_wellFormedSymbols_iff]
      simp [hsome]
  | fullSnapshot observers hfull hsome =>
      have hsame := Option.some.inj (hfull.symm.trans hsnapShot)
      subst hsame
      rw [show (updateStockData
          { screen with
            symbolList := (readSymbols _).1, observers := observers }).symbolList =
          (readSymbols _).1 from rfl,
        readSymbols_eq_wellFormedSymbols_iff]
      simp [hsome]

theorem symbolsOfLatest_iff (currentUser : Option String)
    (database : DataSnapshot) (events : List Event) :
    machine.AllSteps SymbolsOfLatest
        (launched currentUser database) events ↔
      machine.AllSteps SymbolGuard
        (launched currentUser database) events :=
  EventMachine.allSteps_congr symbolsOfLatest_iff_of_step
    (launched currentUser database) events

theorem not_symbolsOfLatest_after_last_delete :
    ¬ machine.AllSteps SymbolsOfLatest
        (launched (some "uid") (oneRecord "AAPL" "Apple Inc"))
        [.viewWillAppear, .snapshot 0, .databaseChange [], .snapshot 0] := by
  intro hall
  obtain ⟨middle, hrun, hmiddle⟩ := Option.map_eq_some_iff.mp
    (show (machine.run
        (launched (some "uid") (oneRecord "AAPL" "Apple Inc"))
        [.viewWillAppear, .snapshot 0, .databaseChange []]).map
          (fun screen =>
            ((screen.nextSnapshot 0).map List.isEmpty, screen.symbolList,
              decide (screen.crash = none))) =
        some (some true, ["AAPL"], true) by decide)
  simp only [Prod.mk.injEq, Option.map_eq_some_iff, List.isEmpty_iff,
    exists_eq_right, decide_eq_true_eq] at hmiddle
  obtain ⟨hempty, hsymbols, hcrash⟩ := hmiddle
  have hstep : machine.step middle (.snapshot 0) =
      some (observe []
        { middle with
          observers := middle.observers.modify 0 List.tail }) :=
    machine_step_eq_some.mpr ⟨hcrash, by simp [handle, hempty]⟩
  have hlast := hall.last [.viewWillAppear, .snapshot 0, .databaseChange []]
    hrun hstep 0 rfl [] hempty
  simp [observe, hsymbols, wellFormedSymbols] at hlast

end ProfileTableViewController
end Stockly
