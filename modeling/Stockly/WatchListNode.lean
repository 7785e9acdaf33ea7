import Stockly.Collection
import Stockly.KeyTree
import Mathlib.Tactic

/-!
# The watch-list node of the database

The children of `users/<uid>/WatchList` are the records which the two Save
buttons write under generated keys.  Reading a snapshot of the node keeps only
the symbols; deleting names a child by a path string.
-/

namespace Stockly

open KeyTree

inductive Scalar where
  | string (text : String)
  | number (value : Double)
  | boolean (value : Bool)
deriving DecidableEq, Repr

abbrev DataSnapshot := KeyTree.Forest Scalar

/-! ## Records -/

/-- The five fields which both Save buttons write, in key order. -/
def savedObject (quote : Quote) (key : String) : KeyTree Scalar :=
  .branch [
    ("id", .leaf (.string key)),
    ("stock name", .leaf (.string quote.companyName)),
    ("stock percent",
      .leaf (.string (quote.changePercent.getD .zero).description)),
    ("stock price",
      .leaf (.string (quote.latestPrice.getD .zero).description)),
    ("stock symbol", .leaf (.string quote.symbol))]

def HomeStockDetialViewController.object (stock : Batch) (key : String) :
    KeyTree Scalar :=
  savedObject stock.quote key

def ResultsViewController.object (quote : Quote) (key : String) :
    KeyTree Scalar :=
  savedObject quote key

/-- `child["stock symbol"] as? String`, where the child may be anything. -/
def stockSymbol : KeyTree Scalar → Option String
  | .leaf _ => none
  | .branch entries =>
      match entries.lookup "stock symbol" with
      | some (.leaf (.string symbol)) => some symbol
      | _ => none

def pushCharacters : List Char :=
  "-0123456789ABCDEFGHIJKLMNOPQRSTUVWXYZ_abcdefghijklmnopqrstuvwxyz".toList

def IsAutoId (key : String) : Prop :=
  key.toList.length = 20 ∧ key.toList.all pushCharacters.contains = true

instance (key : String) : Decidable (IsAutoId key) :=
  inferInstanceAs (Decidable (_ ∧ _))

def SavedUnder (key : String) (record : KeyTree Scalar) : Prop :=
  (∃ stock, record = HomeStockDetialViewController.object stock key) ∨
    ∃ quote, record = ResultsViewController.object quote key

theorem SavedUnder.exists_quote {key : String} {record : KeyTree Scalar}
    (hsaved : SavedUnder key record) :
    ∃ quote, record = savedObject quote key := by
  rcases hsaved with ⟨stock, hrecord⟩ | ⟨quote, hrecord⟩
  · exact ⟨stock.quote, hrecord⟩
  · exact ⟨quote, hrecord⟩

/-- A watch-list node which only the Save buttons have written. -/
structure WatchListNode where
  children : DataSnapshot
  distinct : children.keys.Nodup
  autoIds : ∀ child ∈ children, IsAutoId child.1
  saved : ∀ child ∈ children, SavedUnder child.1 child.2

/-! ## Paths -/

/-- `FValidation.isValidPathString`. -/
def isValidPathString (pathString : String) : Bool :=
  pathString ≠ "" &&
    pathString.toList.all fun letter =>
      !(['[', ']', '.', '#', '$'].contains letter)

/-- `FPath.initWith`: the non-empty pieces between the slashes. -/
def pathPieces (pathString : String) : List String :=
  ((pathString.toList.splitOn '/').filter fun piece => piece ≠ []).map
    String.ofList

/-- `DatabaseReference.child`, relative to a reference below the root;
`none` is the exception it raises. -/
def childPath (pathString : String) : Option (List String) :=
  if isValidPathString pathString then some (pathPieces pathString) else none

theorem pathPieces_of_noSlash {pathString : String}
    (hnonempty : pathString ≠ "") (hslash : '/' ∉ pathString.toList) :
    pathPieces pathString = [pathString] := by
  have hlist : pathString.toList ≠ [] := by
    intro hnil
    exact hnonempty (String.toList_inj.mp (by simpa using hnil))
  have hsplit : pathString.toList.splitOn '/' = [pathString.toList] :=
    List.splitOn_eq_singleton hslash
  simp [pathPieces, hsplit, hlist]

end Stockly
