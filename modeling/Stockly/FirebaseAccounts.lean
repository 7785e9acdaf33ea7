import Stockly.KeyTreePaths
import Stockly.WatchListNode

/-!
# Users and their nodes in the database

Every user has the node `users/<uid>` with a profile and the watch list.  A
uid is one piece of a path, so the references which the screens build in two
ways lead to the same place.
-/

namespace Stockly

open KeyTree

structure Uid where
  text : String
  piece : isValidPathString text = true ∧ '/' ∉ text.toList
deriving DecidableEq, Repr

structure FirebaseUser where
  uid : Uid
  displayName : Option String
  email : Option String
deriving DecidableEq, Repr

abbrev Database := Forest Scalar

namespace Uid

def userPath (uid : Uid) : List String := ["users", uid.text]

def watchListPath (uid : Uid) : List String :=
  ["users", uid.text, "WatchList"]

def recordPath (uid : Uid) (key : String) : List String :=
  ["users", uid.text, "WatchList", key]

def fieldPath (uid : Uid) (field : String) : List String :=
  ["users", uid.text, field]

theorem userPath_ne_nil (uid : Uid) : uid.userPath ≠ [] :=
  List.cons_ne_nil _ _

theorem recordPath_ne_nil (uid : Uid) (key : String) :
    uid.recordPath key ≠ [] :=
  List.cons_ne_nil _ _

theorem childPath_text (uid : Uid) : childPath uid.text = some [uid.text] := by
  have hnonempty : uid.text ≠ "" := by
    intro hempty
    have hvalid := uid.piece.1
    rw [hempty] at hvalid
    contradiction
  rw [childPath, if_pos uid.piece.1,
    pathPieces_of_noSlash hnonempty uid.piece.2]

/-- `child("users/\(uid)")` leads to the same node. -/
theorem childPath_users (uid : Uid) :
    childPath ("users/" ++ uid.text) = some uid.userPath := by
  have hvalid := uid.piece.1
  simp only [isValidPathString, Bool.and_eq_true, decide_eq_true_eq] at hvalid
  rcases hvalid with ⟨hnonempty, hletters⟩
  have hlist : uid.text.toList ≠ [] := by
    intro hnil
    exact hnonempty (String.toList_inj.mp (by simpa using hnil))
  have hpath : isValidPathString ("users/" ++ uid.text) = true := by
    simp only [isValidPathString, Bool.and_eq_true, decide_eq_true_eq,
      String.toList_append, List.all_append]
    refine ⟨?_, by decide, hletters⟩
    intro hempty
    have hslash := congrArg String.toList hempty
    simp at hslash
  have hsplit : ("users/" ++ uid.text).toList.splitOn '/' =
      ["users".toList, uid.text.toList] := by
    have happend : ("users/" ++ uid.text).toList =
        "users".toList ++ '/' :: uid.text.toList := by simp
    rw [happend, List.splitOn_append_cons_self_of_not_mem (by decide),
      List.splitOn_eq_singleton uid.piece.2]
  rw [childPath, if_pos hpath, pathPieces, hsplit]
  simp [hlist, userPath]

theorem text_injective {first second : Uid}
    (htext : first.text = second.text) : first = second := by
  cases first
  cases second
  simpa using htext

theorem apart_of_ne {first second : Uid} (hne : first ≠ second)
    (path other : List String) :
    Forest.Apart (first.userPath ++ path) (second.userPath ++ other) := by
  have htext : first.text ≠ second.text := by
    intro htext
    exact hne (text_injective htext)
  have hbelow :
      Forest.Apart (first.text :: path) (second.text :: other) :=
    Forest.apart_cons_iff.mpr (Or.inl htext)
  exact Forest.apart_cons_iff.mpr (Or.inr hbelow)

theorem apart_of_field_ne (uid : Uid) {field other : String}
    (hne : field ≠ other) (path further : List String) :
    Forest.Apart (uid.fieldPath field ++ path)
      (uid.fieldPath other ++ further) := by
  have hbelow : Forest.Apart (field :: path) (other :: further) :=
    Forest.apart_cons_iff.mpr (Or.inl hne)
  have huser := Forest.apart_cons_iff.mpr
    (Or.inr hbelow : uid.text ≠ uid.text ∨ _)
  exact Forest.apart_cons_iff.mpr (Or.inr huser)

theorem fieldPath_apart_recordPath (uid other : Uid) {field : String}
    (hfield : field ≠ "WatchList") (key : String) :
    Forest.Apart (uid.fieldPath field) (other.recordPath key) := by
  by_cases hsame : uid = other
  · subst hsame
    have hapart := uid.apart_of_field_ne hfield [] [key]
    rw [List.append_nil] at hapart
    exact hapart
  · exact apart_of_ne hsame [field] ["WatchList", key]

end Uid

/-! ## Profiles -/

structure ProfileWrite where
  uid : Uid
  name : String
  email : String
deriving DecidableEq, Repr

/-- The dictionary which `SignUpViewController` writes, in key order. -/
def dictionaryValues (name email : String) : Forest Scalar :=
  [("email", .leaf (.string email)), ("name", .leaf (.string name))]

/-- `setValue` replaces the whole node. -/
def setProfile (write : ProfileWrite) (database : Database) : Database :=
  database.put (.branch (dictionaryValues write.name write.email))
    write.uid.userPath

/-- `updateChildValues` writes the named children only. -/
def updateProfile (write : ProfileWrite) (database : Database) : Database :=
  (database.put (.leaf (.string write.name)) (write.uid.fieldPath "name")).put
    (.leaf (.string write.email)) (write.uid.fieldPath "email")

/-! ## What a profile write leaves alone -/

theorem find_setProfile_of_apart {write : ProfileWrite} {path : List String}
    (hapart : Forest.Apart write.uid.userPath path) (database : Database) :
    (setProfile write database).find path = database.find path :=
  Forest.find_put_of_apart _ hapart database

theorem find_setProfile_field {write : ProfileWrite} {field : String}
    (hname : field ≠ "name") (hemail : field ≠ "email")
    (further : List String) (database : Database) :
    (setProfile write database).find
      (write.uid.fieldPath field ++ further) = none := by
  have hfield : Forest.find [field]
      (dictionaryValues write.name write.email) = none := by
    apply List.lookup_eq_none_iff.mpr
    simp [dictionaryValues, hname, hemail]
  calc
    (setProfile write database).find (write.uid.fieldPath field ++ further) =
        Forest.find ([field] ++ further)
          (dictionaryValues write.name write.email) :=
      Forest.find_put_below _ write.uid.userPath_ne_nil field further database
    _ = none := Forest.find_append_of_none (by simp) further hfield

theorem find_updateProfile_of_apart {write : ProfileWrite}
    {path : List String}
    (hname : Forest.Apart (write.uid.fieldPath "name") path)
    (hemail : Forest.Apart (write.uid.fieldPath "email") path)
    (database : Database) :
    (updateProfile write database).find path = database.find path := by
  unfold updateProfile
  rw [Forest.find_put_of_apart _ hemail, Forest.find_put_of_apart _ hname]

end Stockly
