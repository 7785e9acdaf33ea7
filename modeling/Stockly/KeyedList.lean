import Mathlib.Data.List.Nodup
import Mathlib.Data.List.Lookmap
import Mathlib.Tactic

/-!
# Keyed lists

An association list with at most one entry for a key.  The order of the
entries carries no meaning: a new entry is put in front.
-/

universe u v

namespace KeyedList

variable {κ : Type u} {β : Type v} [DecidableEq κ]

def erase (key : κ) (entries : List (κ × β)) : List (κ × β) :=
  entries.filter fun entry => entry.1 ≠ key

def insert (key : κ) (value : β) (entries : List (κ × β)) : List (κ × β) :=
  (key, value) :: erase key entries

def Distinct (entries : List (κ × β)) : Prop :=
  (entries.map Prod.fst).Nodup

@[simp] theorem lookup_cons_entry (key other : κ) (value : β)
    (entries : List (κ × β)) :
    ((key, value) :: entries).lookup other =
      if other = key then some value else entries.lookup other := by
  by_cases hkey : other = key
  · simp [hkey]
  · have hbeq : (other == key) = false := by simpa using hkey
    simp [List.lookup_cons, hbeq, hkey]

@[simp] theorem lookup_erase (key other : κ) (entries : List (κ × β)) :
    (erase key entries).lookup other =
      if other = key then none else entries.lookup other := by
  induction entries with
  | nil => simp [erase]
  | cons entry entries ih =>
      obtain ⟨name, value⟩ := entry
      unfold erase at ih ⊢
      rw [List.filter_cons]
      by_cases hname : name = key
      · subst name
        by_cases hother : other = key
        · simpa [hother] using ih
        · simpa [hother] using ih
      · by_cases hhere : other = name
        · subst other
          simp [hname]
        · simpa [hname, hhere] using ih

@[simp] theorem lookup_insert (key other : κ) (value : β)
    (entries : List (κ × β)) :
    (insert key value entries).lookup other =
      if other = key then some value else entries.lookup other := by
  unfold insert
  by_cases hother : other = key
  · simp [hother]
  · simp [hother]

theorem mem_erase {key : κ} {entry : κ × β} {entries : List (κ × β)} :
    entry ∈ erase key entries ↔ entry ∈ entries ∧ entry.1 ≠ key := by
  simp [erase]

theorem mem_of_lookup {key : κ} {value : β} {entries : List (κ × β)}
    (hlookup : entries.lookup key = some value) : (key, value) ∈ entries := by
  obtain ⟨before, after, hsplit, -⟩ := List.lookup_eq_some_iff.mp hlookup
  rw [hsplit]
  simp

theorem lookup_of_mem {key : κ} {value : β} {entries : List (κ × β)}
    (hdistinct : Distinct entries) (hmem : (key, value) ∈ entries) :
    entries.lookup key = some value := by
  induction entries with
  | nil => contradiction
  | cons entry entries ih =>
      obtain ⟨name, first⟩ := entry
      unfold Distinct at hdistinct ih
      rw [List.map_cons, List.nodup_cons] at hdistinct
      rw [lookup_cons_entry]
      rcases List.mem_cons.mp hmem with heq | hrest
      · cases heq
        simp
      · have hne : key ≠ name := by
          rintro rfl
          exact hdistinct.1 (List.mem_map.mpr ⟨(key, value), hrest, rfl⟩)
        rw [if_neg hne]
        exact ih hdistinct.2 hrest

theorem lookup_eq_none_iff {key : κ} {entries : List (κ × β)} :
    entries.lookup key = none ↔ ∀ entry ∈ entries, entry.1 ≠ key := by
  rw [List.lookup_eq_none_iff]
  constructor
  · intro hnone entry hentry hkey
    exact bne_iff_ne.mp (hnone entry hentry) hkey.symm
  · intro hne entry hentry
    exact bne_iff_ne.mpr (hne entry hentry).symm

omit [DecidableEq κ] in
theorem Distinct.tail {entry : κ × β} {entries : List (κ × β)}
    (hdistinct : Distinct (entry :: entries)) : Distinct entries := by
  unfold Distinct at hdistinct ⊢
  rw [List.map_cons] at hdistinct
  exact hdistinct.of_cons

theorem Distinct.lookup_tail {entry : κ × β} {entries : List (κ × β)}
    (hdistinct : Distinct (entry :: entries)) :
    entries.lookup entry.1 = none := by
  rw [lookup_eq_none_iff]
  intro other hother hkey
  unfold Distinct at hdistinct
  rw [List.map_cons, List.nodup_cons] at hdistinct
  apply hdistinct.1
  rw [← hkey]
  exact List.mem_map_of_mem hother

theorem Distinct.erase {entries : List (κ × β)}
    (hdistinct : Distinct entries) (key : κ) :
    Distinct (erase key entries) :=
  List.Nodup.sublist (List.Sublist.map _ List.filter_sublist) hdistinct

theorem Distinct.insert {entries : List (κ × β)}
    (hdistinct : Distinct entries) (key : κ) (value : β) :
    Distinct (insert key value entries) := by
  unfold Distinct KeyedList.insert
  rw [List.map_cons, List.nodup_cons]
  constructor
  · intro hmem
    obtain ⟨entry, hentry, hkey⟩ := List.mem_map.mp hmem
    exact (mem_erase.mp hentry).2 hkey
  · exact hdistinct.erase key

theorem erase_of_notMem {key : κ} {entries : List (κ × β)}
    (hnotMem : key ∉ entries.map Prod.fst) : erase key entries = entries := by
  unfold erase
  rw [List.filter_eq_self]
  intro entry hentry
  have hne : entry.1 ≠ key := by
    rintro rfl
    exact hnotMem (List.mem_map_of_mem hentry)
  simpa using hne

/-- An entry which is found stands alone under its key. -/
theorem Distinct.split {key : κ} {value : β} {entries : List (κ × β)}
    (hdistinct : Distinct entries)
    (hlookup : entries.lookup key = some value) :
    ∃ before after, entries = before ++ (key, value) :: after ∧
      KeyedList.erase key entries = before ++ after ∧
        key ∉ before.map Prod.fst ∧ key ∉ after.map Prod.fst := by
  obtain ⟨before, after, rfl⟩ := List.append_of_mem (mem_of_lookup hlookup)
  unfold Distinct at hdistinct
  rw [List.map_append, List.map_cons, List.nodup_middle, List.nodup_cons,
    List.mem_append, not_or] at hdistinct
  obtain ⟨⟨hbefore, hafter⟩, -⟩ := hdistinct
  refine ⟨before, after, rfl, ?_, hbefore, hafter⟩
  have herase : KeyedList.erase key ((key, value) :: after) =
      KeyedList.erase key after := by
    simp [KeyedList.erase]
  calc
    KeyedList.erase key (before ++ (key, value) :: after) =
        KeyedList.erase key before ++
          KeyedList.erase key ((key, value) :: after) :=
      List.filter_append before ((key, value) :: after)
    _ = before ++ after := by
      rw [herase, erase_of_notMem hbefore, erase_of_notMem hafter]

end KeyedList
