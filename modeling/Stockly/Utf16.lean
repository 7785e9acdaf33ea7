import Mathlib.Data.UInt
import Mathlib.Data.List.Basic

/-!
# UTF-16 texts

A text of UTF-16 units is well formed if its surrogates come in pairs.  It can
be read from left to right with one bit of memory, whether a high surrogate
waits for its low one, so that the parts of a well-formed text are well formed
exactly when no part ends in a high surrogate.
-/

namespace Utf16

def isHigh (unit : UInt16) : Bool := 0xD800 ≤ unit && unit ≤ 0xDBFF

def isLow (unit : UInt16) : Bool := 0xDC00 ≤ unit && unit ≤ 0xDFFF

/-- One unit is read while a high surrogate may be pending. -/
def next (pending : Bool) (unit : UInt16) : Option Bool :=
  if pending then if isLow unit then some false else none
  else if isLow unit then none
  else some (isHigh unit)

def wellFormed (text : List UInt16) : Bool :=
  text.foldlM next false = some false

def endsHigh (text : List UInt16) : Bool := text.getLast?.any isHigh

theorem isHigh_of_isLow {unit : UInt16} (hlow : isLow unit = true) :
    isHigh unit = false := by
  simp only [isLow, isHigh, Bool.and_eq_true, decide_eq_true_eq,
    Bool.and_eq_false_iff, decide_eq_false_iff_not,
    UInt16.le_iff_toNat_le, UInt16.reduceToNat] at hlow ⊢
  omega

theorem notSurrogate_of_lt {unit : UInt16} (hunit : unit < 0xD800) :
    isHigh unit = false ∧ isLow unit = false := by
  simp only [isLow, isHigh, Bool.and_eq_false_iff, decide_eq_false_iff_not,
    UInt16.le_iff_toNat_le, UInt16.lt_iff_toNat_lt,
    UInt16.reduceToNat] at hunit ⊢
  omega

theorem next_eq {pending later : Bool} {unit : UInt16}
    (hnext : next pending unit = some later) : later = isHigh unit := by
  unfold next at hnext
  split at hnext
  next =>
    split at hnext
    next hlow =>
      rw [isHigh_of_isLow hlow]
      exact (Option.some.inj hnext).symm
    next => contradiction
  next =>
    split at hnext
    next => contradiction
    next => exact (Option.some.inj hnext).symm

/-- What is pending after a text is whether it ends in a high surrogate. -/
theorem foldlM_next {text : List UInt16} (hnonempty : text ≠ [])
    {pending later : Bool} (hread : text.foldlM next pending = some later) :
    later = endsHigh text := by
  induction text using List.reverseRecOn with
  | nil => contradiction
  | append_singleton text unit ih =>
      rw [List.foldlM_append, Option.bind_eq_bind,
        Option.bind_eq_some_iff] at hread
      obtain ⟨middle, -, hlast⟩ := hread
      have hnext : next middle unit = some later := by simpa using hlast
      rw [next_eq hnext]
      simp [endsHigh]

theorem wellFormed_iff {text : List UInt16} :
    wellFormed text = true ↔ text.foldlM next false = some false := by
  simp [wellFormed]

theorem endsHigh_of_wellFormed {text : List UInt16}
    (htext : wellFormed text = true) : endsHigh text = false := by
  by_cases hnonempty : text = []
  · rw [hnonempty]
    rfl
  · exact (foldlM_next hnonempty (wellFormed_iff.mp htext)).symm

theorem wellFormed_append {first second : List UInt16}
    (hfirst : wellFormed first = true) :
    wellFormed (first ++ second) = wellFormed second := by
  unfold wellFormed
  rw [List.foldlM_append, wellFormed_iff.mp hfirst]
  rfl

theorem wellFormed_of_append {first second : List UInt16}
    (hboth : wellFormed (first ++ second) = true)
    (hends : endsHigh first = false) : wellFormed first = true := by
  rw [wellFormed_iff, List.foldlM_append, Option.bind_eq_bind,
    Option.bind_eq_some_iff] at hboth
  obtain ⟨middle, hmiddle, -⟩ := hboth
  rw [wellFormed_iff]
  by_cases hnonempty : first = []
  · rw [hnonempty]
    rfl
  · rw [hmiddle, foldlM_next hnonempty hmiddle, hends]

/-- The parts of a well-formed text are well formed exactly when none of them
is cut behind a high surrogate. -/
theorem wellFormed_parts_iff {parts : List (List UInt16)}
    (hwhole : wellFormed parts.flatten = true) :
    (∀ part ∈ parts, wellFormed part = true) ↔
      ∀ part ∈ parts, endsHigh part = false := by
  constructor
  · exact fun hparts part hpart => endsHigh_of_wellFormed (hparts part hpart)
  · intro hends
    induction parts with
    | nil => simp
    | cons first parts ih =>
        rw [List.flatten_cons] at hwhole
        have hfirst := wellFormed_of_append hwhole
          (hends first List.mem_cons_self)
        rw [wellFormed_append hfirst] at hwhole
        intro part hpart
        rcases List.mem_cons.mp hpart with rfl | hrest
        · exact hfirst
        · exact ih hwhole (fun other hother =>
            hends other (List.mem_cons_of_mem first hother)) part hrest

theorem wellFormed_of_plain {text : List UInt16}
    (hplain : ∀ unit ∈ text, unit < 0xD800) : wellFormed text = true := by
  rw [wellFormed_iff]
  induction text with
  | nil => rfl
  | cons unit text ih =>
      have hunit := hplain unit List.mem_cons_self
      obtain ⟨hhigh, hlow⟩ := notSurrogate_of_lt hunit
      have hnext : next false unit = some false := by
        simp [next, hhigh, hlow]
      rw [List.foldlM_cons, hnext]
      exact ih fun other hother => hplain other (List.mem_cons_of_mem _ hother)

end Utf16
