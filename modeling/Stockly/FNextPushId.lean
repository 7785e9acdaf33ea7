import Stockly.FUtilities

/-!
# Automatic child names

A child which is added under an automatic name gets eight characters of the
time and twelve random ones; within one millisecond the random ones are
counted up instead.  The alphabet ascends, so the names of one run ascend in
the order of keys, and the children are read in the order in which they were
added, unless the twelve characters are full when they are counted up.
-/

universe v

namespace FirebaseDatabase

open FUtilities

/-- The characters of `-0123456789ABC…XYZ_abc…xyz`. -/
def PUSH_CHARS : NSString :=
  45 :: (List.range 10).map (fun i => UInt16.ofNat (48 + i)) ++
    (List.range 26).map (fun i => UInt16.ofNat (65 + i)) ++
    95 :: (List.range 26).map fun i => UInt16.ofNat (97 + i)

theorem length_PUSH_CHARS : PUSH_CHARS.length = 64 := rfl

/-- `[PUSH_CHARS characterAtIndex:index]` -/
def pushChar (index : Fin 64) : unichar :=
  PUSH_CHARS.get (index.cast length_PUSH_CHARS.symm)

/-- The static variables. -/
structure FNextPushId where
  lastPushTime : ℕ
  lastRandChars : List (Fin 64)
  size : lastRandChars.length = 12

namespace FNextPushId

def initial : FNextPushId := ⟨0, List.replicate 12 0, rfl⟩

/-- The indices of the last `count` digits of `now`, the last one last. -/
def timeStampChars : ℕ → ℕ → List (Fin 64)
  | 0, _ => []
  | count + 1, now =>
      timeStampChars count (now / 64) ++ [⟨now % 64, Nat.mod_lt _ (by decide)⟩]

/-- The loop from the last character on, and whether it is still running when
it has passed the characters.  It then increments what lies in front of the
array, which is not modelled. -/
def carry : List (Fin 64) → List (Fin 64) × Bool
  | [] => ([], true)
  | c :: rest =>
      match carry rest with
      | (rest, false) => (c :: rest, false)
      | (rest, true) =>
          if c = 63 then (0 :: rest, true) else ((c + 1) :: rest, false)

theorem length_carry (chars : List (Fin 64)) :
    (carry chars).1.length = chars.length := by
  induction chars with
  | nil => rfl
  | cons c rest ih =>
      unfold carry
      split
      next new hrest => simpa [hrest] using ih
      next new hrest =>
        split
        · simpa [hrest] using ih
        · simpa [hrest] using ih

/-- The name, and the variables afterwards. -/
def get (state : FNextPushId) (now : ℕ) (random : Fin 12 → Fin 64) :
    NSString × FNextPushId :=
  let timeStamp := (timeStampChars 8 now).map pushChar
  if now = state.lastPushTime then
    let chars := (carry state.lastRandChars).1
    (timeStamp ++ chars.map pushChar,
      ⟨now, chars, (length_carry state.lastRandChars).trans state.size⟩)
  else
    (timeStamp ++ (List.ofFn random).map pushChar,
      ⟨now, List.ofFn random, List.length_ofFn⟩)

/-- The names of successive calls. -/
def run (state : FNextPushId) : List (ℕ × (Fin 12 → Fin 64)) → List NSString
  | [] => []
  | (now, random) :: calls =>
      (state.get now random).1 :: (state.get now random).2.run calls

/-- The name which was made last. -/
def name (state : FNextPushId) : NSString :=
  (timeStampChars 8 state.lastPushTime ++ state.lastRandChars).map pushChar

end FNextPushId

end FirebaseDatabase
