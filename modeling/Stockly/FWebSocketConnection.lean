import Stockly.FUtilities
import Stockly.Utf16

/-!
# The frames of the socket

A message is cut into segments which fit a frame, and a frame with their
number goes before them when there are several.  What comes in is read the
same way.  A frame which is no UTF-8 text is dropped by the socket without a
word.
-/

namespace FirebaseDatabase

def kWebsocketMaxFrameSize : ℕ := 16384

namespace FUtilities

/-- The segment at a position, which may be a shorter last one. -/
def segmentAt (str : NSString) (size c : ℕ) : NSString :=
  if str.length < c + size then
    (str.drop c).take (size - (c + size - str.length))
  else (str.drop c).take size

/-- The loop over the positions, which ends after as many rounds as there are
characters. -/
def splitLoop (str : NSString) (size : ℕ) : ℕ → ℕ → List NSString
  | 0, _ => []
  | rounds + 1, c =>
      if c < str.length then
        segmentAt str size c :: splitLoop str size rounds (c + size)
      else []

/-- `splitString:intoMaxSize:`. -/
def splitString (str : NSString) (size : ℕ) : List NSString :=
  if str.length ≤ size then [str]
  else splitLoop str size str.length 0

theorem segmentAt_eq (str : NSString) (size c : ℕ) :
    segmentAt str size c = (str.drop c).take size := by
  unfold segmentAt
  split
  next hshort =>
    have hrest : (str.drop c).length ≤ size := by
      rw [List.length_drop]
      omega
    rw [List.take_of_length_le hrest, List.take_of_length_le]
    rw [List.length_drop]
    omega
  next => rfl

theorem flatten_splitLoop {size : ℕ} (hsize : 0 < size) (str : NSString)
    (rounds c : ℕ) (hrounds : str.length ≤ rounds + c) :
    (splitLoop str size rounds c).flatten = str.drop c := by
  induction rounds generalizing c with
  | zero =>
      have hlength : str.length ≤ c := by omega
      rw [List.drop_of_length_le hlength]
      rfl
  | succ rounds ih =>
      unfold splitLoop
      split
      next =>
        have hdrop : str.drop (c + size) = (str.drop c).drop size := by
          rw [List.drop_drop]
        rw [List.flatten_cons, ih (c + size) (by omega), segmentAt_eq, hdrop,
          List.take_append_drop]
      next hend =>
        rw [List.drop_of_length_le (by omega)]
        rfl

theorem length_splitLoop {size : ℕ} (hsize : 0 < size) (str : NSString)
    (rounds c : ℕ) (hrounds : str.length ≤ rounds + c) :
    (splitLoop str size rounds c).length =
      (str.length - c + (size - 1)) / size := by
  induction rounds generalizing c with
  | zero =>
      have hnothing : str.length - c + (size - 1) < size := by omega
      rw [Nat.div_eq_of_lt hnothing]
      rfl
  | succ rounds ih =>
      unfold splitLoop
      split
      next hmore =>
        rw [List.length_cons, ih (c + size) (by omega)]
        by_cases hlong : c + size ≤ str.length
        · have hsplit : str.length - c + (size - 1) =
              str.length - (c + size) + (size - 1) + size := by omega
          rw [hsplit, Nat.add_div_right _ hsize]
        · have hfirst : str.length - (c + size) + (size - 1) < size := by
            omega
          have hlast : str.length - c + (size - 1) =
              str.length - c - 1 + size := by omega
          have hless : str.length - c - 1 < size := by omega
          rw [Nat.div_eq_of_lt hfirst, hlast, Nat.add_div_right _ hsize,
            Nat.div_eq_of_lt hless]
      next hend =>
        have hnothing : str.length - c + (size - 1) < size := by omega
        rw [Nat.div_eq_of_lt hnothing]
        rfl

theorem flatten_splitString {size : ℕ} (hsize : 0 < size) (str : NSString) :
    (splitString str size).flatten = str := by
  unfold splitString
  split
  next => simp
  next => exact flatten_splitLoop hsize str str.length 0 (by omega)

theorem length_splitString_le_iff {size count : ℕ} (hsize : 0 < size)
    (hcount : 0 < count) (str : NSString) :
    (splitString str size).length ≤ count ↔ str.length ≤ count * size := by
  unfold splitString
  split
  next hshort =>
    have hone : size ≤ count * size := Nat.le_mul_of_pos_left size hcount
    rw [List.length_singleton]
    exact iff_of_true hcount (hshort.trans hone)
  next =>
    rw [length_splitLoop hsize str str.length 0 (by omega), Nat.sub_zero,
      ← Nat.lt_succ_iff, Nat.div_lt_iff_lt_mul hsize, Nat.succ_mul]
    omega

theorem take_mem_splitString {size : ℕ} {str : NSString}
    (hlong : size < str.length) : str.take size ∈ splitString str size := by
  unfold splitString
  rw [if_neg (by omega)]
  cases hlength : str.length with
  | zero => omega
  | succ rounds =>
      unfold splitLoop
      rw [if_pos (by omega), segmentAt_eq, List.drop_zero]
      exact List.mem_cons_self

theorem one_lt_length_splitString {size : ℕ} (hsize : 0 < size)
    {str : NSString} (hlong : size < str.length) :
    1 < (splitString str size).length := by
  by_contra hone
  rw [Nat.not_lt, length_splitString_le_iff hsize one_pos] at hone
  omega

end FUtilities

/-! ## The texts of numbers -/

/-- `stringWithFormat:@"%u"`. -/
def unsignedText (number : ℕ) : NSString :=
  (Nat.toDigits 10 number).map fun digit => digit.toNat.toUInt16

namespace NSString

def isSpace (c : unichar) : Bool :=
  (9 ≤ c && c ≤ 13) || c = 32 || c = 0x85 || c = 0xA0 || c = 0x1680 ||
    (0x2000 ≤ c && c ≤ 0x200B) || c = 0x2028 || c = 0x2029 || c = 0x202F ||
    c = 0x205F || c = 0x3000

def isDigit (c : unichar) : Bool := 48 ≤ c && c ≤ 57

/-- The digits at the beginning, from the value read so far. -/
def scanDigits : NSString → ℕ → ℕ
  | [], value => value
  | c :: rest, value =>
      if isDigit c then scanDigits rest (10 * value + (c.toNat - 48))
      else value

/-- `intValue`: spaces, a sign and digits; zero without a digit. -/
def intValue (string : NSString) : ℤ :=
  match string.dropWhile isSpace with
  | [] => 0
  | c :: rest =>
      if c = 45 then -(scanDigits rest 0 : ℤ)
      else if c = 43 then scanDigits rest 0
      else scanDigits (c :: rest) 0

theorem digit_bounds {c : Char} (hdigit : c.isDigit = true) :
    48 ≤ c.toNat ∧ c.toNat ≤ 57 := by
  simp only [Char.isDigit, Bool.and_eq_true, decide_eq_true_eq] at hdigit
  exact ⟨hdigit.1, hdigit.2⟩

theorem toNat_digit {c : Char} (hdigit : c.isDigit = true) :
    c.toNat.toUInt16.toNat = c.toNat := by
  obtain ⟨-, hle⟩ := digit_bounds hdigit
  have hsize : UInt16.size = 65536 := rfl
  exact UInt16.toNat_ofNat_of_lt (by omega)

theorem isDigit_digit {c : Char} (hdigit : c.isDigit = true) :
    isDigit c.toNat.toUInt16 = true := by
  obtain ⟨hge, hle⟩ := digit_bounds hdigit
  simp only [isDigit, Bool.and_eq_true, decide_eq_true_eq,
    UInt16.le_iff_toNat_le, toNat_digit hdigit]
  exact ⟨hge, hle⟩

theorem scanDigits_map {digits : List Char}
    (hdigits : ∀ c ∈ digits, c.isDigit = true) (value : ℕ) :
    scanDigits (digits.map fun c => c.toNat.toUInt16) value =
      Nat.ofDigitChars 10 digits value := by
  induction digits generalizing value with
  | nil => simp [scanDigits]
  | cons c digits ih =>
      have hfirst := hdigits c List.mem_cons_self
      have hrest : ∀ other ∈ digits, other.isDigit = true :=
        fun other hother => hdigits other (List.mem_cons_of_mem c hother)
      rw [List.map_cons, scanDigits, if_pos (isDigit_digit hfirst),
        toNat_digit hfirst, ih hrest, Nat.ofDigitChars_cons]
      rfl

/-- A text which does not begin with a space, a sign or a digit is zero. -/
theorem intValue_cons {c : unichar} (hspace : isSpace c = false)
    (hminus : c ≠ 45) (hplus : c ≠ 43) (rest : NSString) :
    intValue (c :: rest) = scanDigits (c :: rest) 0 := by
  unfold intValue
  rw [List.dropWhile_cons_of_neg (by simp [hspace])]
  simp only [hminus, hplus, if_false]

theorem notSpace_of_isDigit {c : unichar} (hdigit : isDigit c = true) :
    isSpace c = false ∧ c ≠ 45 ∧ c ≠ 43 := by
  simp only [isDigit, Bool.and_eq_true, decide_eq_true_eq,
    UInt16.le_iff_toNat_le, UInt16.reduceToNat] at hdigit
  simp only [isSpace, Bool.or_eq_false_iff, Bool.and_eq_false_iff,
    decide_eq_false_iff_not, UInt16.le_iff_toNat_le, UInt16.reduceToNat,
    ← UInt16.toNat_inj, ne_eq]
  omega

end NSString

section UnsignedText

open NSString

theorem isDigit_of_mem_toDigits {number : ℕ} {c : Char}
    (hmem : c ∈ Nat.toDigits 10 number) : c.isDigit = true :=
  Nat.isDigit_of_mem_toDigits (by omega) (by omega) hmem

theorem isDigit_of_mem_unsignedText {number : ℕ} {c : unichar}
    (hmem : c ∈ unsignedText number) : isDigit c = true := by
  obtain ⟨digit, hdigit, rfl⟩ := List.mem_map.mp hmem
  exact isDigit_digit (isDigit_of_mem_toDigits hdigit)

theorem intValue_unsignedText (number : ℕ) :
    intValue (unsignedText number) = number := by
  have hscan : scanDigits (unsignedText number) 0 = number := by
    unfold unsignedText
    rw [scanDigits_map fun c hmem => isDigit_of_mem_toDigits hmem,
      Nat.ofDigitChars_toDigits (by omega) (by omega)]
  cases htext : unsignedText number with
  | nil =>
      have hnonempty : Nat.toDigits 10 number ≠ [] := Nat.toDigits_ne_nil
      exact absurd (List.map_eq_nil_iff.mp htext) hnonempty
  | cons c rest =>
      have hmem : c ∈ unsignedText number := by
        rw [htext]
        exact List.mem_cons_self
      have hdigit := isDigit_of_mem_unsignedText hmem
      obtain ⟨hspace, hminus, hplus⟩ := notSpace_of_isDigit hdigit
      rw [intValue_cons hspace hminus hplus, ← htext, hscan]

theorem length_unsignedText_le_iff (number : ℕ) :
    (unsignedText number).length ≤ 4 ↔ number ≤ 9999 := by
  unfold unsignedText
  rw [List.length_map, Nat.length_toDigits_le_iff (by omega) (by omega)]
  omega

theorem wellFormed_unsignedText (number : ℕ) :
    Utf16.wellFormed (unsignedText number) = true := by
  apply Utf16.wellFormed_of_plain
  intro c hmem
  have hdigit := isDigit_of_mem_unsignedText hmem
  simp only [isDigit, Bool.and_eq_true, decide_eq_true_eq,
    UInt16.le_iff_toNat_le, UInt16.reduceToNat] at hdigit
  simp only [UInt16.lt_iff_toNat_lt, UInt16.reduceToNat]
  omega

end UnsignedText

/-! ## The connection -/

/-- What the connection has been told is the text of each whole message. -/
structure FWebSocketConnection where
  frame : Option NSString
  totalFrames : ℤ
  received : List NSString
deriving DecidableEq

namespace FWebSocketConnection

open FUtilities

/-- `send:`, of the text of a message. -/
def framesOf (data : NSString) : List NSString :=
  let dataSegs := splitString data kWebsocketMaxFrameSize
  (if 1 < dataSegs.length then [unsignedText dataSegs.length] else []) ++
    dataSegs

/-- The socket sends a text in UTF-8, and nothing where it has no such
form. -/
def transmitted (frames : List NSString) : List NSString :=
  frames.filter Utf16.wellFormed

def handleNewFrameCount (self : FWebSocketConnection) (numFrames : ℤ) :
    FWebSocketConnection :=
  { self with totalFrames := numFrames, frame := some [] }

def extractFrameCount (self : FWebSocketConnection) (message : NSString) :
    FWebSocketConnection × Option NSString :=
  if message.length ≤ 4 ∧ 0 < NSString.intValue message then
    (self.handleNewFrameCount (NSString.intValue message), none)
  else (self.handleNewFrameCount 1, some message)

def appendFrame (self : FWebSocketConnection) (message : NSString) :
    FWebSocketConnection :=
  let frame := self.frame.map fun frame => frame ++ message
  let totalFrames := self.totalFrames - 1
  if totalFrames = 0 then
    { frame := none
      totalFrames := totalFrames
      received := self.received ++ frame.toList }
  else { self with frame := frame, totalFrames := totalFrames }

def handleIncomingFrame (self : FWebSocketConnection) (message : NSString) :
    FWebSocketConnection :=
  match self.frame with
  | some _ => self.appendFrame message
  | none =>
      match self.extractFrameCount message with
      | (self, none) => self
      | (self, some remaining) => self.appendFrame remaining

def idle (received : List NSString) : FWebSocketConnection :=
  ⟨none, 0, received⟩

def receive (self : FWebSocketConnection) (frames : List NSString) :
    FWebSocketConnection :=
  frames.foldl handleIncomingFrame self

end FWebSocketConnection

end FirebaseDatabase
