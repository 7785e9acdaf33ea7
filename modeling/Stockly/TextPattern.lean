import Mathlib.Computability.RegularExpressions
import Mathlib.Tactic

/-!
# Text patterns

The patterns of a text check as regular expressions, and which texts they
match.  Membership in each combinator is stated once, so that the language of
a pattern is found by rewriting and not by running it.
-/

namespace Stockly

namespace TextPattern

def oneOf : List Char → RegularExpression Char
  | [] => 0
  | letter :: letters => .char letter + oneOf letters

def oneOrMore (pattern : RegularExpression Char) : RegularExpression Char :=
  pattern * .star pattern

def optional (pattern : RegularExpression Char) : RegularExpression Char :=
  1 + pattern

def times (pattern : RegularExpression Char) : ℕ → RegularExpression Char
  | 0 => 1
  | count + 1 => pattern * times pattern count

/-- `…{least,most}`. -/
def between (pattern : RegularExpression Char) (least most : ℕ) :
    RegularExpression Char :=
  times pattern least * times (optional pattern) (most - least)

/-- `SELF MATCHES %@`: the whole text matches, so `^` and `$` add nothing. -/
def matchesWhole (pattern : RegularExpression Char) (text : String) : Bool :=
  pattern.rmatch text.toList

def lowercase : List Char := "abcdefghijklmnopqrstuvwxyz".toList

def uppercase : List Char := "ABCDEFGHIJKLMNOPQRSTUVWXYZ".toList

def digits : List Char := "0123456789".toList

/-! ## Membership -/

variable {text : List Char} {first second : RegularExpression Char}

theorem matchesWhole_iff (pattern : RegularExpression Char) (text : String) :
    matchesWhole pattern text = true ↔ text.toList ∈ pattern.matches' :=
  RegularExpression.rmatch_iff_matches' pattern text.toList

theorem mem_mul :
    text ∈ (first * second).matches' ↔
      ∃ before after, text = before ++ after ∧
        before ∈ first.matches' ∧ after ∈ second.matches' := by
  rw [RegularExpression.matches'_mul, Language.mem_mul]
  constructor
  · intro hmatch
    rcases hmatch with ⟨before, hbefore, after, hafter, htext⟩
    exact ⟨before, after, htext.symm, hbefore, hafter⟩
  · intro hsplit
    rcases hsplit with ⟨before, after, htext, hbefore, hafter⟩
    exact ⟨before, hbefore, after, hafter, htext.symm⟩

theorem mem_char (letter : Char) :
    text ∈ (RegularExpression.char letter).matches' ↔ text = [letter] :=
  Iff.rfl

theorem mem_optional (pattern : RegularExpression Char) :
    text ∈ (optional pattern).matches' ↔
      text = [] ∨ text ∈ pattern.matches' := by
  rw [optional, RegularExpression.matches'_add, Language.mem_add,
    RegularExpression.matches'_epsilon, Language.mem_one]

theorem nil_mem_star (pattern : RegularExpression Char) :
    [] ∈ (RegularExpression.star pattern).matches' := by
  rw [RegularExpression.matches'_star]
  exact Language.nil_mem_kstar _

theorem append_mem_star {pattern : RegularExpression Char}
    {word rest : List Char} (hword : word ∈ pattern.matches')
    (hrest : rest ∈ (RegularExpression.star pattern).matches') :
    word ++ rest ∈ (RegularExpression.star pattern).matches' := by
  rw [RegularExpression.matches'_star] at hrest ⊢
  rcases Language.mem_kstar.mp hrest with ⟨words, hwords, hall⟩
  apply Language.mem_kstar.mpr
  refine ⟨word :: words, by rw [hwords, List.flatten_cons], ?_⟩
  intro other hother
  rcases List.mem_cons.mp hother with heq | hmem
  · exact heq ▸ hword
  · exact hall other hmem

/-- The texts of a star are the least set with the empty text that is closed
under putting a word in front. -/
theorem star_induction {pattern : RegularExpression Char}
    {motive : List Char → Prop} (hnil : motive [])
    (hword : ∀ word rest, word ∈ pattern.matches' → motive rest →
      motive (word ++ rest))
    (htext : text ∈ (RegularExpression.star pattern).matches') :
    motive text := by
  rw [RegularExpression.matches'_star, Language.mem_kstar] at htext
  rcases htext with ⟨words, htext, hwords⟩
  subst htext
  induction words with
  | nil => exact hnil
  | cons word words ih =>
      rw [List.flatten_cons]
      apply hword _ _ (hwords word List.mem_cons_self)
      apply ih
      intro other hother
      exact hwords other (List.mem_cons_of_mem word hother)

/-! ## Character classes -/

variable {letters : List Char}

theorem mem_oneOf :
    text ∈ (oneOf letters).matches' ↔
      ∃ letter ∈ letters, text = [letter] := by
  induction letters with
  | nil =>
      constructor
      · intro hmem
        exact hmem.elim
      · intro hmatch
        rcases hmatch with ⟨letter, hletter, -⟩
        contradiction
  | cons letter letters ih =>
      rw [oneOf, RegularExpression.matches'_add, Language.mem_add, mem_char,
        ih]
      simp only [List.mem_cons, exists_eq_or_imp]

theorem mem_oneOf_mul :
    text ∈ (oneOf letters * second).matches' ↔
      ∃ letter ∈ letters, ∃ after, text = letter :: after ∧
        after ∈ second.matches' := by
  simp only [mem_mul, mem_oneOf]
  constructor
  · intro hmatch
    rcases hmatch with ⟨before, after, htext, ⟨letter, hletter, rfl⟩, hafter⟩
    exact ⟨letter, hletter, after, htext, hafter⟩
  · intro hsplit
    rcases hsplit with ⟨letter, hletter, after, htext, hafter⟩
    exact ⟨[letter], after, htext, ⟨letter, hletter, rfl⟩, hafter⟩

theorem mem_star_oneOf :
    text ∈ (RegularExpression.star (oneOf letters)).matches' ↔
      ∀ letter ∈ text, letter ∈ letters := by
  constructor
  · apply star_induction
    · simp
    · intro word rest hword hrest
      rcases mem_oneOf.mp hword with ⟨letter, hletter, rfl⟩
      exact List.forall_mem_cons.mpr ⟨hletter, hrest⟩
  · intro hall
    induction text with
    | nil => exact nil_mem_star _
    | cons letter text ih =>
        rcases List.forall_mem_cons.mp hall with ⟨hletter, htext⟩
        exact append_mem_star
          (mem_oneOf.mpr ⟨letter, hletter, rfl⟩) (ih htext)

theorem mem_oneOrMore_oneOf :
    text ∈ (oneOrMore (oneOf letters)).matches' ↔
      text ≠ [] ∧ ∀ letter ∈ text, letter ∈ letters := by
  rw [oneOrMore, mem_oneOf_mul]
  constructor
  · intro hmatch
    rcases hmatch with ⟨letter, hletter, after, rfl, hafter⟩
    refine ⟨List.cons_ne_nil letter after, ?_⟩
    exact List.forall_mem_cons.mpr ⟨hletter, mem_star_oneOf.mp hafter⟩
  · intro hspec
    rcases hspec with ⟨hne, hall⟩
    rcases List.exists_cons_of_ne_nil hne with ⟨letter, after, rfl⟩
    rcases List.forall_mem_cons.mp hall with ⟨hletter, hafter⟩
    exact ⟨letter, hletter, after, rfl, mem_star_oneOf.mpr hafter⟩

theorem mem_times_oneOf (count : ℕ) :
    text ∈ (times (oneOf letters) count).matches' ↔
      text.length = count ∧ ∀ letter ∈ text, letter ∈ letters := by
  induction count generalizing text with
  | zero =>
      rw [times, RegularExpression.matches'_epsilon, Language.mem_one,
        List.length_eq_zero_iff]
      constructor
      · rintro rfl
        simp
      · exact And.left
  | succ count ih =>
      rw [times, mem_oneOf_mul]
      constructor
      · intro hmatch
        rcases hmatch with ⟨letter, hletter, after, rfl, hafter⟩
        rcases ih.mp hafter with ⟨hlength, hall⟩
        rw [List.length_cons, hlength]
        exact ⟨rfl, List.forall_mem_cons.mpr ⟨hletter, hall⟩⟩
      · intro hspec
        rcases hspec with ⟨hlength, hall⟩
        rcases List.exists_of_length_succ text hlength with
          ⟨letter, after, rfl⟩
        rcases List.forall_mem_cons.mp hall with ⟨hletter, hafter⟩
        have hrest : after.length = count := Nat.succ.inj hlength
        exact ⟨letter, hletter, after, rfl, ih.mpr ⟨hrest, hafter⟩⟩

theorem mem_times_optional_oneOf (count : ℕ) :
    text ∈ (times (optional (oneOf letters)) count).matches' ↔
      text.length ≤ count ∧ ∀ letter ∈ text, letter ∈ letters := by
  induction count generalizing text with
  | zero =>
      rw [times, RegularExpression.matches'_epsilon, Language.mem_one,
        Nat.le_zero, List.length_eq_zero_iff]
      constructor
      · rintro rfl
        simp
      · exact And.left
  | succ count ih =>
      simp only [times, mem_mul, mem_optional, mem_oneOf, ih]
      constructor
      · intro hmatch
        rcases hmatch with ⟨before, after, rfl, hbefore, hlength, hall⟩
        rcases hbefore with rfl | ⟨letter, hletter, rfl⟩
        · exact ⟨Nat.le_succ_of_le hlength, hall⟩
        · exact ⟨Nat.succ_le_succ hlength,
            List.forall_mem_cons.mpr ⟨hletter, hall⟩⟩
      · intro hspec
        rcases hspec with ⟨hlength, hall⟩
        cases text with
        | nil => exact ⟨[], [], rfl, .inl rfl, Nat.zero_le count, hall⟩
        | cons letter text =>
            rcases List.forall_mem_cons.mp hall with ⟨hletter, htext⟩
            exact ⟨[letter], text, rfl, .inr ⟨letter, hletter, rfl⟩,
              Nat.le_of_succ_le_succ hlength, htext⟩

theorem mem_between_oneOf {least most : ℕ} (hbounds : least ≤ most) :
    text ∈ (between (oneOf letters) least most).matches' ↔
      least ≤ text.length ∧ text.length ≤ most ∧
        ∀ letter ∈ text, letter ∈ letters := by
  simp only [between, mem_mul, mem_times_oneOf, mem_times_optional_oneOf]
  constructor
  · intro hmatch
    rcases hmatch with ⟨before, after, rfl, ⟨hbefore, hfirst⟩, hafter, hsecond⟩
    rw [List.length_append, List.forall_mem_append]
    exact ⟨by omega, by omega, hfirst, hsecond⟩
  · intro hspec
    rcases hspec with ⟨hleast, hmost, hall⟩
    have hsplit : text = text.take least ++ text.drop least :=
      (List.take_append_drop least text).symm
    refine ⟨_, _, hsplit, ⟨List.length_take_of_le hleast, ?_⟩, ?_, ?_⟩
    · intro letter hletter
      exact hall letter (List.mem_of_mem_take hletter)
    · rw [List.length_drop]
      omega
    · intro letter hletter
      exact hall letter (List.mem_of_mem_drop hletter)

/-! ## ASCII letters -/

theorem toNat_lt_of_isAlpha {letter : Char}
    (hletter : letter.isAlpha = true) : letter.toNat < 128 := by
  have hcases : letter.isUpper = true ∨ letter.isLower = true :=
    Bool.or_eq_true_iff.mp hletter
  rcases hcases with hupper | hlower
  · have hle : letter.val ≤ 'Z'.val := (of_decide_eq_true hupper).2
    have hcode : letter.toNat ≤ 90 := UInt32.le_iff_toNat_le.mp hle
    omega
  · have hle : letter.val ≤ 'z'.val :=
      of_decide_eq_true (Bool.and_eq_true_iff.mp hlower).2
    have hcode : letter.toNat ≤ 122 := UInt32.le_iff_toNat_le.mp hle
    omega

theorem mem_of_ascii {letters : List Char} {property : Char → Bool}
    (htable : ∀ code < 128, property (Char.ofNat code) = true →
      Char.ofNat code ∈ letters)
    {letter : Char} (hcode : letter.toNat < 128)
    (hletter : property letter = true) : letter ∈ letters := by
  have hmem := htable letter.toNat hcode
  rw [Char.ofNat_toNat] at hmem
  exact hmem hletter

theorem mem_letters {letter : Char} :
    letter ∈ lowercase ++ uppercase ↔ letter.isAlpha = true := by
  constructor
  · have hall : (lowercase ++ uppercase).all Char.isAlpha = true := by decide
    exact List.all_eq_true.mp hall letter
  · intro hletter
    have htable : ∀ code < 128, (Char.ofNat code).isAlpha = true →
        Char.ofNat code ∈ lowercase ++ uppercase := by decide +kernel
    exact mem_of_ascii htable (toNat_lt_of_isAlpha hletter) hletter

theorem mem_digits {letter : Char} :
    letter ∈ digits ↔ letter.isDigit = true := by
  constructor
  · have hall : digits.all Char.isDigit = true := by decide
    exact List.all_eq_true.mp hall letter
  · intro hletter
    have htable : ∀ code < 128, (Char.ofNat code).isDigit = true →
        Char.ofNat code ∈ digits := by decide +kernel
    have hle : letter.toNat ≤ 57 := (Char.isDigit_iff_toNat.mp hletter).2
    exact mem_of_ascii htable (by omega) hletter

end TextPattern

end Stockly
