import Stockly.MaximalRuns
import Stockly.SignUpViewController

/-!
# Valid names

The pattern of a name can split one text in many ways, since a space may
stand as a separator or as the character after one.  A scanner reads the text
once from the left; what it accepts is then told from the maximal runs of
separators.
-/

namespace Stockly.SignUpViewController

open TextPattern

def separators : List Char := ['\'', ',', '.', ' ', '-']

/-- `([',. -][a-zA-Z ])?[a-zA-Z]*`. -/
def nameBlock : RegularExpression Char :=
  optional (oneOf separators * oneOf (lowercase ++ uppercase ++ [' '])) *
    .star (oneOf (lowercase ++ uppercase))

theorem nameRegEx_eq :
    nameRegEx =
      oneOrMore (oneOf (lowercase ++ uppercase)) * .star nameBlock := rfl

theorem isAlpha_of_mem_separators {letter : Char}
    (hletter : letter ∈ separators) : letter.isAlpha = false := by
  have hall : (separators.all fun letter => !letter.isAlpha) = true := by
    decide
  simpa using List.all_eq_true.mp hall letter hletter

/-! ## The scanner -/

/-- Letters, and separators each with the letter or space after it. -/
def scanName : List Char → Bool
  | [] => true
  | [letter] => letter.isAlpha
  | first :: second :: rest =>
      if first.isAlpha then scanName (second :: rest)
      else
        decide (first ∈ separators) && (second.isAlpha || second == ' ') &&
          scanName rest

theorem scanName_letter {letter : Char} (hletter : letter.isAlpha = true)
    (rest : List Char) : scanName (letter :: rest) = scanName rest := by
  cases rest with
  | nil => simp [scanName, hletter]
  | cons second rest => rw [scanName, if_pos hletter]

theorem scanName_letters {letters : List Char}
    (hletters : ∀ letter ∈ letters, letter.isAlpha = true)
    (rest : List Char) : scanName (letters ++ rest) = scanName rest := by
  induction letters with
  | nil => rfl
  | cons letter letters ih =>
      rcases List.forall_mem_cons.mp hletters with ⟨hletter, htail⟩
      rw [List.cons_append, scanName_letter hletter, ih htail]

theorem scanName_pair {first : Char} (hfirst : first.isAlpha = false)
    (second : Char) (rest : List Char) :
    scanName (first :: second :: rest) = true ↔
      first ∈ separators ∧ (second.isAlpha = true ∨ second = ' ') ∧
        scanName rest = true := by
  simp [scanName, hfirst, and_assoc]

theorem scanName_head {first : Char} {rest : List Char}
    (hscan : scanName (first :: rest) = true) :
    first.isAlpha = true ∨ first ∈ separators := by
  cases hfirst : first.isAlpha with
  | true => exact .inl rfl
  | false =>
      right
      cases rest with
      | nil =>
          rw [scanName, hfirst] at hscan
          contradiction
      | cons second rest => exact ((scanName_pair hfirst _ _).mp hscan).1

/-! ## The pattern and the scanner -/

theorem mem_nameBlock {text : List Char} :
    text ∈ nameBlock.matches' ↔
      ∃ front letters, text = front ++ letters ∧
        (front = [] ∨ ∃ first ∈ separators, ∃ second,
          (second.isAlpha = true ∨ second = ' ') ∧
            front = [first, second]) ∧
        ∀ letter ∈ letters, letter.isAlpha = true := by
  simp only [nameBlock, mem_mul, mem_optional, mem_star_oneOf, mem_letters]
  constructor
  · intro hmatch
    rcases hmatch with ⟨front, letters, htext, hfront, hletters⟩
    refine ⟨front, letters, htext, ?_, hletters⟩
    rcases hfront with hnil | ⟨before, after, heq, hbefore, hafter⟩
    · exact .inl hnil
    · right
      rcases mem_oneOf.mp hbefore with ⟨first, hfirst, rfl⟩
      rcases mem_oneOf.mp hafter with ⟨second, hsecond, rfl⟩
      rw [List.mem_append, mem_letters, List.mem_singleton] at hsecond
      exact ⟨first, hfirst, second, hsecond, heq⟩
  · intro hsplit
    rcases hsplit with ⟨front, letters, htext, hfront, hletters⟩
    refine ⟨front, letters, htext, ?_, hletters⟩
    rcases hfront with hnil | ⟨first, hfirst, second, hsecond, heq⟩
    · exact .inl hnil
    · right
      refine ⟨[first], [second], heq, mem_oneOf.mpr ⟨first, hfirst, rfl⟩,
        mem_oneOf.mpr ⟨second, ?_, rfl⟩⟩
      rw [List.mem_append, mem_letters, List.mem_singleton]
      exact hsecond

theorem scanName_of_mem_star {text : List Char} :
    text ∈ (RegularExpression.star nameBlock).matches' →
      scanName text = true := by
  apply star_induction
  · rfl
  intro word rest hword hrest
  rcases mem_nameBlock.mp hword with ⟨front, letters, rfl, hfront, hletters⟩
  have htail : scanName (letters ++ rest) = true := by
    rw [scanName_letters hletters]
    exact hrest
  rcases hfront with rfl | ⟨first, hfirst, second, hsecond, rfl⟩
  · exact htail
  · rw [List.append_assoc]
    have hnotAlpha := isAlpha_of_mem_separators hfirst
    exact (scanName_pair hnotAlpha _ _).mpr ⟨hfirst, hsecond, htail⟩

theorem mem_star_of_scanName (text : List Char)
    (hscan : scanName text = true) :
    text ∈ (RegularExpression.star nameBlock).matches' := by
  have hletterBlock : ∀ letter : Char, letter.isAlpha = true →
      [letter] ∈ nameBlock.matches' := by
    intro letter hletter
    apply mem_nameBlock.mpr
    exact ⟨[], [letter], rfl, .inl rfl, by simpa using hletter⟩
  induction text using scanName.induct with
  | case1 => exact nil_mem_star _
  | case2 letter =>
      exact append_mem_star (hletterBlock letter hscan) (nil_mem_star _)
  | case3 first second rest hfirst ih =>
      rw [scanName_letter hfirst] at hscan
      exact append_mem_star (hletterBlock first hfirst) (ih hscan)
  | case4 first second rest hfirst ih =>
      rw [scanName_pair (Bool.eq_false_of_not_eq_true hfirst)] at hscan
      rcases hscan with ⟨hseparator, hsecond, hrest⟩
      have hpair : [first, second] ∈ nameBlock.matches' := by
        apply mem_nameBlock.mpr
        exact ⟨[first, second], [], rfl,
          .inr ⟨first, hseparator, second, hsecond, rfl⟩, by simp⟩
      exact append_mem_star hpair (ih hrest)

theorem mem_nameRegEx {text : List Char} :
    text ∈ nameRegEx.matches' ↔
      ∃ letter rest, text = letter :: rest ∧ letter.isAlpha = true ∧
        scanName rest = true := by
  simp only [nameRegEx_eq, mem_mul, mem_oneOrMore_oneOf, mem_letters]
  constructor
  · intro hmatch
    rcases hmatch with ⟨before, after, rfl, ⟨hne, hletters⟩, hafter⟩
    rcases List.exists_cons_of_ne_nil hne with ⟨letter, letters, rfl⟩
    rcases List.forall_mem_cons.mp hletters with ⟨hletter, htail⟩
    refine ⟨letter, letters ++ after, rfl, hletter, ?_⟩
    rw [scanName_letters htail]
    exact scanName_of_mem_star hafter
  · intro hsplit
    rcases hsplit with ⟨letter, rest, rfl, hletter, hrest⟩
    refine ⟨[letter], rest, rfl, ⟨List.cons_ne_nil letter [], ?_⟩,
      mem_star_of_scanName rest hrest⟩
    simpa using hletter

/-! ## The scanner and the runs -/

/-- Counted from zero, every odd place of the run holds a space; a run at the
end of the text leaves no separator without its space. -/
structure SpacesPaired (run after : List Char) : Prop where
  spaces : ∀ (place : ℕ) (letter : Char), Odd place →
    run[place]? = some letter → letter = ' '
  ending : after = [] → Even run.length

theorem spacesPaired_nil (after : List Char) : SpacesPaired [] after := by
  constructor
  · intro place letter _ hletter
    contradiction
  · intro _
    exact Even.zero

theorem spacesPaired_singleton (letter : Char) (after : List Char) :
    SpacesPaired [letter] after ↔ after ≠ [] := by
  constructor
  · rintro ⟨-, heven⟩ hafter
    exact Nat.not_even_one (heven hafter)
  · intro hafter
    refine ⟨?_, fun hnil => absurd hnil hafter⟩
    intro place other hodd hother
    have hplace : place = 0 := by
      have hlt := (List.getElem?_eq_some_iff.mp hother).1
      simpa using hlt
    subst hplace
    contradiction

theorem spacesPaired_cons_cons (first second : Char)
    (run after : List Char) :
    SpacesPaired (first :: second :: run) after ↔
      second = ' ' ∧ SpacesPaired run after := by
  have hlength : Even (first :: second :: run).length ↔ Even run.length := by
    simp [Nat.even_add_one]
  constructor
  · intro hpaired
    rcases hpaired with ⟨hspaces, heven⟩
    refine ⟨hspaces 1 second odd_one rfl, ?_, ?_⟩
    · intro place letter hodd hletter
      exact hspaces (place + 2) letter (hodd.add_even even_two) hletter
    · intro hafter
      exact hlength.mp (heven hafter)
  · intro hspec
    rcases hspec with ⟨hsecond, hspaces, heven⟩
    refine ⟨?_, fun hafter => hlength.mpr (heven hafter)⟩
    intro place letter hodd hletter
    match place with
    | 0 => contradiction
    | 1 =>
        have heq : second = letter := Option.some.inj hletter
        exact heq ▸ hsecond
    | place + 2 =>
        have hrest : Odd place := by
          rcases hodd with ⟨half, hhalf⟩
          exact ⟨half - 1, by omega⟩
        exact hspaces place letter hrest hletter

theorem scanName_run {run after : List Char}
    (hrun : ∀ letter ∈ run, letter ∈ separators)
    (hafter : ∀ letter ∈ after.head?, letter ∉ separators) :
    scanName (run ++ after) = true ↔
      SpacesPaired run after ∧ scanName after = true := by
  induction run using List.twoStepInduction with
  | nil => simp [spacesPaired_nil]
  | singleton first =>
      have hfirst : first ∈ separators := hrun first List.mem_cons_self
      have hnotAlpha := isAlpha_of_mem_separators hfirst
      rw [spacesPaired_singleton]
      cases after with
      | nil => simp [scanName, hnotAlpha]
      | cons second rest =>
          -- what follows the run is not a space, so it pairs as a letter
          have hsecond : second ∉ separators := hafter second rfl
          have hspace : second ≠ ' ' := by
            rintro rfl
            exact hsecond (by decide)
          rw [List.singleton_append, scanName_pair hnotAlpha]
          constructor
          · intro hpair
            rcases hpair with ⟨-, hletter, hrest⟩
            rw [scanName_letter (hletter.resolve_right hspace)]
            exact ⟨List.cons_ne_nil second rest, hrest⟩
          · intro hspec
            rcases hspec with ⟨-, hscan⟩
            have hletter : second.isAlpha = true :=
              (scanName_head hscan).resolve_right hsecond
            rw [scanName_letter hletter] at hscan
            exact ⟨hfirst, .inl hletter, hscan⟩
  | cons_cons first second run ih =>
      rcases List.forall_mem_cons.mp hrun with ⟨hfirst, htail⟩
      rcases List.forall_mem_cons.mp htail with ⟨hsecond, hrest⟩
      have hsecondAlpha := isAlpha_of_mem_separators hsecond
      rw [List.cons_append, List.cons_append,
        scanName_pair (isAlpha_of_mem_separators hfirst), ih hrest,
        spacesPaired_cons_cons, hsecondAlpha]
      simp [hfirst, and_assoc]

theorem scanName_iff (text : List Char) :
    scanName text = true ↔
      (∀ letter ∈ text, letter.isAlpha = true ∨ letter ∈ separators) ∧
        ∀ before run after,
          MaximalRun (· ∈ separators) text before run after →
            SpacesPaired run after := by
  induction text using MaximalRun.induction_on (· ∈ separators) with
  | hnil => simp [scanName, MaximalRun.not_nil]
  | hcons letter text hletter ih =>
      rw [MaximalRun.forall_cons hletter, List.forall_mem_cons]
      cases halpha : letter.isAlpha with
      | true =>
          rw [scanName_letter halpha, ih]
          simp
      | false =>
          constructor
          · intro hscan
            rcases scanName_head hscan with htrue | hmem
            · rw [halpha] at htrue
              contradiction
            · exact absurd hmem hletter
          · intro hspec
            rcases hspec with ⟨⟨hhead, -⟩, -⟩
            rcases hhead with hfalse | hmem
            · contradiction
            · exact absurd hmem hletter
  | hrun run after hne hwithin hright ih =>
      rw [MaximalRun.forall_append hne hwithin hright,
        scanName_run hwithin hright, ih, List.forall_mem_append]
      have hall : ∀ letter ∈ run,
          letter.isAlpha = true ∨ letter ∈ separators :=
        fun letter hletter => .inr (hwithin letter hletter)
      constructor
      · intro hscan
        rcases hscan with ⟨hpaired, hafter, hruns⟩
        exact ⟨⟨hall, hafter⟩, hpaired, hruns⟩
      · intro hspec
        rcases hspec with ⟨⟨-, hafter⟩, hpaired, hruns⟩
        exact ⟨hpaired, hafter, hruns⟩

/-! ## Well-formed names -/

structure WellFormedName (text : List Char) : Prop where
  initial : ∃ letter, text.head? = some letter ∧ letter.isAlpha = true
  letters : ∀ letter ∈ text, letter.isAlpha = true ∨ letter ∈ separators
  runs : ∀ before run after,
    MaximalRun (· ∈ separators) text before run after →
      SpacesPaired run after

theorem isValidName_iff (testStr : String) :
    isValidName testStr = true ↔ WellFormedName testStr.toList := by
  rw [isValidName, matchesWhole_iff, mem_nameRegEx]
  constructor
  · intro hmatch
    rcases hmatch with ⟨letter, rest, htext, hletter, hscan⟩
    rw [← scanName_letter hletter, ← htext] at hscan
    rcases (scanName_iff _).mp hscan with ⟨hletters, hruns⟩
    exact ⟨⟨letter, by rw [htext]; rfl, hletter⟩, hletters, hruns⟩
  · intro hwell
    rcases hwell with ⟨⟨letter, hhead, hletter⟩, hletters, hruns⟩
    rcases List.head?_eq_some_iff.mp hhead with ⟨rest, htext⟩
    have hscan := (scanName_iff _).mpr ⟨hletters, hruns⟩
    rw [htext, scanName_letter hletter] at hscan
    exact ⟨letter, rest, htext, hletter, hscan⟩

end Stockly.SignUpViewController
