import Stockly.MarkSplit
import Stockly.SignUpViewController

/-!
# Valid email addresses

The host class of the pattern contains the dot, so the pattern alone does not
say at which dot the top-level domain starts.  That domain has no dot, which
leaves the last one, and the classes on both sides of the `@` leave it out.
-/

namespace Stockly.SignUpViewController

open TextPattern MarkSplit

/-! ## The parts of an address -/

/-- `[A-Z0-9a-z._%+-]+`. -/
def localPattern : RegularExpression Char :=
  oneOrMore
    (oneOf (uppercase ++ digits ++ lowercase ++ ['.', '_', '%', '+', '-']))

/-- `[A-Za-z0-9.-]+`. -/
def hostPattern : RegularExpression Char :=
  oneOrMore (oneOf (uppercase ++ lowercase ++ digits ++ ['.', '-']))

/-- `[A-Za-z]{2,64}`. -/
def topLevelPattern : RegularExpression Char :=
  between (oneOf (uppercase ++ lowercase)) 2 64

theorem emailRegEx_eq :
    emailRegEx =
      localPattern *
        (.char '@' * (hostPattern * (.char '.' * topLevelPattern))) := rfl

structure AddressParts where
  localPart : List Char
  host : List Char
  topLevel : List Char

/-- One way in which the pattern can read the text. -/
structure AddressParts.Splits (parts : AddressParts) (text : List Char) :
    Prop where
  text_eq : text =
    parts.localPart ++ '@' :: (parts.host ++ '.' :: parts.topLevel)
  localPart : parts.localPart ∈ localPattern.matches'
  host : parts.host ∈ hostPattern.matches'
  topLevel : parts.topLevel ∈ topLevelPattern.matches'

theorem mem_emailRegEx {text : List Char} :
    text ∈ emailRegEx.matches' ↔
      ∃ parts : AddressParts, parts.Splits text := by
  simp only [emailRegEx_eq, mem_mul, mem_char]
  constructor
  · rintro ⟨localPart, rest, htext, hlocal, mark, domain, hrest, rfl, host,
      ending, hdomain, hhost, dot, topLevel, hending, rfl, htop⟩
    subst hending hdomain hrest
    exact ⟨⟨localPart, host, topLevel⟩, htext, hlocal, hhost, htop⟩
  · intro hread
    rcases hread with ⟨parts, htext, hlocal, hhost, htop⟩
    exact ⟨parts.localPart, _, htext, hlocal, ['@'], _, rfl, rfl, parts.host,
      _, rfl, hhost, ['.'], parts.topLevel, rfl, rfl, htop⟩

/-! ## The classes -/

def LocalLetter (letter : Char) : Prop :=
  letter.isAlphanum = true ∨ letter ∈ ['.', '_', '%', '+', '-']

def DomainLetter (letter : Char) : Prop :=
  letter.isAlphanum = true ∨ letter ∈ ['.', '-']

theorem isAlphanum_iff (letter : Char) :
    letter.isAlphanum = true ↔
      letter ∈ lowercase ++ uppercase ∨ letter ∈ digits := by
  rw [mem_letters, mem_digits, Char.isAlphanum, Bool.or_eq_true]

theorem mem_localClass (letter : Char) :
    letter ∈ uppercase ++ digits ++ lowercase ++ ['.', '_', '%', '+', '-'] ↔
      LocalLetter letter := by
  simp only [LocalLetter, isAlphanum_iff, List.mem_append, or_comm,
    or_left_comm]

theorem mem_hostClass (letter : Char) :
    letter ∈ uppercase ++ lowercase ++ digits ++ ['.', '-'] ↔
      DomainLetter letter := by
  simp only [DomainLetter, isAlphanum_iff, List.mem_append, or_comm]

theorem mem_topLevelClass (letter : Char) :
    letter ∈ uppercase ++ lowercase ↔ letter.isAlpha = true := by
  rw [← mem_letters, List.mem_append, List.mem_append, or_comm]

theorem mem_localPattern {text : List Char} :
    text ∈ localPattern.matches' ↔
      text ≠ [] ∧ ∀ letter ∈ text, LocalLetter letter := by
  simp only [localPattern, mem_oneOrMore_oneOf, mem_localClass]

theorem mem_hostPattern {text : List Char} :
    text ∈ hostPattern.matches' ↔
      text ≠ [] ∧ ∀ letter ∈ text, DomainLetter letter := by
  simp only [hostPattern, mem_oneOrMore_oneOf, mem_hostClass]

theorem mem_topLevelPattern {text : List Char} :
    text ∈ topLevelPattern.matches' ↔
      2 ≤ text.length ∧ text.length ≤ 64 ∧
        ∀ letter ∈ text, letter.isAlpha = true := by
  simp only [topLevelPattern, mem_between_oneOf (show 2 ≤ 64 by omega),
    mem_topLevelClass]

theorem domainLetter_of_isAlpha {letter : Char}
    (hletter : letter.isAlpha = true) : DomainLetter letter := by
  left
  rw [Char.isAlphanum, hletter, Bool.true_or]

theorem not_localLetter_at : ¬ LocalLetter '@' := by
  unfold LocalLetter
  decide

theorem not_domainLetter_at : ¬ DomainLetter '@' := by
  unfold DomainLetter
  decide

/-! ## The split -/

namespace AddressParts.Splits

variable {parts : AddressParts} {text : List Char}

theorem at_notMem_localPart (hsplits : parts.Splits text) :
    '@' ∉ parts.localPart := by
  intro hmem
  have hletters := (mem_localPattern.mp hsplits.localPart).2
  exact not_localLetter_at (hletters '@' hmem)

theorem dot_notMem_topLevel (hsplits : parts.Splits text) :
    '.' ∉ parts.topLevel := by
  intro hmem
  have hletters := (mem_topLevelPattern.mp hsplits.topLevel).2.2
  have hdot : '.'.isAlpha = true := hletters '.' hmem
  contradiction

theorem domainLetters (hsplits : parts.Splits text) :
    ∀ letter ∈ parts.host ++ '.' :: parts.topLevel, DomainLetter letter := by
  have hhost := (mem_hostPattern.mp hsplits.host).2
  have htop := (mem_topLevelPattern.mp hsplits.topLevel).2.2
  intro letter hletter
  rcases List.mem_append.mp hletter with hmem | hmem
  · exact hhost letter hmem
  · rcases List.mem_cons.mp hmem with rfl | hmem
    · exact .inr (by decide)
    · exact domainLetter_of_isAlpha (htop letter hmem)

theorem localPart_eq (hsplits : parts.Splits text) :
    parts.localPart = beforeFirst '@' text := by
  rw [hsplits.text_eq, beforeFirst_append hsplits.at_notMem_localPart]

theorem domain_eq (hsplits : parts.Splits text) :
    parts.host ++ '.' :: parts.topLevel = afterFirst '@' text := by
  rw [hsplits.text_eq, afterFirst_append hsplits.at_notMem_localPart]

theorem host_eq (hsplits : parts.Splits text) :
    parts.host = beforeLast '.' (afterFirst '@' text) := by
  rw [← hsplits.domain_eq, beforeLast_append hsplits.dot_notMem_topLevel]

theorem topLevel_eq (hsplits : parts.Splits text) :
    parts.topLevel = afterLast '.' (afterFirst '@' text) := by
  rw [← hsplits.domain_eq, afterLast_append hsplits.dot_notMem_topLevel]

theorem unique {other : AddressParts} (hsplits : parts.Splits text)
    (hother : other.Splits text) : parts = other := by
  cases parts with
  | mk localPart host topLevel =>
      cases other with
      | mk otherLocal otherHost otherTop =>
          have hlocal : localPart = otherLocal :=
            hsplits.localPart_eq.trans hother.localPart_eq.symm
          have hhost : host = otherHost :=
            hsplits.host_eq.trans hother.host_eq.symm
          have htop : topLevel = otherTop :=
            hsplits.topLevel_eq.trans hother.topLevel_eq.symm
          rw [hlocal, hhost, htop]

end AddressParts.Splits

/-! ## Well-formed addresses -/

structure WellFormedAddress (text : List Char) : Prop where
  marks : text.count '@' = 1
  localPart_ne : beforeFirst '@' text ≠ []
  localPart : ∀ letter ∈ beforeFirst '@' text, LocalLetter letter
  domain : ∀ letter ∈ afterFirst '@' text, DomainLetter letter
  dot : '.' ∈ afterFirst '@' text
  host_ne : beforeLast '.' (afterFirst '@' text) ≠ []
  topLevel_length :
    (afterLast '.' (afterFirst '@' text)).length ∈ Set.Icc 2 64
  topLevel : ∀ letter ∈ afterLast '.' (afterFirst '@' text),
    letter.isAlpha = true

theorem wellFormedAddress_of_splits {parts : AddressParts}
    {text : List Char} (hsplits : parts.Splits text) :
    WellFormedAddress text := by
  rcases mem_localPattern.mp hsplits.localPart with ⟨hlocalNe, hlocal⟩
  rcases mem_topLevelPattern.mp hsplits.topLevel with ⟨hleast, hmost, htop⟩
  have hhostNe := (mem_hostPattern.mp hsplits.host).1
  have hdomain := hsplits.domainLetters
  have hat : '@' ∉ parts.host ++ '.' :: parts.topLevel := by
    intro hmem
    exact not_domainLetter_at (hdomain '@' hmem)
  constructor
  · rw [hsplits.text_eq]
    exact count_cut hsplits.at_notMem_localPart hat
  · rw [← hsplits.localPart_eq]
    exact hlocalNe
  · rw [← hsplits.localPart_eq]
    exact hlocal
  · rw [← hsplits.domain_eq]
    exact hdomain
  · rw [← hsplits.domain_eq]
    simp
  · rw [← hsplits.host_eq]
    exact hhostNe
  · rw [← hsplits.topLevel_eq]
    exact ⟨hleast, hmost⟩
  · rw [← hsplits.topLevel_eq]
    exact htop

theorem WellFormedAddress.splits {text : List Char}
    (hwell : WellFormedAddress text) :
    AddressParts.Splits
      ⟨beforeFirst '@' text, beforeLast '.' (afterFirst '@' text),
        afterLast '.' (afterFirst '@' text)⟩ text := by
  have hdomain := cut_last hwell.dot
  have htext := cut_first (mem_of_count hwell.marks)
  constructor
  · calc
      text = beforeFirst '@' text ++ '@' :: afterFirst '@' text := htext
      _ = _ := by rw [← hdomain]
  · exact mem_localPattern.mpr ⟨hwell.localPart_ne, hwell.localPart⟩
  · apply mem_hostPattern.mpr
    refine ⟨hwell.host_ne, ?_⟩
    intro letter hletter
    apply hwell.domain letter
    rw [hdomain]
    exact List.mem_append_left _ hletter
  · rcases hwell.topLevel_length with ⟨hleast, hmost⟩
    exact mem_topLevelPattern.mpr ⟨hleast, hmost, hwell.topLevel⟩

theorem isValidEmail_iff (testStr : String) :
    (isValidEmail testStr = true ↔ WellFormedAddress testStr.toList) ∧
      (isValidEmail testStr = true →
        ∃! parts : AddressParts, parts.Splits testStr.toList) := by
  rw [isValidEmail, matchesWhole_iff, mem_emailRegEx]
  refine ⟨⟨?_, ?_⟩, ?_⟩
  · intro hread
    rcases hread with ⟨parts, hsplits⟩
    exact wellFormedAddress_of_splits hsplits
  · intro hwell
    exact ⟨_, hwell.splits⟩
  · intro hread
    rcases hread with ⟨parts, hsplits⟩
    refine ⟨parts, hsplits, ?_⟩
    intro other hother
    exact hother.unique hsplits

end Stockly.SignUpViewController
