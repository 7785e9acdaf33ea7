import Stockly.FImmutableSortedDictionary

/-!
# The order of keys

The database orders the children of a node by their keys: keys which read as
integers of 32 bits come first, in the order of the integers, and the others
follow in the order of their characters.  The order is a total preorder, and
it fails to tell two different keys apart exactly when both read as zero; a
node with two such children cannot be built.
-/

namespace FirebaseDatabase

abbrev unichar := UInt16

/-- The characters of an `NSString`. -/
abbrev NSString := List unichar

/-- A key, or one of the two names which bound all keys and are recognized by
their identity. -/
inductive FKey where
  | minName
  | maxName
  | name (string : NSString)
deriving DecidableEq, Repr

namespace FUtilities

def INTEGER_32_MIN : ℤ := -2147483648

def INTEGER_32_MAX : ℤ := 2147483647

/-- The loop over the digits, from the value read so far. -/
def readDigits : NSString → ℕ → Option ℕ
  | [], value => some value
  | c :: rest, value =>
      if c < 48 ∨ 57 < c then none
      else readDigits rest (value * 10 + (c.toNat - 48))

/-- The character 45 is the minus sign. -/
def readInteger : NSString → Option ℤ
  | [] => none
  | c :: rest =>
      if c = 45 then
        if rest.isEmpty then none
        else (readDigits rest 0).map fun value : ℕ => -(value : ℤ)
      else (readDigits (c :: rest) 0).map fun value : ℕ => (value : ℤ)

def tryParseStringToInt (str : NSString) : Option ℤ :=
  if 11 < str.length then none
  else
    match readInteger str with
    | none => none
    | some value =>
        if value < INTEGER_32_MIN ∨ INTEGER_32_MAX < value then none
        else some value

def compareNames (a b : NSString) : Ordering :=
  match tryParseStringToInt a, tryParseStringToInt b with
  | some aAsInt, some bAsInt =>
      if aAsInt > bAsInt then .gt
      else if aAsInt < bAsInt then .lt
      else if a.length > b.length then .gt
      else if a.length < b.length then .lt
      else .eq
  | some _, none => .lt
  | none, some _ => .gt
  | none, none => compare a b

def compareKey : FKey → FKey → Ordering
  | .minName, .minName => .eq
  | .maxName, .maxName => .eq
  | .minName, _ => .lt
  | _, .maxName => .lt
  | _, .minName => .gt
  | .maxName, _ => .gt
  | .name a, .name b => compareNames a b

/-! ## A total preorder -/

/-- What the comparison looks at, the most significant part first. -/
structure Rank where
  kind : ℕ
  value : ℤ
  length : ℕ
  characters : NSString

def Rank.order : Rank → Rank → Ordering :=
  compareLex (compareOn kind) (compareLex (compareOn value)
    (compareLex (compareOn Rank.length) (compareOn characters)))

instance : Std.TransCmp Rank.order :=
  inferInstanceAs (Std.TransCmp (compareLex _ _))

def rank : FKey → Rank
  | .minName => ⟨0, 0, 0, []⟩
  | .maxName => ⟨3, 0, 0, []⟩
  | .name string =>
      match tryParseStringToInt string with
      | some value => ⟨1, value, string.length, []⟩
      | none => ⟨2, 0, 0, string⟩

theorem Rank.order_eq (first second : Rank) :
    Rank.order first second =
      (compare first.kind second.kind).then
        ((compare first.value second.value).then
          ((compare first.length second.length).then
            (compare first.characters second.characters))) := rfl

theorem compareNames_eq (a b : NSString) :
    compareNames a b = Rank.order (rank (.name a)) (rank (.name b)) := by
  rw [Rank.order_eq]
  cases ha : tryParseStringToInt a with
  | none =>
      cases hb : tryParseStringToInt b with
      | none => simp [compareNames, rank, ha, hb]
      | some bAsInt =>
          simp only [compareNames, rank, ha, hb]
          rfl
  | some aAsInt =>
      cases hb : tryParseStringToInt b with
      | none =>
          simp only [compareNames, rank, ha, hb]
          rfl
      | some bAsInt =>
          simp only [compareNames, rank, ha, hb]
          rcases lt_trichotomy aAsInt bAsInt with hvalue | rfl | hvalue
          · rw [if_neg (by omega), if_pos hvalue,
              compare_lt_iff_lt.mpr hvalue]
            rfl
          · rw [if_neg (lt_irrefl _), if_neg (lt_irrefl _)]
            rcases lt_trichotomy a.length b.length with hsize | hsize | hsize
            · rw [if_neg (by omega), if_pos hsize,
                compare_lt_iff_lt.mpr hsize]
              simp
            · rw [if_neg (by omega), if_neg (by omega), hsize]
              simp
            · rw [if_pos hsize, compare_gt_iff_gt.mpr hsize]
              simp
          · rw [if_pos hvalue, compare_gt_iff_gt.mpr hvalue]
            rfl

theorem rank_name_kind (string : NSString) :
    (rank (.name string)).kind = 1 ∨ (rank (.name string)).kind = 2 := by
  cases hparse : tryParseStringToInt string with
  | none => simp [rank, hparse]
  | some value => simp [rank, hparse]

theorem order_of_kind_lt {first second : Rank}
    (hkind : first.kind < second.kind) :
    Rank.order first second = .lt ∧ Rank.order second first = .gt := by
  rw [Rank.order_eq, Rank.order_eq, compare_lt_iff_lt.mpr hkind,
    compare_gt_iff_gt.mpr hkind]
  exact ⟨rfl, rfl⟩

theorem compareKey_eq (a b : FKey) :
    compareKey a b = Rank.order (rank a) (rank b) := by
  have hleast (string : NSString) :
      (rank .minName).kind < (rank (.name string)).kind := by
    have hzero : (rank .minName).kind = 0 := rfl
    rcases rank_name_kind string with hkind | hkind <;> omega
  have hgreatest (string : NSString) :
      (rank (.name string)).kind < (rank .maxName).kind := by
    have hthree : (rank .maxName).kind = 3 := rfl
    rcases rank_name_kind string with hkind | hkind <;> omega
  cases a with
  | minName =>
      cases b with
      | minName => decide
      | maxName => decide
      | name b => exact (order_of_kind_lt (hleast b)).1.symm
  | maxName =>
      cases b with
      | minName => decide
      | maxName => decide
      | name b => exact (order_of_kind_lt (hgreatest b)).2.symm
  | name a =>
      cases b with
      | minName => exact (order_of_kind_lt (hleast a)).2.symm
      | maxName => exact (order_of_kind_lt (hgreatest a)).1.symm
      | name b => exact compareNames_eq a b

instance : Std.TransCmp compareKey where
  eq_swap {a b} := by
    rw [compareKey_eq, compareKey_eq]
    exact Std.OrientedCmp.eq_swap
  isLE_trans {a b c} := by
    rw [compareKey_eq, compareKey_eq, compareKey_eq]
    exact Std.TransCmp.isLE_trans

/-! ## Keys which are not told apart -/

/-- Digits are determined by their number and the value they end in. -/
theorem readDigits_unique {first second : NSString} {start other value : ℕ}
    (hfirst : readDigits first start = some value)
    (hsecond : readDigits second other = some value)
    (hlength : first.length = second.length) :
    start = other ∧ first = second := by
  induction first generalizing second start other with
  | nil =>
      rw [List.length_nil, eq_comm, List.length_eq_zero_iff] at hlength
      subst hlength
      simp only [readDigits, Option.some.injEq] at hfirst hsecond
      exact ⟨hfirst.trans hsecond.symm, rfl⟩
  | cons c first ih =>
      cases second with
      | nil => contradiction
      | cons d second =>
          unfold readDigits at hfirst hsecond
          split at hfirst
          next => contradiction
          next hc =>
            split at hsecond
            next => contradiction
            next hd =>
              obtain ⟨hstart, hrest⟩ :=
                ih hfirst hsecond (by simpa using hlength)
              simp only [not_or, UInt16.not_lt, UInt16.le_iff_toNat_le]
                at hc hd
              have hcd : c.toNat = d.toNat := by
                have h48 : (48 : UInt16).toNat = 48 := rfl
                have h57 : (57 : UInt16).toNat = 57 := rfl
                omega
              refine ⟨by omega, ?_⟩
              rw [UInt16.toNat_inj.mp hcd, hrest]

theorem readInteger_of_tryParse {str : NSString} {value : ℤ}
    (hparse : tryParseStringToInt str = some value) :
    readInteger str = some value := by
  unfold tryParseStringToInt at hparse
  split at hparse
  next => contradiction
  next =>
    split at hparse
    next => contradiction
    next read hread =>
      split at hparse
      next => contradiction
      next => rw [hread, hparse]

/-- The digits behind a sign, or all of them. -/
theorem readInteger_cases {str : NSString} {value : ℤ}
    (hread : readInteger str = some value) :
    (∃ rest digits, str = 45 :: rest ∧ readDigits rest 0 = some digits ∧
        value = -(digits : ℤ)) ∨
      ∃ digits, readDigits str 0 = some digits ∧ value = (digits : ℤ) := by
  unfold readInteger at hread
  split at hread
  next => contradiction
  next c rest =>
    split at hread
    next hsign =>
      split at hread
      next => contradiction
      next =>
        obtain ⟨digits, hdigits, hvalue⟩ := Option.map_eq_some_iff.mp hread
        exact Or.inl ⟨rest, digits, by rw [hsign], hdigits, hvalue.symm⟩
    next =>
      obtain ⟨digits, hdigits, hvalue⟩ := Option.map_eq_some_iff.mp hread
      exact Or.inr ⟨digits, hdigits, hvalue.symm⟩

theorem readInteger_unique {a b : NSString} {value : ℤ}
    (ha : readInteger a = some value) (hb : readInteger b = some value)
    (hlength : a.length = b.length) : a = b ∨ value = 0 := by
  rcases readInteger_cases ha with
    ⟨aRest, aDigits, rfl, haDigits, haValue⟩ | ⟨aDigits, haDigits, haValue⟩
  · rcases readInteger_cases hb with
      ⟨bRest, bDigits, rfl, hbDigits, hbValue⟩ | ⟨bDigits, hbDigits, hbValue⟩
    · have hsame : aDigits = bDigits := by omega
      subst hsame
      have hrest := readDigits_unique haDigits hbDigits (by simpa using hlength)
      exact Or.inl (by rw [hrest.2])
    · exact Or.inr (by omega)
  · rcases readInteger_cases hb with
      ⟨bRest, bDigits, rfl, hbDigits, hbValue⟩ | ⟨bDigits, hbDigits, hbValue⟩
    · exact Or.inr (by omega)
    · have hsame : aDigits = bDigits := by omega
      subst hsame
      exact Or.inl (readDigits_unique haDigits hbDigits hlength).2

/-- Two keys have the same place when they are the same, or when both read as
zero and are of one length, as the keys `-0` and `00` are. -/
theorem compareNames_eq_iff (a b : NSString) :
    compareNames a b = .eq ↔
      a = b ∨
        (tryParseStringToInt a = some 0 ∧ tryParseStringToInt b = some 0) ∧
          a.length = b.length := by
  rw [compareNames_eq, Rank.order_eq]
  cases ha : tryParseStringToInt a with
  | none =>
      cases hb : tryParseStringToInt b with
      | none => simp [rank, ha, hb]
      | some bAsInt =>
          have hne : a ≠ b := by
            rintro rfl
            rw [ha] at hb
            contradiction
          simp [rank, ha, hb, Ordering.then_eq_eq, hne]
  | some aAsInt =>
      cases hb : tryParseStringToInt b with
      | none =>
          have hne : a ≠ b := by
            rintro rfl
            rw [hb] at ha
            contradiction
          simp [rank, ha, hb, Ordering.then_eq_eq, hne]
      | some bAsInt =>
          have hnil : compare ([] : NSString) [] = .eq := rfl
          simp only [rank, ha, hb, Ordering.then_eq_eq, compare_eq_iff_eq,
            hnil, true_and, and_true, Option.some.injEq]
          constructor
          · rintro ⟨rfl, hlength⟩
            rcases readInteger_unique (readInteger_of_tryParse ha)
                (readInteger_of_tryParse hb) hlength with hsame | hzero
            · exact Or.inl hsame
            · exact Or.inr ⟨⟨hzero, hzero⟩, hlength⟩
          · rintro (rfl | ⟨⟨hzeroA, hzeroB⟩, hlength⟩)
            · rw [ha, Option.some.injEq] at hb
              exact ⟨hb, rfl⟩
            · exact ⟨hzeroA.trans hzeroB.symm, hlength⟩

/-- The order of keys is total and transitive, and tells keys apart but for
zeros of one length. -/
theorem compareKey_order :
    (∀ a b, compareKey a b = (compareKey b a).swap) ∧
      (∀ a b c, (compareKey a b).isLE → (compareKey b c).isLE →
        (compareKey a c).isLE) ∧
      ∀ a b, compareKey (.name a) (.name b) = .eq ↔
        a = b ∨
          (tryParseStringToInt a = some 0 ∧
            tryParseStringToInt b = some 0) ∧ a.length = b.length :=
  ⟨fun _ _ => Std.OrientedCmp.eq_swap, fun _ _ _ => Std.TransCmp.isLE_trans,
    compareNames_eq_iff⟩

/-! ## Children with colliding keys -/

universe v

variable {β : Type v}

/-- The children of a node from the server, whose keys are distinct strings,
can be put into a dictionary unless two of them are zeros of one length. -/
theorem fromDictionary_error_iff (children : List (NSString × β))
    (hkeys : (children.map Prod.fst).Nodup) :
    FImmutableSortedDictionary.fromDictionary compareKey
        (children.map fun child => (FKey.name child.1, child.2)) =
          .error .sameOrdering ↔
      ∃ first ∈ children, ∃ second ∈ children, first.1 ≠ second.1 ∧
        (tryParseStringToInt first.1 = some 0 ∧
          tryParseStringToInt second.1 = some 0) ∧
        first.1.length = second.1.length := by
  have hcases := (FImmutableSortedDictionary.fromDictionary_holds_entries
    compareKey (children.map fun child => (FKey.name child.1, child.2))).2
  rw [List.pairwise_map] at hcases
  constructor
  · intro hfail
    rcases hcases with ⟨-, dict, hdict, -⟩ | ⟨hcollide, -⟩
    · rw [hfail] at hdict
      contradiction
    · by_contra hnone
      refine hcollide ((List.pairwise_map.mp hkeys).imp_of_mem ?_)
      intro first second hfirst hsecond hne heq
      rcases (compareNames_eq_iff first.1 second.1).mp heq with
        hsame | ⟨hzeros, hlength⟩
      · exact hne hsame
      · exact hnone ⟨first, hfirst, second, hsecond, hne, hzeros, hlength⟩
  · rintro ⟨first, hfirst, second, hsecond, hne, hzeros, hlength⟩
    rcases hcases with ⟨hdistinct, -⟩ | ⟨-, hfail⟩
    · have heq : compareKey (.name first.1) (.name second.1) = .eq :=
        (compareNames_eq_iff first.1 second.1).mpr (Or.inr ⟨hzeros, hlength⟩)
      have : Std.Symm fun first second : NSString × β =>
          compareKey (.name first.1) (.name second.1) ≠ .eq :=
        ⟨fun _ _ hne heq => hne (Std.OrientedCmp.eq_symm heq)⟩
      exact absurd heq (hdistinct.forall hfirst hsecond
        fun hsame => hne (congrArg Prod.fst hsame))
    · exact hfail

/-- The keys `-0` and `00`. -/
theorem fromDictionary_error_iff_zeros :
    FImmutableSortedDictionary.fromDictionary compareKey
        ([([45, 48], 1), ([48, 48], 2)].map fun child : NSString × ℕ =>
          (FKey.name child.1, child.2)) = .error .sameOrdering ↔
      ∃ first ∈ ([([45, 48], 1), ([48, 48], 2)] : List (NSString × ℕ)),
        ∃ second ∈ ([([45, 48], 1), ([48, 48], 2)] : List (NSString × ℕ)),
          first.1 ≠ second.1 ∧
          (tryParseStringToInt first.1 = some 0 ∧
            tryParseStringToInt second.1 = some 0) ∧
          first.1.length = second.1.length :=
  fromDictionary_error_iff [([45, 48], 1), ([48, 48], 2)] (by decide)

end FUtilities

end FirebaseDatabase
