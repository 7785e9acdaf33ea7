import Mathlib.Tactic

/-!
# Percent encoding

The characters outside an allowed set are written as the bytes of their UTF-8
form, each as a percent sign and two hexadecimal digits.  Reading an encoded
text gives the text back, and a separator which is allowed cuts an encoded
text where it cuts the text itself.
-/

namespace PercentEncoding

/-! ## Hexadecimal digits -/

def hexDigit (digit : ℕ) : Char :=
  if digit < 10 then Char.ofNat (48 + digit) else Char.ofNat (55 + digit)

def hexValue (letter : Char) : Option ℕ :=
  if '0' ≤ letter ∧ letter ≤ '9' then some (letter.toNat - 48)
  else if 'A' ≤ letter ∧ letter ≤ 'F' then some (letter.toNat - 55)
  else if 'a' ≤ letter ∧ letter ≤ 'f' then some (letter.toNat - 87)
  else none

theorem hexValue_hexDigit :
    ∀ digit < 16, hexValue (hexDigit digit) = some digit := by
  decide

/-! ## Encoding -/

variable (allowed : Char → Bool)

def encodeByte (byte : UInt8) : List Char :=
  ['%', hexDigit (byte.toNat / 16), hexDigit (byte.toNat % 16)]

def encodeChar (letter : Char) : List Char :=
  if allowed letter then [letter]
  else (String.utf8EncodeChar letter).flatMap encodeByte

def encode (text : List Char) : List Char :=
  text.flatMap (encodeChar allowed)

/-! ## Decoding -/

/-- The bytes which an encoded text stands for; an escape that is cut short
or has other digits stands for nothing. -/
def decodeBytes : List Char → Option (List UInt8)
  | [] => some []
  | letter :: rest =>
      if letter = '%' then
        match rest with
        | high :: low :: rest =>
            match hexValue high, hexValue low with
            | some high, some low =>
                (decodeBytes rest).map fun bytes =>
                  UInt8.ofNat (16 * high + low) :: bytes
            | _, _ => none
        | _ => none
      else
        (decodeBytes rest).map fun bytes =>
          String.utf8EncodeChar letter ++ bytes

def decode (text : List Char) : Option (List Char) :=
  (decodeBytes text).bind fun bytes =>
    bytes.toByteArray.utf8Decode?.map Array.toList

theorem decodeBytes_letter {letter : Char} (hletter : letter ≠ '%')
    (rest : List Char) :
    decodeBytes (letter :: rest) =
      (decodeBytes rest).map fun bytes =>
        String.utf8EncodeChar letter ++ bytes := by
  rw [decodeBytes.eq_def]
  exact if_neg hletter

theorem decodeBytes_encodeByte (byte : UInt8) (rest : List Char) :
    decodeBytes (encodeByte byte ++ rest) =
      (decodeBytes rest).map fun bytes => byte :: bytes := by
  have hbyte : byte.toNat < 256 := byte.toNat_lt
  have hhigh : byte.toNat / 16 < 16 := by omega
  have hlow : byte.toNat % 16 < 16 := by omega
  have hsum : 16 * (byte.toNat / 16) + byte.toNat % 16 = byte.toNat := by
    omega
  simp only [encodeByte, List.cons_append, List.nil_append, decodeBytes,
    if_true, hexValue_hexDigit _ hhigh, hexValue_hexDigit _ hlow, hsum,
    UInt8.ofNat_toNat]

theorem decodeBytes_encodeBytes (bytes : List UInt8) (rest : List Char) :
    decodeBytes (bytes.flatMap encodeByte ++ rest) =
      (decodeBytes rest).map fun others => bytes ++ others := by
  induction bytes with
  | nil => simp
  | cons byte bytes ih =>
      rw [List.flatMap_cons, List.append_assoc, decodeBytes_encodeByte, ih,
        Option.map_map]
      rfl

variable {allowed}

theorem decodeBytes_encodeChar (hpercent : allowed '%' = false)
    (letter : Char) (rest : List Char) :
    decodeBytes (encodeChar allowed letter ++ rest) =
      (decodeBytes rest).map fun bytes =>
        String.utf8EncodeChar letter ++ bytes := by
  by_cases hletter : allowed letter = true
  · have hne : letter ≠ '%' := by
      rintro rfl
      rw [hpercent] at hletter
      contradiction
    rw [encodeChar, if_pos hletter, List.singleton_append,
      decodeBytes_letter hne]
  · rw [encodeChar, if_neg hletter, decodeBytes_encodeBytes]

theorem decodeBytes_encode (hpercent : allowed '%' = false)
    (text : List Char) :
    decodeBytes (encode allowed text) =
      some (text.flatMap String.utf8EncodeChar) := by
  induction text with
  | nil => rfl
  | cons letter text ih =>
      rw [encode] at ih
      rw [encode, List.flatMap_cons, decodeBytes_encodeChar hpercent, ih,
        Option.map_some, List.flatMap_cons]

theorem decode_encode (hpercent : allowed '%' = false) (text : List Char) :
    decode (encode allowed text) = some text := by
  have hutf8 : (text.flatMap String.utf8EncodeChar).toByteArray =
      text.utf8Encode := rfl
  rw [decode, decodeBytes_encode hpercent, Option.bind_some, hutf8,
    List.utf8Decode?_utf8Encode]
  rfl

theorem encode_injective (hpercent : allowed '%' = false) :
    Function.Injective (encode allowed) := by
  intro first second heq
  have hdecode : some first = some second := by
    rw [← decode_encode hpercent first, heq, decode_encode hpercent]
  exact Option.some.inj hdecode

/-! ## Separators -/

theorem splitOn_append {mark : Char} {front : List Char}
    (hfront : mark ∉ front) (rest : List Char) :
    (front ++ rest).splitOn mark =
      (rest.splitOn mark).modifyHead fun piece => front ++ piece := by
  induction front with
  | nil =>
      cases hsplit : rest.splitOn mark <;> simp [hsplit]
  | cons letter front ih =>
      rcases not_or.mp (List.mem_cons.not.mp hfront) with ⟨hne, hrest⟩
      have hletter : ¬ (letter == mark) = true := by
        simpa using fun heq : letter = mark => hne heq.symm
      rw [List.cons_append, List.splitOn_cons_eq_if_modifyHead,
        if_neg hletter, ih hrest]
      cases rest.splitOn mark <;> rfl

theorem notMem_encodeChar {mark letter : Char}
    (hdigits : ∀ byte, mark ∉ encodeByte byte) (hletter : letter ≠ mark) :
    mark ∉ encodeChar allowed letter := by
  intro hmem
  unfold encodeChar at hmem
  split at hmem
  · exact hletter (List.mem_singleton.mp hmem).symm
  · rcases List.mem_flatMap.mp hmem with ⟨byte, -, hbyte⟩
    exact hdigits byte hbyte

theorem splitOn_encode {mark : Char} (hmark : allowed mark = true)
    (hdigits : ∀ byte, mark ∉ encodeByte byte) (text : List Char) :
    (encode allowed text).splitOn mark =
      (text.splitOn mark).map (encode allowed) := by
  induction text with
  | nil => rfl
  | cons letter text ih =>
      rw [encode, List.flatMap_cons, ← encode]
      by_cases hletter : letter = mark
      · subst hletter
        have hself : encodeChar allowed letter = [letter] := by
          rw [encodeChar, if_pos hmark]
        rw [hself, List.singleton_append,
          List.splitOn_cons_eq_if_modifyHead,
          List.splitOn_cons_eq_if_modifyHead, if_pos (BEq.refl letter),
          if_pos (BEq.refl letter), ih]
        rfl
      · have hne : ¬ (letter == mark) = true := by simpa using hletter
        rw [splitOn_append (notMem_encodeChar hdigits hletter), ih,
          List.splitOn_cons_eq_if_modifyHead, if_neg hne]
        cases text.splitOn mark with
        | nil => rfl
        | cons piece pieces =>
            simp only [List.map_cons, List.modifyHead_cons, encode,
              List.flatMap_cons]

end PercentEncoding
