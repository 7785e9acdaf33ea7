import Stockly.PercentEncoding

/-!
# Segments of a path

A percent-encoded path is read segment by segment: it is split at its slashes
and each piece is decoded.  A server may go on and resolve the dot segments,
which name the directory itself and the one above.
-/

namespace PathSegments

open PercentEncoding

def pieces (text : String) : List String :=
  (text.toList.splitOn '/').map String.ofList

/-- The decoded segments of an absolute path, if each of them decodes. -/
def segments (path : String) : Option (List String) :=
  match path.toList.splitOn '/' with
  | [] :: encoded =>
      encoded.mapM fun piece => (decode piece).map String.ofList
  | _ => none

/-- `stack` holds the segments resolved so far, the last one first.  A dot
segment at the end leaves the slash before it. -/
def resolveDots (stack : List String) : List String → List String
  | [] => stack.reverse
  | segment :: rest =>
      if segment = "." ∨ segment = ".." then
        let below := if segment = ".." then stack.tail else stack
        if rest = [] then ("" :: below).reverse else resolveDots below rest
      else resolveDots (segment :: stack) rest

/-- What the path asks for once its dot segments are resolved. -/
def resource (path : String) : Option (List String) :=
  (segments path).map (resolveDots [])

/-! ## Pieces -/

theorem pieces_append (first rest : String) :
    pieces (first ++ "/" ++ rest) = pieces first ++ pieces rest := by
  have htext : (first ++ "/" ++ rest).toList =
      first.toList ++ '/' :: rest.toList := by
    simp [String.toList_append]
  rw [pieces, htext, List.splitOn_append_cons_self, List.map_append]
  rfl

theorem pieces_of_notMem {text : String} (htext : '/' ∉ text.toList) :
    pieces text = [text] := by
  rw [pieces, List.splitOn_eq_singleton htext, List.map_singleton,
    String.ofList_toList]

theorem notMem_of_mem_splitOn {text piece : List Char} {mark : Char}
    (hpiece : piece ∈ text.splitOn mark) : mark ∉ piece := by
  induction text generalizing piece with
  | nil =>
      rw [List.splitOn_nil, List.mem_singleton] at hpiece
      simp [hpiece]
  | cons letter text ih =>
      rw [List.splitOn_cons_eq_if_modifyHead] at hpiece
      split at hpiece
      · rcases List.mem_cons.mp hpiece with rfl | hrest
        · exact List.not_mem_nil
        · exact ih hrest
      · next hletter =>
          have hne : mark ≠ letter := fun heq => hletter (by simp [heq])
          cases hsplit : text.splitOn mark with
          | nil =>
              rw [hsplit] at hpiece
              contradiction
          | cons first others =>
              rw [hsplit, List.modifyHead_cons] at hpiece
              rcases List.mem_cons.mp hpiece with rfl | hrest
              · have hfirst : mark ∉ first := ih (by simp [hsplit])
                exact List.not_mem_cons_of_ne_of_not_mem hne hfirst
              · exact ih (by simp [hsplit, hrest])

theorem notMem_of_mem_pieces {text piece : String}
    (hpiece : piece ∈ pieces text) : '/' ∉ piece.toList := by
  rcases List.mem_map.mp hpiece with ⟨letters, hletters, rfl⟩
  rw [String.toList_ofList]
  exact notMem_of_mem_splitOn hletters

theorem pieces_eq_singleton_iff {text : String} :
    pieces text = [text] ↔ '/' ∉ text.toList := by
  constructor
  · intro heq
    apply notMem_of_mem_pieces
    rw [heq]
    exact List.mem_singleton.mpr rfl
  · exact pieces_of_notMem

/-! ## Encoded paths -/

variable {allowed : Char → Bool}

theorem slash_notMem_encodeByte (byte : UInt8) : '/' ∉ encodeByte byte := by
  have hdigit : ∀ digit < 16, hexDigit digit ≠ '/' := by decide
  have hbyte : byte.toNat < 256 := byte.toNat_lt
  intro hmem
  rcases List.mem_cons.mp hmem with hpercent | hmem
  · contradiction
  · rcases List.mem_cons.mp hmem with hhigh | hmem
    · exact hdigit (byte.toNat / 16) (by omega) hhigh.symm
    · have hlow := List.mem_singleton.mp hmem
      exact hdigit (byte.toNat % 16) (by omega) hlow.symm

theorem mapM_decode (hpercent : allowed '%' = false)
    (texts : List (List Char)) :
    (texts.map (encode allowed)).mapM
        (fun piece => (decode piece).map String.ofList) =
      some (texts.map String.ofList) := by
  induction texts with
  | nil => rfl
  | cons text texts ih =>
      rw [List.map_cons, List.mapM_cons, decode_encode hpercent, ih]
      rfl

/-- The segments of an encoded path are the pieces of the path itself. -/
theorem segments_encode (hpercent : allowed '%' = false)
    (hslash : allowed '/' = true) (text : String) :
    segments (String.ofList (encode allowed ("/" ++ text).toList)) =
      some (pieces text) := by
  have htext : ("/" ++ text).toList = '/' :: text.toList := by
    simp [String.toList_append]
  rw [segments, String.toList_ofList,
    splitOn_encode hslash slash_notMem_encodeByte, htext,
    List.splitOn_cons_eq_if_modifyHead, if_pos (BEq.refl '/')]
  exact mapM_decode hpercent _

/-! ## Dot segments -/

def IsDots (segment : String) : Prop := segment = "." ∨ segment = ".."

instance (segment : String) : Decidable (IsDots segment) :=
  inferInstanceAs (Decidable (segment = "." ∨ segment = ".."))

theorem resolveDots_cons {segment : String} (hdots : ¬ IsDots segment)
    (stack rest : List String) :
    resolveDots stack (segment :: rest) =
      resolveDots (segment :: stack) rest := by
  rw [resolveDots]
  exact if_neg hdots

theorem resolveDots_append {front : List String}
    (hfront : ∀ segment ∈ front, ¬ IsDots segment)
    (stack rest : List String) :
    resolveDots stack (front ++ rest) =
      resolveDots (front.reverse ++ stack) rest := by
  induction front generalizing stack with
  | nil => rfl
  | cons segment front ih =>
      rcases List.forall_mem_cons.mp hfront with ⟨hsegment, hrest⟩
      rw [List.cons_append, resolveDots_cons hsegment, ih hrest,
        List.reverse_cons, List.append_assoc]
      rfl

theorem resolveDots_eq_self {segments : List String}
    (hsegments : ∀ segment ∈ segments, ¬ IsDots segment) :
    resolveDots [] segments = segments := by
  have happend := resolveDots_append hsegments [] []
  simpa [resolveDots] using happend

/-- No dot segment outlasts the resolution, so a law has to hold only of the
other segments and of the empty one. -/
theorem forall_resolveDots {law : String → Prop} (hempty : law "")
    {stack segments : List String} (hstack : ∀ segment ∈ stack, law segment)
    (hsegments : ∀ segment ∈ segments, ¬ IsDots segment → law segment) :
    ∀ segment ∈ resolveDots stack segments, law segment := by
  induction segments generalizing stack with
  | nil =>
      intro segment hsegment
      exact hstack segment (List.mem_reverse.mp hsegment)
  | cons first rest ih =>
      rcases List.forall_mem_cons.mp hsegments with ⟨hfirst, hrest⟩
      by_cases hdots : IsDots first
      · have hbelow : ∀ segment ∈ (if first = ".." then stack.tail else stack),
            law segment := by
          split
          · intro segment hsegment
            exact hstack segment (List.mem_of_mem_tail hsegment)
          · exact hstack
        have hresolve : resolveDots stack (first :: rest) =
            let below := if first = ".." then stack.tail else stack
            if rest = [] then ("" :: below).reverse
            else resolveDots below rest := by
          rw [resolveDots]
          exact if_pos hdots
        rw [hresolve]
        dsimp only
        split
        · intro segment hsegment
          apply List.forall_mem_cons.mpr ⟨hempty, hbelow⟩
          exact List.mem_reverse.mp hsegment
        · exact ih hbelow hrest
      · rw [resolveDots_cons hdots]
        exact ih (List.forall_mem_cons.mpr ⟨hfirst hdots, hstack⟩) hrest

end PathSegments
