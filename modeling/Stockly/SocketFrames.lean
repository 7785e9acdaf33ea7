import Stockly.FWebSocketConnection

/-!
# Which messages arrive

A number of segments with more than four digits is taken for a message, and a
segment which ends between the halves of a surrogate pair is dropped, so that
the connection waits for it with the frames of later messages.  All other
messages arrive as they were sent.
-/

namespace FirebaseDatabase

namespace FWebSocketConnection

open FUtilities

/-- The text of a dictionary in JSON, whose first character is a brace. -/
structure DictionaryText (data : NSString) : Prop where
  opens : data.head? = some 123
  wellFormed : Utf16.wellFormed data = true

/-- The number of segments has four digits at most, and no segment ends
between the halves of a pair. -/
def Arrives (data : NSString) : Prop :=
  data.length ≤ 9999 * kWebsocketMaxFrameSize ∧
    ∀ segment ∈ splitString data kWebsocketMaxFrameSize,
      Utf16.endsHigh segment = false

instance (data : NSString) : Decidable (Arrives data) := by
  unfold Arrives
  infer_instance

/-! ## Receiving -/

theorem receive_append (self : FWebSocketConnection)
    (before after : List NSString) :
    self.receive (before ++ after) = (self.receive before).receive after :=
  List.foldl_append

theorem receive_cons (self : FWebSocketConnection) (frame : NSString)
    (frames : List NSString) :
    self.receive (frame :: frames) =
      (self.handleIncomingFrame frame).receive frames := rfl

theorem appendFrame_of_one {self : FWebSocketConnection} {buffer : NSString}
    (hframe : self.frame = some buffer) (hlast : self.totalFrames = 1)
    (message : NSString) :
    self.appendFrame message =
      idle (self.received ++ [buffer ++ message]) := by
  unfold appendFrame idle
  simp [hframe, hlast]

theorem appendFrame_of_more {self : FWebSocketConnection} {buffer : NSString}
    (hframe : self.frame = some buffer) (hmore : 1 < self.totalFrames)
    (message : NSString) :
    self.appendFrame message =
      ⟨some (buffer ++ message), self.totalFrames - 1, self.received⟩ := by
  have hnotLast : ¬ self.totalFrames - 1 = 0 := by omega
  unfold appendFrame
  simp [hframe, hnotLast]

theorem handleIncomingFrame_of_some {self : FWebSocketConnection}
    {buffer : NSString} (hframe : self.frame = some buffer)
    (message : NSString) :
    self.handleIncomingFrame message = self.appendFrame message := by
  unfold handleIncomingFrame
  rw [hframe]

/-- Fewer frames than announced are kept. -/
theorem receive_fewer (frames : List NSString) (buffer : NSString)
    (totalFrames : ℤ) (received : List NSString)
    (hfewer : (frames.length : ℤ) < totalFrames) :
    receive ⟨some buffer, totalFrames, received⟩ frames =
      ⟨some (buffer ++ frames.flatten), totalFrames - frames.length,
        received⟩ := by
  induction frames generalizing buffer totalFrames with
  | nil => simp [receive]
  | cons frame frames ih =>
      rw [List.length_cons] at hfewer
      push_cast at hfewer
      rw [receive_cons, handleIncomingFrame_of_some rfl,
        appendFrame_of_more rfl (by dsimp only; omega)]
      dsimp only
      rw [ih (buffer ++ frame) (totalFrames - 1) (by omega),
        List.flatten_cons, List.append_assoc, List.length_cons]
      congr 1
      push_cast
      ring

theorem receive_all {frames : List NSString} (hnonempty : frames ≠ [])
    (received : List NSString) :
    receive ⟨some [], frames.length, received⟩ frames =
      idle (received ++ [frames.flatten]) := by
  obtain ⟨before, last, rfl⟩ :=
    (List.eq_nil_or_concat frames).resolve_left hnonempty
  rw [List.concat_eq_append, List.length_append, List.length_singleton,
    receive_append, receive_fewer before [] _ received (by push_cast; omega), receive_cons,
    handleIncomingFrame_of_some rfl,
    appendFrame_of_one rfl (by dsimp only; push_cast; ring)]
  simp [receive]

theorem handleIncomingFrame_number {number : ℕ} (hpositive : 0 < number)
    (hfour : number ≤ 9999) (received : List NSString) :
    (idle received).handleIncomingFrame (unsignedText number) =
      ⟨some [], number, received⟩ := by
  have hshort := (length_unsignedText_le_iff number).mpr hfour
  have hvalue := intValue_unsignedText number
  have hnumber : (unsignedText number).length ≤ 4 ∧
      0 < NSString.intValue (unsignedText number) := by
    rw [hvalue]
    exact ⟨hshort, by exact_mod_cast hpositive⟩
  unfold handleIncomingFrame extractFrameCount idle
  simp only [hnumber, and_self, if_true]
  rw [hvalue]
  rfl

theorem handleIncomingFrame_text {message : NSString}
    (hnot : ¬ (message.length ≤ 4 ∧ 0 < NSString.intValue message))
    (received : List NSString) :
    (idle received).handleIncomingFrame message =
      idle (received ++ [message]) := by
  have hcounted : ((idle received).handleNewFrameCount 1).frame =
      some [] := rfl
  have hone := appendFrame_of_one hcounted rfl message
  unfold handleIncomingFrame extractFrameCount
  rw [if_neg hnot]
  exact hone

theorem received_prefix_appendFrame (self : FWebSocketConnection)
    (message : NSString) :
    self.received <+: (self.appendFrame message).received := by
  unfold appendFrame
  dsimp only
  split
  next => exact List.prefix_append _ _
  next => exact List.prefix_refl _

theorem received_prefix_receive (self : FWebSocketConnection)
    (frames : List NSString) :
    self.received <+: (self.receive frames).received := by
  induction frames generalizing self with
  | nil => exact List.prefix_refl _
  | cons frame frames ih =>
      refine List.IsPrefix.trans ?_ (ih (self.handleIncomingFrame frame))
      unfold handleIncomingFrame extractFrameCount
      split
      next => exact received_prefix_appendFrame self frame
      next =>
        split
        next heq =>
          split at heq
          next =>
            obtain ⟨rfl, -⟩ := Prod.mk.inj heq
            exact List.prefix_refl _
          next => simp at heq
        next heq =>
          split at heq
          next => simp at heq
          next =>
            obtain ⟨rfl, -⟩ := Prod.mk.inj heq
            exact received_prefix_appendFrame (self.handleNewFrameCount 1) _

/-! ## Sending and receiving -/

section Messages

variable {data : NSString}

theorem notNumber_of_opens (hopens : data.head? = some 123) :
    NSString.intValue data = 0 := by
  obtain ⟨rest, rfl⟩ := List.head?_eq_some_iff.mp hopens
  rw [NSString.intValue_cons (by decide) (by decide) (by decide)]
  rfl

theorem unsignedText_ne (hopens : data.head? = some 123) (number : ℕ) :
    unsignedText number ≠ data := by
  rintro rfl
  have hvalue := notNumber_of_opens hopens
  rw [intValue_unsignedText] at hvalue
  have hzero : number = 0 := by exact_mod_cast hvalue
  rw [hzero] at hopens
  exact absurd hopens (by decide)

theorem frameSize_pos : 0 < kWebsocketMaxFrameSize := by decide

theorem flatten_segments (data : NSString) :
    (splitString data kWebsocketMaxFrameSize).flatten = data :=
  flatten_splitString frameSize_pos data

theorem length_segments_le_iff (data : NSString) :
    (splitString data kWebsocketMaxFrameSize).length ≤ 9999 ↔
      data.length ≤ 9999 * kWebsocketMaxFrameSize :=
  length_splitString_le_iff frameSize_pos (by omega) data

theorem segments_of_one
    (hone : ¬ 1 < (splitString data kWebsocketMaxFrameSize).length) :
    splitString data kWebsocketMaxFrameSize = [data] := by
  have hshort : data.length ≤ kWebsocketMaxFrameSize := by
    by_contra hlong
    exact hone (one_lt_length_splitString frameSize_pos (by omega))
  unfold splitString
  rw [if_pos hshort]

/-- What the socket sends of a message in several segments. -/
theorem transmitted_of_many
    (hmany : 1 < (splitString data kWebsocketMaxFrameSize).length) :
    transmitted (framesOf data) =
      unsignedText (splitString data kWebsocketMaxFrameSize).length ::
        (splitString data kWebsocketMaxFrameSize).filter
          Utf16.wellFormed := by
  unfold transmitted framesOf
  dsimp only
  rw [if_pos hmany, List.singleton_append, List.filter_cons_of_pos
    (wellFormed_unsignedText _)]

theorem transmitted_of_one (htext : DictionaryText data)
    (hone : ¬ 1 < (splitString data kWebsocketMaxFrameSize).length) :
    transmitted (framesOf data) = [data] := by
  unfold transmitted framesOf
  dsimp only
  rw [if_neg hone, segments_of_one hone, List.nil_append,
    List.filter_cons_of_pos htext.wellFormed]
  rfl

theorem wellFormed_segments_iff (htext : DictionaryText data) :
    (∀ segment ∈ splitString data kWebsocketMaxFrameSize,
      Utf16.wellFormed segment = true) ↔
      ∀ segment ∈ splitString data kWebsocketMaxFrameSize,
        Utf16.endsHigh segment = false := by
  apply Utf16.wellFormed_parts_iff
  rw [flatten_segments]
  exact htext.wellFormed

theorem receive_framesOf (htext : DictionaryText data)
    (harrives : Arrives data) (received : List NSString) :
    (idle received).receive (transmitted (framesOf data)) =
      idle (received ++ [data]) := by
  by_cases hmany : 1 < (splitString data kWebsocketMaxFrameSize).length
  · have hfour := (length_segments_le_iff data).mpr harrives.1
    have hwhole := (wellFormed_segments_iff htext).mpr harrives.2
    have hnonempty : splitString data kWebsocketMaxFrameSize ≠ [] := by
      intro hnil
      rw [hnil] at hmany
      exact absurd hmany (by decide)
    rw [transmitted_of_many hmany, List.filter_eq_self.mpr hwhole,
      receive_cons, handleIncomingFrame_number (by omega) hfour,
      receive_all hnonempty, flatten_segments]
  · have hnot : ¬ (data.length ≤ 4 ∧ 0 < NSString.intValue data) := by
      rw [notNumber_of_opens htext.opens]
      exact fun hboth => absurd hboth.2 (lt_irrefl 0)
    rw [transmitted_of_one htext hmany, receive_cons,
      handleIncomingFrame_text hnot]
    rfl

/-- The number of the segments is taken for a message, and the segments are
read without it. -/
theorem receive_of_tooMany
    (hmany : 9999 < (splitString data kWebsocketMaxFrameSize).length)
    (received : List NSString) :
    (idle received).receive (transmitted (framesOf data)) =
      (idle (received ++ [unsignedText
        (splitString data kWebsocketMaxFrameSize).length])).receive
          ((splitString data kWebsocketMaxFrameSize).filter
            Utf16.wellFormed) := by
  have hlong : ¬ ((unsignedText (splitString data
      kWebsocketMaxFrameSize).length).length ≤ 4 ∧
        0 < NSString.intValue (unsignedText (splitString data
          kWebsocketMaxFrameSize).length)) := by
    rw [length_unsignedText_le_iff]
    omega
  rw [transmitted_of_many (by omega), receive_cons,
    handleIncomingFrame_text hlong]

theorem received_of_tooMany
    (hmany : 9999 < (splitString data kWebsocketMaxFrameSize).length)
    (received : List NSString) :
    received ++ [unsignedText
      (splitString data kWebsocketMaxFrameSize).length] <+:
        ((idle received).receive (transmitted (framesOf data))).received := by
  rw [receive_of_tooMany hmany]
  exact received_prefix_receive (idle (received ++ [unsignedText
    (splitString data kWebsocketMaxFrameSize).length])) _

theorem received_ne_of_tooMany
    (hmany : 9999 < (splitString data kWebsocketMaxFrameSize).length)
    (hopens : data.head? = some 123) (received : List NSString) :
    ((idle received).receive (transmitted (framesOf data))).received ≠
      received ++ [data] := by
  intro heq
  have hprefix := received_of_tooMany hmany received
  rw [heq] at hprefix
  have hsame := hprefix.eq_of_length (by simp)
  have hlast := List.append_cancel_left hsame
  exact unsignedText_ne hopens _ (List.singleton_inj.mp hlast)

theorem length_kept_lt {segment : NSString}
    (hsegment : segment ∈ splitString data kWebsocketMaxFrameSize)
    (hbroken : Utf16.wellFormed segment = false) :
    ((splitString data kWebsocketMaxFrameSize).filter
      Utf16.wellFormed).length <
        (splitString data kWebsocketMaxFrameSize).length := by
  rw [List.length_filter_lt_length_iff_exists]
  exact ⟨segment, hsegment, by simp [hbroken]⟩

/-- The connection waits for the segments which were dropped. -/
theorem receive_of_dropped
    (hmany : 1 < (splitString data kWebsocketMaxFrameSize).length)
    (hfour : (splitString data kWebsocketMaxFrameSize).length ≤ 9999)
    {segment : NSString}
    (hsegment : segment ∈ splitString data kWebsocketMaxFrameSize)
    (hbroken : Utf16.wellFormed segment = false)
    (received : List NSString) :
    (idle received).receive (transmitted (framesOf data)) =
      ⟨some ((splitString data kWebsocketMaxFrameSize).filter
          Utf16.wellFormed).flatten,
        (splitString data kWebsocketMaxFrameSize).length -
          ((splitString data kWebsocketMaxFrameSize).filter
            Utf16.wellFormed).length,
        received⟩ := by
  have hfewer := length_kept_lt hsegment hbroken
  rw [transmitted_of_many hmany, receive_cons,
    handleIncomingFrame_number (by omega) hfour,
    receive_fewer _ _ _ _ (by exact_mod_cast hfewer), List.nil_append]

/-- What does not arrive has too many segments or a broken one. -/
theorem broken_of_not_arrives (htext : DictionaryText data)
    (hfour : (splitString data kWebsocketMaxFrameSize).length ≤ 9999)
    (hnot : ¬ Arrives data) :
    1 < (splitString data kWebsocketMaxFrameSize).length ∧
      ∃ segment ∈ splitString data kWebsocketMaxFrameSize,
        Utf16.wellFormed segment = false := by
  have hbroken : ∃ segment ∈ splitString data kWebsocketMaxFrameSize,
      Utf16.wellFormed segment = false := by
    by_contra hwhole
    simp only [not_exists, not_and, Bool.not_eq_false] at hwhole
    exact hnot ⟨(length_segments_le_iff data).mp hfour,
      (wellFormed_segments_iff htext).mp hwhole⟩
  refine ⟨?_, hbroken⟩
  by_contra hone
  obtain ⟨segment, hsegment, hfalse⟩ := hbroken
  rw [segments_of_one hone, List.mem_singleton] at hsegment
  rw [hsegment, htext.wellFormed] at hfalse
  contradiction

theorem receive_framesOf_iff (htext : DictionaryText data)
    (received : List NSString) :
    ((idle received).receive (transmitted (framesOf data))).received =
      received ++ [data] ↔ Arrives data := by
  constructor
  · intro heq
    have hfour : (splitString data kWebsocketMaxFrameSize).length ≤ 9999 := by
      by_contra hmany
      exact received_ne_of_tooMany (by omega) htext.opens received heq
    by_contra hnot
    obtain ⟨hmany, segment, hsegment, hbroken⟩ :=
      broken_of_not_arrives htext hfour hnot
    rw [receive_of_dropped hmany hfour hsegment hbroken received] at heq
    simp at heq
  · intro harrives
    rw [receive_framesOf htext harrives]
    rfl

theorem receive_messages {messages : List NSString}
    (htexts : ∀ data ∈ messages, DictionaryText data)
    (harrive : ∀ data ∈ messages, Arrives data)
    (received : List NSString) :
    (idle received).receive
      (messages.flatMap fun data => transmitted (framesOf data)) =
        idle (received ++ messages) := by
  induction messages generalizing received with
  | nil => simp [receive]
  | cons data messages ih =>
      rw [List.flatMap_cons, receive_append,
        receive_framesOf (htexts data List.mem_cons_self)
          (harrive data List.mem_cons_self),
        ih (fun other hother => htexts other (List.mem_cons_of_mem _ hother))
          (fun other hother => harrive other (List.mem_cons_of_mem _ hother)),
        List.append_assoc, List.singleton_append]

/-- Behind messages which have arrived, a message arrives exactly when it is
not too long and no segment of it ends between the halves of a pair.  The
number of its segments is taken for a message if it is too long; otherwise
nothing is taken, and the connection waits for as many frames as were
dropped. -/
theorem arrives_iff {earlier : List NSString}
    (htexts : ∀ data ∈ earlier, DictionaryText data)
    (harrived : ∀ data ∈ earlier, Arrives data)
    (htext : DictionaryText data) {after : FWebSocketConnection}
    (hafter : (idle []).receive ((earlier ++ [data]).flatMap
      fun data => transmitted (framesOf data)) = after) :
    (after.received = earlier ++ [data] ↔ Arrives data) ∧
    (9999 * kWebsocketMaxFrameSize < data.length →
      earlier ++ [unsignedText
        (splitString data kWebsocketMaxFrameSize).length] <+:
          after.received) ∧
    (data.length ≤ 9999 * kWebsocketMaxFrameSize → ¬ Arrives data →
      after.received = earlier ∧ after.frame.isSome ∧
        after.totalFrames =
          ((splitString data kWebsocketMaxFrameSize).countP fun segment =>
            !Utf16.wellFormed segment : ℕ) ∧
        0 < after.totalFrames) := by
  rw [List.flatMap_append, receive_append, receive_messages htexts harrived,
    List.nil_append, List.flatMap_singleton] at hafter
  subst hafter
  refine ⟨receive_framesOf_iff htext earlier, fun hlong => ?_,
    fun hfour hnot => ?_⟩
  · apply received_of_tooMany
    have hmany := mt (length_segments_le_iff data).mp (by omega)
    omega
  · rw [← length_segments_le_iff] at hfour
    obtain ⟨hmany, segment, hsegment, hbroken⟩ :=
      broken_of_not_arrives htext hfour hnot
    have hfewer := length_kept_lt hsegment hbroken
    have hsplit : (splitString data kWebsocketMaxFrameSize).length =
        ((splitString data kWebsocketMaxFrameSize).filter
          Utf16.wellFormed).length +
        ((splitString data kWebsocketMaxFrameSize).filter fun segment =>
          !Utf16.wellFormed segment).length :=
      List.length_eq_length_filter_add _
    rw [receive_of_dropped hmany hfour hsegment hbroken earlier,
      List.countP_eq_length_filter]
    refine ⟨rfl, rfl, ?_, ?_⟩
    · dsimp only
      omega
    · dsimp only
      omega

end Messages

/-- A pair stands where the first segment ends. -/
def cutPair : NSString :=
  (123 :: (List.replicate 16382 97 ++ [0xD83D])) ++ [0xDE00, 125]

theorem dictionaryText_cutPair : DictionaryText cutPair := by
  refine ⟨rfl, ?_⟩
  have hsplit : cutPair =
      (123 :: List.replicate 16382 97) ++ [0xD83D, 0xDE00, 125] := by
    unfold cutPair
    rw [List.cons_append, List.cons_append, List.append_assoc,
      List.singleton_append]
  have hplain : Utf16.wellFormed (123 :: List.replicate 16382 97) =
      true := by
    apply Utf16.wellFormed_of_plain
    intro unit hunit
    rcases List.mem_cons.mp hunit with rfl | hrest
    · decide
    · rw [List.eq_of_mem_replicate hrest]
      decide
  rw [hsplit, Utf16.wellFormed_append hplain]
  decide

theorem not_arrives_cutPair : ¬ Arrives cutPair := by
  intro harrives
  have hlength : (123 :: (List.replicate 16382 97 ++ [0xD83D]) :
      NSString).length = kWebsocketMaxFrameSize := by
    rw [List.length_cons, List.length_append, List.length_replicate]
    rfl
  have hlong : kWebsocketMaxFrameSize < cutPair.length := by
    unfold cutPair
    rw [List.length_append, hlength]
    exact Nat.lt_add_of_pos_right (by decide)
  have hfirst := harrives.2 _ (take_mem_splitString hlong)
  unfold cutPair at hfirst
  rw [List.take_left' hlength, Utf16.endsHigh, ← List.cons_append,
    List.getLast?_concat] at hfirst
  exact absurd hfirst (by decide)

theorem arrives_iff_cutPair :
    ((idle []).receive (([[123, 125]] ++ [cutPair]).flatMap
      fun data => transmitted (framesOf data))).received = [[123, 125]] ∧
    0 < ((idle []).receive (([[123, 125]] ++ [cutPair]).flatMap
      fun data => transmitted (framesOf data))).totalFrames := by
  have htext : ∀ data ∈ [[123, 125]], DictionaryText data := by
    intro data hdata
    rw [List.mem_singleton.mp hdata]
    exact ⟨rfl, by decide⟩
  have harrived : ∀ data ∈ [[123, 125]], Arrives data := by
    intro data hdata
    rw [List.mem_singleton.mp hdata]
    decide
  obtain ⟨-, -, hdropped⟩ :=
    arrives_iff htext harrived dictionaryText_cutPair rfl
  have hshort : cutPair.length ≤ 9999 * kWebsocketMaxFrameSize := by
    unfold cutPair
    rw [List.length_append, List.length_cons, List.length_append,
      List.length_replicate]
    decide
  obtain ⟨hreceived, -, -, hwaiting⟩ := hdropped hshort not_arrives_cutPair
  exact ⟨hreceived, hwaiting⟩

end FWebSocketConnection

end FirebaseDatabase
