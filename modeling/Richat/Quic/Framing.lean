import Richat.Quic.ByteStreams

/-!
# Frames on a byte stream

A task writes the bytes of its frame in order, however many of them the stream takes at a time, and never runs out of
buffers. A reader that is polled takes the next frame if all its bytes have arrived, and else everything there is.
-/

namespace Richat.Quic

open Lib Lib.Protobuf

/-! ### What a frame is -/

namespace Frame

def id : Frame Bytes → ℕ
  | message msgId _ => msgId
  | close _ => closeId

def payload : Frame Bytes → Bytes
  | message _ data => data
  | close error => WireMessage.encodeRaw (⟨Int32.ofInt error⟩ : QuicSubscribeClose)

def bytes (frame : Frame Bytes) : Bytes := toBe 8 frame.id ++ toBe 8 frame.payload.length ++ frame.payload

/-- What a reader returns for the frame. -/
def read : Frame Bytes → ReaderPoll Bytes
  | message msgId data => .message msgId data
  | close error => .error (.ofClose error)

/-- A vector holds the message, which is not empty, and its id is not the one of a close frame. -/
def Fits : Frame Bytes → Prop
  | message msgId data => msgId < closeId ∧ data ≠ [] ∧ data.length < 2 ^ 64
  | close error => ∃ e, error = closeError e

end Frame

/-! ### Writing -/

namespace WriteVectored

/-- The last buffer has bytes. -/
def Live (buffers : List Bytes) : Prop := ∀ buffer ∈ buffers.getLast?, buffer ≠ []

theorem Live.tail {buffer : Bytes} {buffers : List Bytes} (h : Live (buffer :: buffers)) : Live buffers := by
  intro last hlast
  refine h last ?_
  rw [List.getLast?_cons, Option.mem_def.mp hlast]
  rfl

theorem Live.flatten_ne_nil {buffers : List Bytes} (h : Live buffers) (hne : buffers ≠ []) : buffers.flatten ≠ [] := by
  have hlast := List.getLast?_eq_some_getLast hne
  have hnonempty := h _ hlast
  intro hnil
  exact hnonempty (List.flatten_eq_nil_iff.mp hnil _ (List.getLast_mem hne))

theorem advance_eq : ∀ {buffers : List Bytes} {n : ℕ}, Live buffers → n ≤ buffers.flatten.length →
    ∃ buffers', advance buffers n = some buffers' ∧ buffers'.flatten = buffers.flatten.drop n ∧ Live buffers'
  | [], n, _, hn => by
    obtain rfl := Nat.le_zero.mp hn
    exact ⟨[], rfl, rfl, by rintro _ ⟨⟩⟩
  | buffer :: buffers, n, hlive, hn => by
    rw [List.flatten_cons, List.length_append] at hn
    unfold advance
    split
    · rename_i hzero
      subst hzero
      exact ⟨_, rfl, rfl, hlive⟩
    · split
      · rename_i hle
        obtain ⟨buffers', hadvance, hflatten, hlive'⟩ := advance_eq hlive.tail (n := n - buffer.length) (by omega)
        refine ⟨buffers', hadvance, ?_, hlive'⟩
        rw [hflatten, List.flatten_cons, List.drop_append, List.drop_of_length_le hle, List.nil_append]
      · rename_i hlt
        refine ⟨_, rfl, ?_, ?_⟩
        · rw [List.flatten_cons, List.flatten_cons, List.drop_append_of_le_length (by omega)]
        · intro last hlast
          cases buffers with
          | nil =>
            have hdrop : buffer.drop n = last := Option.some.inj hlast
            rw [← hdrop, Ne, List.drop_eq_nil_iff]
            omega
          | cons next rest => exact hlive last (by simpa using hlast)

end WriteVectored

namespace WriteTask

/-- A task that goes on has bytes to write. -/
def Live : WriteTask → Prop
  | vectored buffers => WriteVectored.Live buffers
  | all _ => True

theorem remaining_of_isDone {task : WriteTask} (h : task.isDone) : task.remaining = [] := by
  cases task with
  | vectored buffers =>
    rw [isDone, List.isEmpty_iff] at h
    rw [h]
    rfl
  | all bytes => exact List.isEmpty_iff.mp h

theorem isDone_iff {task : WriteTask} (h : task.Live) : task.isDone ↔ task.remaining = [] := by
  refine ⟨remaining_of_isDone, fun hnil => ?_⟩
  cases task with
  | vectored buffers =>
    by_contra hne
    rw [isDone, List.isEmpty_iff] at hne
    exact h.flatten_ne_nil hne hnil
  | all bytes => exact List.isEmpty_iff.mpr hnil

/-- The stream takes some bytes of the task. -/
theorem write_cases {task : WriteTask} (h : task.Live) (n : ℕ) : task.write n = .error .idle ∨
    ∃ task', task.write n = .ok task' ∧ task'.remaining = task.remaining.drop n ∧ task'.Live := by
  unfold write
  split
  · exact .inl rfl
  · rename_i hn
    obtain ⟨hgo, hle, hpos⟩ : ¬task.isDone ∧ n ≤ task.remaining.length ∧ n ≠ 0 := by
      refine ⟨fun hdone => hn (.inl hdone), not_lt.mp fun hlt => hn (.inr (.inl hlt)), fun hzero => hn (.inr (.inr ?_))⟩
      exact ⟨hzero, fun hnil => hn (.inl ((isDone_iff h).mpr hnil))⟩
    right
    cases task with
    | vectored buffers =>
      obtain ⟨buffers', hadvance, hflatten, hlive⟩ := WriteVectored.advance_eq h hle
      refine ⟨vectored buffers', ?_, hflatten, hlive⟩
      simp only [WriteVectored.written, if_neg hpos, hadvance]
      rfl
    | all bytes => exact ⟨_, rfl, rfl, trivial⟩

end WriteTask

theorem Frame.remaining_task (frame : Frame Bytes) : frame.task.remaining = frame.bytes := by
  cases frame with
  | message msgId data =>
    simp [task, WriteTask.remaining, bytes, id, payload]
  | close error => rfl

theorem Frame.live_task {frame : Frame Bytes} (h : frame.Fits) : frame.task.Live := by
  cases frame with
  | message msgId data =>
    rintro last ⟨⟩
    exact h.2.1
  | close error => trivial

/-! ### Reading -/

section

variable {frame : Frame Bytes} {buf arrived rest field : Bytes} {want : ℕ} {ended : Bool}

theorem length_toBe_eight (n : ℕ) : (toBe 8 n).length = 8 := length_toBe 8 n

theorem fill_field (hwant : field.length = want) (hbuf : buf.length ≤ want) (h : buf ++ arrived = field ++ rest) :
    fill want buf arrived = (field, rest) := by
  have htake := congrArg (List.take want) h
  have hdrop := congrArg (List.drop want) h
  rw [List.take_append, List.take_of_length_le hbuf, List.take_append_of_le_length hwant.ge,
    List.take_of_length_le hwant.le] at htake
  rw [List.drop_append, List.drop_of_length_le hbuf, List.nil_append, List.drop_append_of_le_length hwant.ge,
    List.drop_of_length_le hwant.le, List.nil_append] at hdrop
  rw [fill, htake, hdrop]

theorem fill_part (h : (buf ++ arrived).length < want) : fill want buf arrived = (buf ++ arrived, []) := by
  rw [List.length_append] at h
  rw [fill, List.take_of_length_le (by omega), List.drop_of_length_le (by omega)]

theorem Frame.id_lt (h : frame.Fits) : frame.id < 2 ^ 64 := by
  cases frame with
  | message msgId data =>
    have hlt := h.1
    unfold closeId at hlt
    exact lt_of_lt_of_le hlt (Nat.sub_le ..)
  | close error => exact Nat.sub_lt (by decide) (by decide)

theorem decode_closeError (e : RecvError) : QuicSubscribeClose.decode (WireMessage.encodeRaw
    (⟨Int32.ofInt (closeError e)⟩ : QuicSubscribeClose)) = .ok ⟨Int32.ofInt (closeError e)⟩ := by
  cases e <;> decide +kernel

theorem toInt_closeError (e : RecvError) : (Int32.ofInt (closeError e)).toInt = closeError e := by
  cases e <;> decide

theorem Frame.length_payload (h : frame.Fits) : frame.payload.length < 2 ^ 64 := by
  cases frame with
  | message msgId data => exact h.2.2
  | close error =>
    obtain ⟨e, rfl⟩ := h
    cases e <;> decide +kernel

theorem finish_frame (h : frame.Fits) (arrived : Bytes) :
    RecvState.finish frame.id frame.payload arrived = .ok (frame.read, .init, arrived) := by
  cases frame with
  | message msgId data =>
    have hne : msgId ≠ closeId := h.1.ne
    exact if_neg hne
  | close error =>
    obtain ⟨e, rfl⟩ := h
    simp only [RecvState.finish, Frame.id, Frame.payload, if_true, decode_closeError, toInt_closeError]
    rfl

theorem pollBody_frame (hfits : frame.Fits) (hbuf : buf.length ≤ frame.payload.length)
    (h : buf ++ arrived = frame.payload ++ rest) :
    RecvState.pollBody ended frame.id frame.payload.length buf arrived = .ok (frame.read, .init, rest) := by
  unfold RecvState.pollBody
  rw [fill_field rfl hbuf h]
  dsimp only
  rw [if_neg (lt_irrefl _)]
  exact finish_frame hfits rest

theorem pollSize_frame (hfits : frame.Fits) (hbuf : buf.length ≤ 8)
    (h : buf ++ arrived = toBe 8 frame.payload.length ++ (frame.payload ++ rest)) :
    RecvState.pollSize ended frame.id buf arrived = .ok (frame.read, .init, rest) := by
  unfold RecvState.pollSize
  rw [fill_field (length_toBe_eight _) hbuf h]
  dsimp only
  rw [if_neg (by rw [length_toBe_eight]; exact lt_irrefl 8), ofBe_toBe (Frame.length_payload hfits)]
  exact pollBody_frame hfits (Nat.zero_le _) rfl

theorem pollMsgId_frame (hfits : frame.Fits) (hbuf : buf.length ≤ 8) (h : buf ++ arrived = frame.bytes ++ rest) :
    RecvState.pollMsgId ended buf arrived = .ok (frame.read, .init, rest) := by
  rw [Frame.bytes, List.append_assoc, List.append_assoc] at h
  unfold RecvState.pollMsgId
  rw [fill_field (length_toBe_eight _) hbuf h]
  dsimp only
  rw [if_neg (by rw [length_toBe_eight]; exact lt_irrefl 8), ofBe_toBe (Frame.id_lt hfits)]
  exact pollSize_frame hfits (Nat.zero_le _) rfl

/-- The numbers that a reader has read, and that it waits for more bytes. -/
def RecvState.Waits : RecvState → Prop
  | readMsgId buf => buf.length < 8
  | readSize msgId buf => msgId < 2 ^ 64 ∧ buf.length < 8
  | readExact msgId size buf => msgId < 2 ^ 64 ∧ size < 2 ^ 64 ∧ buf.length < size

theorem toBe_eight_inj {n m : ℕ} {tail tail' : Bytes} (hn : n < 2 ^ 64) (hm : m < 2 ^ 64)
    (h : toBe 8 n ++ tail = toBe 8 m ++ tail') : n = m ∧ tail = tail' := by
  obtain ⟨hhead, htail⟩ := List.append_inj h (by rw [length_toBe_eight, length_toBe_eight])
  exact ⟨toBe_inj hn hm hhead, htail⟩

/-- **The next frame is read** when all its bytes have arrived. -/
theorem pollNext_frame {reader : RecvState} (hfits : frame.Fits) (hwaits : reader.Waits)
    (h : reader.taken ++ arrived = frame.bytes ++ rest) :
    reader.pollNext ended arrived = .ok (frame.read, .init, rest) := by
  cases reader with
  | readMsgId buf => exact pollMsgId_frame hfits (le_of_lt hwaits) h
  | readSize msgId buf =>
    simp only [RecvState.taken, Frame.bytes, List.append_assoc] at h
    obtain ⟨rfl, hrest⟩ := toBe_eight_inj hwaits.1 (Frame.id_lt hfits) h
    exact pollSize_frame hfits (le_of_lt hwaits.2) hrest
  | readExact msgId size buf =>
    simp only [RecvState.taken, Frame.bytes, List.append_assoc] at h
    obtain ⟨rfl, hsized⟩ := toBe_eight_inj hwaits.1 (Frame.id_lt hfits) h
    obtain ⟨rfl, hrest⟩ := toBe_eight_inj hwaits.2.1 (Frame.length_payload hfits) hsized
    exact pollBody_frame hfits (le_of_lt hwaits.2.2) hrest

/-- What is left of a part that ends after the field. -/
theorem part_of_field {part : Bytes} (hpart : part <+: field ++ rest) (hlen : field.length ≤ part.length) :
    ∃ part', part = field ++ part' ∧ part' <+: rest := by
  obtain ⟨tail, htail⟩ := hpart
  obtain ⟨part', rfl⟩ : field <+: part :=
    List.prefix_of_prefix_length_le (List.prefix_append ..) ⟨tail, htail⟩ hlen
  rw [List.append_assoc, List.append_cancel_left_eq] at htail
  exact ⟨part', rfl, tail, htail⟩

/-- The reader has taken everything that there is, and waits. -/
def RecvState.TakesAll (part : Bytes) (polled : Polled) : Prop :=
  ∃ reader : RecvState, polled = .ok (.pending, reader, []) ∧ reader.taken = part ∧ reader.Waits

theorem pollBody_takesAll (hfits : frame.Fits) (hlt : (buf ++ arrived).length < frame.payload.length) :
    RecvState.TakesAll (toBe 8 frame.id ++ toBe 8 frame.payload.length ++ (buf ++ arrived))
      (RecvState.pollBody false frame.id frame.payload.length buf arrived) := by
  unfold RecvState.pollBody
  rw [fill_part hlt]
  dsimp only
  rw [if_pos hlt]
  exact ⟨_, rfl, rfl, Frame.id_lt hfits, Frame.length_payload hfits, hlt⟩

theorem pollSize_takesAll (hfits : frame.Fits) (hbuf : buf.length ≤ 8)
    (hpart : buf ++ arrived <+: toBe 8 frame.payload.length ++ frame.payload)
    (hlt : (buf ++ arrived).length < 8 + frame.payload.length) :
    RecvState.TakesAll (toBe 8 frame.id ++ (buf ++ arrived)) (RecvState.pollSize false frame.id buf arrived) := by
  unfold RecvState.pollSize
  by_cases hsize : (buf ++ arrived).length < 8
  · rw [fill_part hsize]
    dsimp only
    rw [if_pos hsize]
    exact ⟨_, rfl, rfl, Frame.id_lt hfits, hsize⟩
  · obtain ⟨part, hpart', hprefix⟩ := part_of_field hpart (by rw [length_toBe_eight]; omega)
    rw [hpart', List.length_append, length_toBe_eight] at hlt
    rw [fill_field (length_toBe_eight _) hbuf hpart', hpart']
    dsimp only
    rw [if_neg (by rw [length_toBe_eight]; exact lt_irrefl 8), ofBe_toBe (Frame.length_payload hfits),
      ← List.append_assoc]
    exact pollBody_takesAll hfits (by rw [List.nil_append]; omega)

theorem pollMsgId_takesAll (hfits : frame.Fits) (hbuf : buf.length ≤ 8) (hpart : buf ++ arrived <+: frame.bytes)
    (hlt : (buf ++ arrived).length < frame.bytes.length) :
    RecvState.TakesAll (buf ++ arrived) (RecvState.pollMsgId false buf arrived) := by
  rw [Frame.bytes, List.append_assoc] at hpart hlt
  unfold RecvState.pollMsgId
  by_cases hsize : (buf ++ arrived).length < 8
  · rw [fill_part hsize]
    dsimp only
    rw [if_pos hsize]
    exact ⟨_, rfl, rfl, hsize⟩
  · obtain ⟨part, hpart', hprefix⟩ := part_of_field hpart (by rw [length_toBe_eight]; omega)
    rw [hpart', List.length_append, List.length_append, List.length_append, length_toBe_eight, length_toBe_eight] at hlt
    rw [fill_field (length_toBe_eight _) hbuf hpart', hpart']
    dsimp only
    rw [if_neg (by rw [length_toBe_eight]; exact lt_irrefl 8), ofBe_toBe (Frame.id_lt hfits)]
    exact pollSize_takesAll hfits (Nat.zero_le _) hprefix (by rw [List.nil_append]; omega)

/-- **A part of a frame is taken**, and the reader waits. -/
theorem pollNext_part {reader : RecvState} (hfits : frame.Fits) (hwaits : reader.Waits)
    (hpart : reader.taken ++ arrived <+: frame.bytes) (hlt : (reader.taken ++ arrived).length < frame.bytes.length) :
    RecvState.TakesAll (reader.taken ++ arrived) (reader.pollNext false arrived) := by
  cases reader with
  | readMsgId buf => exact pollMsgId_takesAll hfits (le_of_lt hwaits) hpart hlt
  | readSize msgId buf =>
    obtain ⟨tail, htail⟩ := hpart
    simp only [RecvState.taken, Frame.bytes, List.append_assoc] at htail
    obtain ⟨rfl, hrest⟩ := toBe_eight_inj hwaits.1 (Frame.id_lt hfits) htail
    simp only [RecvState.taken, Frame.bytes, List.length_append, length_toBe_eight] at hlt
    rw [RecvState.taken, List.append_assoc]
    refine pollSize_takesAll hfits (le_of_lt hwaits.2) ⟨tail, by rw [List.append_assoc, hrest]⟩ ?_
    rw [List.length_append]
    omega
  | readExact msgId size buf =>
    obtain ⟨tail, htail⟩ := hpart
    simp only [RecvState.taken, Frame.bytes, List.append_assoc] at htail
    obtain ⟨rfl, hsized⟩ := toBe_eight_inj hwaits.1 (Frame.id_lt hfits) htail
    obtain ⟨rfl, -⟩ := toBe_eight_inj hwaits.2.1 (Frame.length_payload hfits) hsized
    simp only [RecvState.taken, Frame.bytes, List.length_append, length_toBe_eight] at hlt
    rw [RecvState.taken, List.append_assoc]
    refine pollBody_takesAll hfits ?_
    rw [List.length_append]
    omega

/-- Without a byte the reader waits, or it comes to the end. -/
theorem pollNext_nil (ended : Bool) : RecvState.init.pollNext ended [] =
    .ok (if ended then .finished else .pending, .init, []) := rfl

theorem eq_init_of_taken {reader : RecvState} (h : reader.taken = []) : reader = .init := by
  have hne : ∀ n, toBe 8 n ≠ [] := fun n hnil => by
    have hlen := length_toBe_eight n
    rw [hnil] at hlen
    cases hlen
  cases reader with
  | readMsgId buf =>
    obtain rfl : buf = [] := h
    rfl
  | readSize msgId buf => exact absurd (List.append_eq_nil_iff.mp h).1 (hne _)
  | readExact msgId size buf =>
    exact absurd (List.append_eq_nil_iff.mp (List.append_eq_nil_iff.mp h).1).1 (hne _)

end

end Richat.Quic
