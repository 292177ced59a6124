import Richat.Lib.ProtobufDecode

/-!
# Bytes that are written over others

`overwrite` puts bytes into a buffer at an offset. `StandsAt` says what a buffer holds where; its rules cut and
join such parts, and say which of them are still there after a write.
-/

namespace Richat.Lib.Protobuf

def overwrite (buffer : Bytes) (offset : ℕ) (bytes : Bytes) : Bytes :=
  buffer.take offset ++ (bytes ++ buffer.drop (offset + bytes.length))

section

variable {buffer bytes part part' : Bytes} {offset at' : ℕ}

theorem length_overwrite (h : offset + bytes.length ≤ buffer.length) :
    (overwrite buffer offset bytes).length = buffer.length := by
  simp only [overwrite, List.length_append, List.length_take, List.length_drop]
  omega

namespace StandsAt

theorem length_le (h : StandsAt buffer offset part) : offset + part.length ≤ buffer.length := by
  obtain ⟨pre, post, rfl, rfl⟩ := h
  simp only [List.length_append]
  omega

theorem whole (buffer : Bytes) : StandsAt buffer 0 buffer := ⟨[], [], (List.append_nil buffer).symm, rfl⟩

theorem left (h : StandsAt buffer offset (part ++ part')) : StandsAt buffer offset part := by
  obtain ⟨pre, post, rfl, rfl⟩ := h
  exact ⟨pre, part' ++ post, by simp only [List.append_assoc], rfl⟩

theorem right (h : StandsAt buffer offset (part ++ part')) : StandsAt buffer (offset + part.length) part' := by
  obtain ⟨pre, post, rfl, rfl⟩ := h
  exact ⟨pre ++ part, post, by simp only [List.append_assoc], List.length_append⟩

theorem append (h : StandsAt buffer offset part) (h' : StandsAt buffer (offset + part.length) part') :
    StandsAt buffer offset (part ++ part') := by
  obtain ⟨pre, post, rfl, rfl⟩ := h
  obtain ⟨pre', post', heq, hlen⟩ := h'
  rw [← List.append_assoc] at heq
  obtain ⟨rfl, rfl⟩ := List.append_inj heq (by rw [List.length_append, hlen])
  exact ⟨pre, post', by simp only [List.append_assoc], rfl⟩

/-- More bytes at the end. -/
theorem mono (h : StandsAt buffer offset part) (more : Bytes) : StandsAt (buffer ++ more) offset part := by
  obtain ⟨pre, post, rfl, rfl⟩ := h
  exact ⟨pre, post ++ more, by simp only [List.append_assoc], rfl⟩

theorem written (bytes : Bytes) (h : offset ≤ buffer.length) : StandsAt (overwrite buffer offset bytes) offset bytes :=
  ⟨buffer.take offset, buffer.drop (offset + bytes.length), rfl, List.length_take_of_le h⟩

/-- The first bytes of a buffer. -/
theorem take (h : StandsAt buffer at' part) {n : ℕ} (hle : at' + part.length ≤ n) :
    StandsAt (buffer.take n) at' part := by
  obtain ⟨pre, post, rfl, rfl⟩ := h
  refine ⟨pre, post.take (n - (pre ++ part).length), ?_, rfl⟩
  rw [← List.append_assoc, List.take_append, List.take_of_length_le (by rwa [List.length_append]),
    List.append_assoc]

/-- A buffer that begins with the same bytes. -/
theorem of_take_eq {buffer' : Bytes} (h : StandsAt buffer at' part) {n : ℕ} (hle : at' + part.length ≤ n)
    (heq : buffer'.take n = buffer.take n) : StandsAt buffer' at' part := by
  have hstands := (h.take hle).mono (buffer'.drop n)
  rwa [← heq, List.take_append_drop] at hstands

/-- What stands before the write. -/
theorem before_write (h : StandsAt buffer at' part) (offset : ℕ) (bytes : Bytes) (hle : at' + part.length ≤ offset) :
    StandsAt (overwrite buffer offset bytes) at' part :=
  (h.take hle).mono (bytes ++ buffer.drop (offset + bytes.length))

/-- What stands after the write. -/
theorem after_write (h : StandsAt buffer at' part) (offset : ℕ) (bytes : Bytes) (hle : offset + bytes.length ≤ at') :
    StandsAt (overwrite buffer offset bytes) at' part := by
  obtain ⟨pre, post, rfl, rfl⟩ := h
  have hdrop : (pre ++ (part ++ post)).drop (offset + bytes.length) =
      pre.drop (offset + bytes.length) ++ (part ++ post) := by
    rw [List.drop_append_of_le_length hle]
  refine ⟨(pre ++ (part ++ post)).take offset ++ (bytes ++ pre.drop (offset + bytes.length)), post, ?_, ?_⟩
  · rw [overwrite, hdrop]
    simp only [List.append_assoc]
  · simp only [List.length_append, List.length_take, List.length_drop]
    omega

end StandsAt

end

end Richat.Lib.Protobuf
