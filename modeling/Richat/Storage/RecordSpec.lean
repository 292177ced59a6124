import Richat.Storage.Node
import Richat.Storage.Record

/-!
# The records are read as they were written

A chunk is its records in frames: the reader finds the frames again, and in every frame the record. For
other bytes the reader goes on by a byte at least in every turn, and only takes ranges that are inside.
-/

namespace Richat.Record

open Lib.Protobuf Richat.Filter

/-! ### The bits of the tags -/

/-- The mask of the commitments that are in the list. -/
def maskBits (processed confirmed finalized : Bool) : UInt8 :=
  (if processed then 1 else 0) ||| (if confirmed then 2 else 0) ||| (if finalized then 4 else 0)

theorem maskBits_or (p c f : Bool) (level : CommitmentLevel) :
    maskBits p c f ||| commitmentBit level =
      maskBits (p || level = .processed) (c || level = .confirmed) (f || level = .finalized) := by
  cases p <;> cases c <;> cases f <;> cases level <;> decide

theorem commitmentMask_snoc (commitments : List CommitmentLevel) (level : CommitmentLevel) :
    commitmentMask (commitments ++ [level]) = commitmentMask commitments ||| commitmentBit level := by
  simp [commitmentMask, List.foldl_append]

theorem commitmentMask_eq (commitments : List CommitmentLevel) :
    commitmentMask commitments = maskBits (.processed ∈ commitments) (.confirmed ∈ commitments)
      (.finalized ∈ commitments) := by
  induction commitments using List.reverseRecOn with
  | nil => decide
  | append_singleton commitments level ih =>
    rw [commitmentMask_snoc, ih, maskBits_or]
    simp [List.mem_append, Bool.decide_or, eq_comm]

theorem tag_bits : ∀ p c f : Bool, ∀ kind ∈ [(0 : UInt8), 1],
    let tag := kind ||| commitmentRecords ||| referenceRecords ||| ((maskBits p c f ||| 1) <<< 2)
    tag &&& 0x03 = kind ∧ tag &&& commitmentRecords ≠ 0 ∧ tag &&& referenceRecords ≠ 0 ∧
      ((tag >>> 2) &&& 1 ≠ 0 ∧ ((tag >>> 2) &&& 2 ≠ 0 ↔ c) ∧ ((tag >>> 2) &&& 4 ≠ 0 ↔ f)) := by
  intro p c f kind hkind
  rcases List.mem_pair.mp hkind with rfl | rfl <;> cases p <;> cases c <;> cases f <;> decide

theorem fromTag_tag (compression : ChunkCompression) :
    (ChunkCompression.fromTag compression.tag).map (·.tag) = some compression.tag := by
  cases compression <;> rfl

theorem tag_mem (compression : ChunkCompression) : compression.tag ∈ [(0 : UInt8), 1] := by
  cases compression <;> simp [ChunkCompression.tag]

/-- The parts of the byte of a chunk do not overlap: how it is compressed, its formats, its commitments. -/
theorem compressionTag_bits (commitments : List CommitmentLevel) (compression : Option ChunkCompression) :
    let tag := compressionTag (commitmentMask commitments) compression
    tag &&& 0x03 = (compression.getD .none).tag ∧ tag &&& commitmentRecords ≠ 0 ∧
      tag &&& referenceRecords ≠ 0 ∧
      ∀ level, (tag >>> 2) &&& commitmentBit level ≠ 0 ↔ level = .processed ∨ level ∈ commitments := by
  have h := tag_bits (.processed ∈ commitments) (.confirmed ∈ commitments) (.finalized ∈ commitments)
    (compression.getD .none).tag (tag_mem _)
  rw [← commitmentMask_eq] at h
  obtain ⟨hkind, hcommitment, hreference, hprocessed, hconfirmed, hfinalized⟩ := h
  refine ⟨hkind, hcommitment, hreference, fun level => ?_⟩
  cases level with
  | processed => exact ⟨fun _ => .inl rfl, fun _ => hprocessed⟩
  | confirmed =>
    rw [decide_eq_true_iff] at hconfirmed
    exact hconfirmed.trans (by simp)
  | finalized =>
    rw [decide_eq_true_iff] at hfinalized
    exact hfinalized.trans (by simp)

theorem ne_zero_iff_toNat (bits : UInt8) : bits ≠ 0 ↔ bits.toNat ≠ 0 := by
  rw [ne_eq, ne_eq, ← UInt8.toNat_inj]
  rfl

/-- What the catalog tells of a chunk with the byte. -/
theorem chunk_bits {commitments : List CommitmentLevel} {compression : Option ChunkCompression}
    {chunk : ChunkMeta}
    (h : chunk.compression = (compressionTag (commitmentMask commitments) compression).toNat) :
    hasBlocks chunk = true ∧
      ∀ level, chunk.hasCommitment level = true ↔ level = .processed ∨ level ∈ commitments := by
  obtain ⟨-, hcommitment, -, hlevel⟩ := compressionTag_bits commitments compression
  have hformat : chunk.compression &&& 0x80 ≠ 0 := by
    rw [ne_zero_iff_toNat, UInt8.toNat_and, ← h] at hcommitment
    exact hcommitment
  refine ⟨by simpa [hasBlocks] using hformat, fun level => ?_⟩
  have hbit : Storage.commitmentBit level = (commitmentBit level).toNat := by cases level <;> rfl
  rw [← hlevel, ne_zero_iff_toNat, UInt8.toNat_and, UInt8.toNat_shiftRight, ← h, ← hbit,
    ChunkMeta.hasCommitment, if_neg hformat]
  exact decide_eq_true_iff

/-- The byte of the segment writer. -/
theorem compression_eq (cfg : ConfigNode) {commitments : List CommitmentLevel}
    {compression : Option ChunkCompression}
    (htag : cfg.storage.compressionTag = (compression.getD .none).tag.toNat)
    (hmask : cfg.channel.storage.elim 0 (·.commitmentMask) = (commitmentMask commitments).toNat) :
    SegmentWriter.compression cfg = (compressionTag (commitmentMask commitments) compression).toNat := by
  rw [SegmentWriter.compression, htag, hmask, compressionTag, commitmentMask_eq]
  generalize decide (CommitmentLevel.processed ∈ commitments) = p
  generalize decide (CommitmentLevel.confirmed ∈ commitments) = c
  generalize decide (CommitmentLevel.finalized ∈ commitments) = f
  have hkind := tag_mem (compression.getD .none)
  generalize (compression.getD .none).tag = kind at hkind ⊢
  rcases List.mem_pair.mp hkind with rfl | rfl <;> cases p <;> cases c <;> cases f <;> decide

/-! ### What is written -/

namespace StoredRecord

def isReference (record : StoredRecord) : Bool := record.payload matches .reference _

def tag (record : StoredRecord) : UInt8 :=
  levelBits record.commitment ||| (if record.block then 0x80 else 0) |||
    (if record.isReference then 0x40 else 0)

def bytes (record : StoredRecord) : Bytes :=
  record.tag :: encodeVarint record.slot.toNat ++
    match record.payload with
      | .message bytes => bytes
      | .reference index => encodeVarint index.toNat

end StoredRecord

/-- The record with its length before it. -/
def frame (record : Bytes) : Bytes := encodeVarint record.length ++ record

/-- What is appended to the header of a record is what is written for the message alone. -/
theorem encode_append {update : Filter.FilteredUpdate} {buf out : Bytes} (h : update.encode buf = .ok out) :
    ∃ bytes, update.encodeToVec = .ok bytes ∧ out = buf ++ bytes := by
  unfold Filter.FilteredUpdate.encode at h
  unfold Filter.FilteredUpdate.encodeToVec Filter.FilteredUpdate.encode
  cases hmsg : Filter.FilteredUpdate.messageOf update.filters update.filteredUpdate with
  | error e => simp [hmsg, bind, Except.bind] at h
  | ok msg =>
    simp only [hmsg, bind, Except.bind, SubscribeUpdateMessage.encodeReserved] at h ⊢
    split at h
    · refine ⟨msg.encodeRaw, ?_, by simpa using h.symm⟩
      rw [if_pos (by simp only [List.length_nil]; omega), List.nil_append]
    · simp at h

theorem serialize_ok {record : JournalRecord} {out : Bytes} (h : record.serialize = .ok out) :
    ∃ stored, record.stored = .ok stored ∧ out = stored.bytes := by
  obtain ⟨commitment, slot, block, payload⟩ := record
  cases payload with
  | message message =>
    obtain ⟨bytes, hbytes, rfl⟩ := encode_append h
    refine ⟨⟨commitment, slot, block, .message bytes⟩, ?_, rfl⟩
    simp [JournalRecord.stored, JournalPayload.stored, hbytes, bind, Except.bind, pure, Except.pure]
  | reference index =>
    refine ⟨⟨commitment, slot, block, .reference index⟩, rfl, ?_⟩
    simpa [JournalRecord.serialize, StoredRecord.bytes, StoredRecord.tag, JournalRecord.tag,
      StoredRecord.isReference] using h.symm

theorem extendVec_ok {buf bytes out : Bytes} (h : extendVec buf bytes = .ok out) :
    out = buf ++ bytes ∧ out.length ≤ isizeMax := by
  unfold extendVec at h
  split at h
  · rename_i hfits
    obtain rfl : buf ++ bytes = out := by simpa using h
    exact ⟨rfl, by rwa [List.length_append]⟩
  · simp at h

theorem length_mapM_ok {α β ε : Type} {f : α → Except ε β} {xs : List α} {ys : List β}
    (h : xs.mapM f = .ok ys) : ys.length = xs.length := by
  induction xs generalizing ys with
  | nil => simp_all [pure, Except.pure]
  | cons x xs ih =>
    rw [List.mapM_cons] at h
    cases hx : f x with
    | error e => simp [hx, bind, Except.bind] at h
    | ok y =>
      cases hxs : xs.mapM f with
      | error e => simp [hx, hxs, bind, Except.bind] at h
      | ok zs =>
        obtain rfl : y :: zs = ys := by simpa [hx, hxs, bind, Except.bind, pure, Except.pure] using h
        simp [ih hxs]

/-- The frames of the records, after what is in the buffer. -/
theorem serializeChunk_ok {records : List JournalRecord} {out : Bytes} (h : serializeChunk records = .ok out) :
    ∃ stored, records.mapM (·.stored) = .ok stored ∧
      out = (stored.map (·.bytes)).flatMap frame ∧ out.length ≤ isizeMax := by
  suffices hgen : ∀ buf : Bytes, buf.length ≤ isizeMax → records.foldlM (fun chunkBuf record => do
        let recordBuf ← record.serialize
        let chunkBuf ← extendVec chunkBuf (encodeVarint recordBuf.length)
        extendVec chunkBuf recordBuf) buf = .ok out →
      ∃ stored, records.mapM (·.stored) = .ok stored ∧
        out = buf ++ (stored.map (·.bytes)).flatMap frame ∧ out.length ≤ isizeMax by
    obtain ⟨stored, hstored, hout, hlen⟩ := hgen [] (by simp) h
    exact ⟨stored, hstored, by simpa using hout, hlen⟩
  clear h
  induction records with
  | nil =>
    intro buf hbuf h
    obtain rfl : buf = out := by simpa [pure, Except.pure] using h
    exact ⟨[], rfl, by simp, hbuf⟩
  | cons record records ih =>
    intro buf hbuf h
    rw [List.foldlM_cons] at h
    cases hrecord : record.serialize with
    | error e => simp [hrecord, bind, Except.bind] at h
    | ok recordBuf =>
      cases hlen : extendVec buf (encodeVarint recordBuf.length) with
      | error e => simp [hrecord, hlen, bind, Except.bind] at h
      | ok buf₁ =>
        cases hext : extendVec buf₁ recordBuf with
        | error e => simp [hrecord, hlen, hext, bind, Except.bind] at h
        | ok buf₂ =>
          simp only [hrecord, hlen, hext, bind, Except.bind] at h
          obtain ⟨rfl, -⟩ := extendVec_ok hlen
          obtain ⟨rfl, hfits⟩ := extendVec_ok hext
          obtain ⟨head, hhead, rfl⟩ := serialize_ok hrecord
          obtain ⟨stored, hstored, rfl, hout⟩ := ih _ hfits h
          refine ⟨head :: stored, ?_, ?_, hout⟩
          · simp [List.mapM_cons, hhead, hstored, bind, Except.bind, pure, Except.pure]
          · simp [frame]

/-! ### The frames are found again -/

/-- Where the records stand whose frames start at `offset`. -/
def rangesFrom : ℕ → List Bytes → List Range
  | _, [] => []
  | offset, record :: records =>
    let start := offset + (encodeVarint record.length).length
    ⟨start, start + record.length⟩ :: rangesFrom (start + record.length) records

theorem length_rangesFrom (offset : ℕ) (records : List Bytes) :
    (rangesFrom offset records).length = records.length := by
  induction records generalizing offset with
  | nil => rfl
  | cons record records ih => simp [rangesFrom, ih]

theorem sliceBytes_suffix (pre post : Bytes) :
    sliceBytes (pre ++ post) pre.length (pre ++ post).length = .ok post := by
  unfold sliceBytes
  rw [if_pos (by simp), List.drop_left]
  simp

theorem sliceBytes_mid (pre mid post : Bytes) :
    sliceBytes (pre ++ (mid ++ post)) pre.length (pre.length + mid.length) = .ok mid := by
  unfold sliceBytes
  rw [if_pos (by simp), List.drop_left]
  simp

theorem frame_length_pos (record : Bytes) : 0 < (frame record).length := by
  have := List.length_pos_iff.mpr (encodeVarint_ne_nil record.length)
  simp only [frame, List.length_append]
  omega

theorem split_frames : ∀ (records : List Bytes) (pre : Bytes) (fuel : ℕ) (acc : List Range),
    (pre ++ records.flatMap frame).length < 2 ^ 64 → (records.flatMap frame).length ≤ fuel →
    ChunkData.split (pre ++ records.flatMap frame) fuel pre.length acc =
      .ok (acc ++ rangesFrom pre.length records) := by
  intro records
  induction records with
  | nil =>
    intro pre fuel acc _ _
    cases fuel <;> simp [ChunkData.split, rangesFrom, Reader.ok]
  | cons record records ih =>
    intro pre fuel acc hlt hfuel
    rw [List.flatMap_cons] at hlt hfuel ⊢
    have hpos := frame_length_pos record
    rw [List.length_append] at hfuel
    obtain ⟨fuel, rfl⟩ : ∃ f, fuel = f + 1 := ⟨fuel - 1, by omega⟩
    have hlen : record.length < 2 ^ 64 := by
      simp only [frame, List.length_append] at hlt
      omega
    have hinside : pre.length < (pre ++ (frame record ++ records.flatMap frame)).length := by
      simp only [List.length_append]
      omega
    -- the rest of the chunk after this record
    have hsplit := ih (pre ++ frame record) fuel (acc ++ [⟨pre.length + (encodeVarint record.length).length,
      pre.length + (encodeVarint record.length).length + record.length⟩]) (by simpa using hlt) (by omega)
    rw [ChunkData.split, if_pos hinside, sliceBytes_suffix]
    simp only [Reader.andThen, Reader.ok, readVarint, frame, List.append_assoc,
      decodeVarint_encode hlen] at hsplit ⊢
    simp only [List.length_append, List.append_assoc, frame] at hsplit hlt ⊢
    have hstart : pre.length + ((encodeVarint record.length).length + (record.length + (records.flatMap frame).length)) -
        (record.length + (records.flatMap frame).length) = pre.length + (encodeVarint record.length).length := by
      omega
    rw [if_neg (by omega), hstart, if_neg (by omega), if_neg (by omega)]
    rw [show pre.length + (encodeVarint record.length).length + record.length =
      pre.length + ((encodeVarint record.length).length + record.length) by omega] at hsplit ⊢
    rw [hsplit]
    simp [rangesFrom, Nat.add_assoc]

/-! ### The records are read -/

/-- The parts of the tag of a record do not overlap. -/
theorem recordTag_bits (level : CommitmentLevel) (block reference : Bool) :
    let tag := levelBits level ||| (if block then 0x80 else 0) ||| (if reference then 0x40 else 0)
    tag &&& 0x3f = levelBits level ∧ (tag &&& 0x80 ≠ 0 ↔ block) ∧ (tag &&& 0x40 ≠ 0 ↔ reference) := by
  cases level <;> cases block <;> cases reference <;> decide

theorem levelOf_levelBits (tag : UInt8) (level : CommitmentLevel) :
    RecordHeader.levelOf tag (levelBits level) = .ok level := by
  cases level <;> rfl

/-- The tag of a record, under a format with both kinds of flags. -/
theorem parseTag_tag {format : UInt8} (hreference : format &&& referenceRecords ≠ 0) (record : StoredRecord) :
    RecordHeader.parseTag format record.tag =
      .ok (record.commitment, record.block, record.isReference) := by
  obtain ⟨hlevel, hblock, href⟩ := recordTag_bits record.commitment record.block record.isReference
  unfold RecordHeader.parseTag
  rw [← StoredRecord.tag] at hlevel hblock href
  simp only [if_pos hreference, hlevel, levelOf_levelBits, hblock, href]
  simp [hreference, bind, Except.bind, pure, Except.pure]

theorem parse_bytes {format : UInt8} (hcommitment : format &&& commitmentRecords ≠ 0)
    (hreference : format &&& referenceRecords ≠ 0) (record : StoredRecord) :
    (RecordHeader.parse record.bytes format).andThen RecordHeader.stored = .ok record := by
  have htag := parseTag_tag hreference record
  obtain ⟨commitment, slot, block, payload⟩ := record
  unfold RecordHeader.parse StoredRecord.bytes
  simp only [hcommitment, ne_eq, not_false_eq_true, if_true, List.cons_append, htag, readVarint,
    decodeVarint_encode slot.toNat_lt, Reader.ok, Reader.andThen, UInt64.ofNat_toNat]
  cases payload with
  | message bytes => rfl
  | reference index =>
    have hindex := decodeVarint_encode index.toNat_lt []
    rw [List.append_nil] at hindex
    simp [RecordHeader.stored, RecordHeader.target, StoredRecord.isReference, readVarint, hindex, Reader.ok,
      Reader.andThen]

/-- The records from `pre` on, in a chunk that has others before them. -/
theorem readFrom_frames (data : ChunkData) (hcommitment : data.format &&& commitmentRecords ≠ 0)
    (hreference : data.format &&& referenceRecords ≠ 0) :
    ∀ (records : List StoredRecord) (pre : Bytes) (before : List Range),
      data.bytes = pre ++ (records.map (·.bytes)).flatMap frame →
      data.records = before ++ rangesFrom pre.length (records.map (·.bytes)) →
      data.readFrom (data.firstIndex + before.length) records.length = .ok records := by
  intro records
  induction records with
  | nil => intro pre before _ _; rfl
  | cons record records ih =>
    intro pre before hbytes hrecords
    rw [List.map_cons, List.flatMap_cons] at hbytes
    rw [List.map_cons] at hrecords
    have hnext := ih (pre ++ frame record.bytes)
      (before ++ [⟨pre.length + (encodeVarint record.bytes.length).length,
        pre.length + (encodeVarint record.bytes.length).length + record.bytes.length⟩])
      (by simpa using hbytes) (by simpa [rangesFrom, frame, Nat.add_assoc] using hrecords)
    have hrecord : data.record (data.firstIndex + before.length) = .ok record.bytes := by
      unfold ChunkData.record
      rw [if_neg (by omega), Nat.add_sub_cancel_left, hrecords, List.getElem?_append_right le_rfl]
      simp only [Nat.sub_self, rangesFrom, List.getElem?_cons_zero]
      rw [hbytes, ← List.length_append, frame, List.append_assoc, ← List.append_assoc pre]
      exact sliceBytes_mid _ _ _
    have hstored : data.stored (data.firstIndex + before.length) = .ok record := by
      unfold ChunkData.stored
      rw [hrecord]
      exact parse_bytes hcommitment hreference record
    rw [List.length_append, List.length_singleton, ← Nat.add_assoc] at hnext
    rw [List.length_cons, ChunkData.readFrom, hstored]
    simp only [Reader.andThen, Reader.ok] at hnext ⊢
    rw [hnext]

/-- A chunk of frames, under the byte of the compressor. -/
theorem new_frames {format : UInt8} (hcommitment : format &&& commitmentRecords ≠ 0)
    (hreference : format &&& referenceRecords ≠ 0) (firstIndex : ℕ) (records : List StoredRecord)
    (hlt : ((records.map (·.bytes)).flatMap frame).length < 2 ^ 64) :
    ∃ data, ChunkData.new firstIndex format ((records.map (·.bytes)).flatMap frame) records.length = .ok data ∧
      data.firstIndex = firstIndex ∧ data.readAll = .ok records := by
  have hsplit := split_frames (records.map (·.bytes)) [] _ [] (by simpa using hlt) le_rfl
  rw [List.nil_append, List.length_nil, List.nil_append] at hsplit
  have hcount := length_rangesFrom 0 (records.map (·.bytes))
  rw [List.length_map] at hcount
  refine ⟨⟨firstIndex, format, (records.map (·.bytes)).flatMap frame,
    rangesFrom 0 (records.map (·.bytes))⟩, ?_, rfl, ?_⟩
  · unfold ChunkData.new
    rw [hsplit]
    simp [Reader.andThen, Reader.ok, hcount]
  · have hread := readFrom_frames ⟨firstIndex, format, (records.map (·.bytes)).flatMap frame,
      rangesFrom 0 (records.map (·.bytes))⟩ hcommitment hreference records [] [] rfl rfl
    simpa [ChunkData.readAll, hcount] using hread

/-! ### Other bytes -/

/-- A varint takes a byte at least. -/
theorem decodeVarintAux_length : ∀ {fuel n : ℕ} {buf rest : Bytes}, decodeVarintAux fuel buf = some (n, rest) →
    rest.length < buf.length := by
  intro fuel
  induction fuel with
  | zero => intro n buf rest h; simp [decodeVarintAux] at h
  | succ fuel ih =>
    intro n buf rest h
    cases buf with
    | nil => simp [decodeVarintAux] at h
    | cons byte buf =>
      rw [decodeVarintAux] at h
      split at h
      · split at h
        · simp at h
        · obtain ⟨-, rfl⟩ : byte.toNat = n ∧ buf = rest := by simpa using h
          simp
      · cases hrest : decodeVarintAux fuel buf with
        | none => simp [hrest] at h
        | some r =>
          obtain ⟨high, rest'⟩ := r
          obtain ⟨-, rfl⟩ : byte.toNat - 128 + 128 * high = n ∧ rest' = rest := by simpa [hrest] using h
          have := ih hrest
          simp only [List.length_cons]
          omega

theorem decodeVarint_length {n : ℕ} {buf rest : Bytes} (h : decodeVarint buf = .ok (n, rest)) :
    rest.length < buf.length := by
  unfold decodeVarint at h
  cases haux : decodeVarintAux 10 buf with
  | none => simp [haux] at h
  | some r =>
    obtain rfl : r = (n, rest) := by simpa [haux] using h
    exact decodeVarintAux_length haux

theorem readVarint_some (error : DecodeError → ReaderError) (bytes : Bytes) :
    (∃ e, readVarint error bytes = .fail e) ∨
      ∃ n rest, readVarint error bytes = .ok (n, rest) ∧ rest.length < bytes.length := by
  unfold readVarint
  cases h : decodeVarint bytes with
  | error e => exact .inl ⟨_, rfl⟩
  | ok r => exact .inr ⟨r.1, r.2, rfl, decodeVarint_length h⟩

/-- The range is inside the bytes. -/
def Inside (bytes : Bytes) (range : Range) : Prop := range.start ≤ range.stop ∧ range.stop ≤ bytes.length

theorem split_some (bytes : Bytes) : ∀ (fuel offset : ℕ) (records : List Range),
    bytes.length ≤ offset + fuel → offset ≤ bytes.length → (∀ range ∈ records, Inside bytes range) →
    ∃ r, ChunkData.split bytes fuel offset records = some r ∧
      ∀ ranges, r = .ok ranges → ∀ range ∈ ranges, Inside bytes range := by
  intro fuel
  induction fuel with
  | zero =>
    intro offset records hfuel hoffset hinside
    refine ⟨.ok records, ?_, fun ranges h => by cases h; exact hinside⟩
    rw [ChunkData.split, if_neg (by omega)]
    rfl
  | succ fuel ih =>
    intro offset records hfuel hoffset hinside
    rw [ChunkData.split]
    split
    · rename_i hlt
      have hslice : sliceBytes bytes offset bytes.length = .ok ((bytes.drop offset).take (bytes.length - offset)) := by
        rw [sliceBytes, if_pos ⟨hoffset, le_rfl⟩]
      rw [hslice]
      have hremaining : ((bytes.drop offset).take (bytes.length - offset)).length = bytes.length - offset := by
        simp
      rcases readVarint_some .decode ((bytes.drop offset).take (bytes.length - offset)) with
        ⟨e, he⟩ | ⟨len, rest, hrest, hshort⟩
      · exact ⟨.error e, by simp [Reader.andThen, Reader.ok, Reader.fail, he], by simp⟩
      · rw [hremaining] at hshort
        simp only [Reader.andThen, Reader.ok, hrest, if_neg (show ¬ bytes.length < rest.length by omega)]
        split
        · exact ⟨.error .recordBoundaryOverflow, rfl, by simp⟩
        · split
          · exact ⟨.error .recordPastChunk, rfl, by simp⟩
          · rename_i hend
            -- the varint was a byte at least
            refine ih _ _ (by omega) (by omega) fun range hrange => ?_
            rcases List.mem_append.mp hrange with hrange | hrange
            · exact hinside range hrange
            · obtain rfl : range = _ := by simpa using hrange
              exact ⟨by simp, by simp only; omega⟩
    · exact ⟨.ok records, rfl, fun ranges h => by cases h; exact hinside⟩

theorem new_some (firstIndex : ℕ) (format : UInt8) (bytes : Bytes) (count : ℕ) :
    ∃ r, ChunkData.new firstIndex format bytes count = some r ∧ ∀ data, r = .ok data →
      data.records.length = count ∧ ∀ range ∈ data.records, Inside data.bytes range := by
  obtain ⟨r, hr, hinside⟩ := split_some bytes bytes.length 0 [] (by omega) (by omega) (by simp)
  unfold ChunkData.new
  rw [hr]
  cases r with
  | error e => exact ⟨.error e, rfl, by simp⟩
  | ok records =>
    simp only [Reader.andThen]
    split
    · rename_i hcount
      refine ⟨_, rfl, fun data h => ?_⟩
      obtain rfl : _ = data := by simpa using h
      exact ⟨hcount, hinside records rfl⟩
    · exact ⟨_, rfl, by simp⟩

theorem parse_some (record : Bytes) (format : UInt8) :
    ∃ r, (RecordHeader.parse record format).andThen RecordHeader.stored = some r := by
  have hstored : ∀ header : RecordHeader, ∃ r, header.stored = some r := by
    intro header
    unfold RecordHeader.stored RecordHeader.target
    split
    · rcases readVarint_some (fun _ => .invalidPayloadReference) header.payload with
        ⟨e, he⟩ | ⟨n, rest, hrest, -⟩
      · exact ⟨.error e, by simp [he, Reader.andThen, Reader.fail]⟩
      · simp only [hrest, Reader.andThen, Reader.ok, Reader.fail]
        cases rest.isEmpty <;> exact ⟨_, rfl⟩
    · exact ⟨_, rfl⟩
  have hrest : ∀ (commitment : CommitmentLevel) (block reference : Bool) (record : Bytes),
      ∃ r, ((readVarint (fun _ => .invalidRecordSlot) record).andThen fun slot =>
        Reader.ok (⟨commitment, UInt64.ofNat slot.1, block, reference, slot.2⟩ : RecordHeader)).andThen
          RecordHeader.stored = some r := by
    intro commitment block reference record
    rcases readVarint_some (fun _ => .invalidRecordSlot) record with ⟨e, he⟩ | ⟨n, rest, hrest, -⟩
    · exact ⟨.error e, by simp [he, Reader.andThen, Reader.fail]⟩
    · simpa [hrest, Reader.andThen, Reader.ok] using hstored _
  unfold RecordHeader.parse
  split
  · cases record with
    | nil => exact ⟨_, rfl⟩
    | cons tag rest =>
      simp only
      split
      · exact ⟨_, rfl⟩
      · exact hrest ..
  · exact hrest ..

theorem stored_some {data : ChunkData} (hinside : ∀ range ∈ data.records, Inside data.bytes range) (index : ℕ) :
    ∃ r, data.stored index = some r := by
  unfold ChunkData.stored ChunkData.record
  split
  · exact ⟨_, rfl⟩
  · cases hrange : data.records[index - data.firstIndex]? with
    | none => exact ⟨_, rfl⟩
    | some range =>
      obtain ⟨hle, hlen⟩ := hinside range (List.mem_of_getElem? hrange)
      simp only [sliceBytes, if_pos (And.intro hle hlen)]
      exact parse_some _ _

/-! ### The codec -/

/-- What the compressor hands on is read back as the records that it got, in order. -/
theorem load_runCompressor {lib : Zstd} (hlossless : ∀ level bytes, lib.decompress (lib.compress level bytes) = some bytes)
    {commitments : List CommitmentLevel} {compression : Option ChunkCompression} {records : List JournalRecord}
    {tag : UInt8} {payload : Bytes} (firstIndex : ℕ)
    (h : runCompressor lib (commitmentMask commitments) compression records = .ok (tag, payload)) :
    tag = compressionTag (commitmentMask commitments) compression ∧
      ∃ stored data, records.mapM (·.stored) = .ok stored ∧
        load lib firstIndex records.length tag payload = .ok data ∧ data.firstIndex = firstIndex ∧
        data.readAll = .ok stored := by
  unfold runCompressor at h
  cases hchunk : serializeChunk records with
  | error e => simp [hchunk, bind, Except.bind] at h
  | ok chunkBuf =>
    simp only [hchunk, bind, Except.bind, pure, Except.pure, Except.ok.injEq, Prod.mk.injEq] at h
    obtain ⟨rfl, hpayload⟩ := h
    obtain ⟨stored, hstored, rfl, hfits⟩ := serializeChunk_ok hchunk
    obtain ⟨hkind, hcommitment, hreference, -⟩ := compressionTag_bits commitments compression
    unfold isizeMax at hfits
    obtain ⟨data, hnew, hfirst, hread⟩ := new_frames hcommitment hreference firstIndex stored (by omega)
    have hcount : stored.length = records.length := length_mapM_ok hstored
    refine ⟨rfl, stored, data, hstored, ?_, hfirst, hread⟩
    rw [load, hkind, ← hcount]
    -- the library takes back what it did
    cases compression with
    | none => simpa [ChunkCompression.tag, ChunkCompression.fromTag, ← hpayload] using hnew
    | some compression =>
      cases compression with
      | none => simpa [ChunkCompression.tag, ChunkCompression.fromTag, ← hpayload] using hnew
      | zstd level =>
        simpa [ChunkCompression.tag, ChunkCompression.fromTag, ← hpayload, hlossless] using hnew

theorem load_some (lib : Zstd) (firstIndex count : ℕ) (compression : UInt8) (payload : Bytes) :
    ∃ r, load lib firstIndex count compression payload = some r := by
  unfold load
  split
  · exact ⟨_, rfl⟩
  · obtain ⟨r, hr, -⟩ := new_some firstIndex compression payload count
    exact ⟨r, hr⟩
  · split
    · exact ⟨_, rfl⟩
    · rename_i bytes _
      obtain ⟨r, hr, -⟩ := new_some firstIndex compression bytes count
      exact ⟨r, hr⟩

/-- Each part of the byte of a chunk tells its own, as the reader and the catalog look at it. -/
structure Recovers (tag : UInt8) (commitments : List CommitmentLevel) (compression : Option ChunkCompression) :
    Prop where
  compression : (ChunkCompression.fromTag (tag &&& 0x03)).map (·.tag) = some (compression.getD .none).tag
  commitmentFormat : tag &&& commitmentRecords ≠ 0
  referenceFormat : tag &&& referenceRecords ≠ 0
  hasBlocks : ∀ chunk : ChunkMeta, chunk.compression = tag.toNat → hasBlocks chunk = true
  hasCommitment : ∀ chunk : ChunkMeta, chunk.compression = tag.toNat → ∀ level,
    chunk.hasCommitment level = true ↔ level = .processed ∨ level ∈ commitments

/-- A chunk is read as the records it was written from, each part of its byte tells its own, and whatever
else the reader gets, it has an answer: an error, or records that are inside the bytes. -/
theorem record_codec (lib : Zstd)
    (hlossless : ∀ level bytes, lib.decompress (lib.compress level bytes) = some bytes)
    (commitments : List CommitmentLevel) (compression : Option ChunkCompression) :
    (∀ records tag payload firstIndex,
      runCompressor lib (commitmentMask commitments) compression records = .ok (tag, payload) →
      tag = compressionTag (commitmentMask commitments) compression ∧
        ∃ stored data, records.mapM (·.stored) = .ok stored ∧
          load lib firstIndex records.length tag payload = .ok data ∧ data.firstIndex = firstIndex ∧
          data.readAll = .ok stored) ∧
    Recovers (compressionTag (commitmentMask commitments) compression) commitments compression ∧
    (∀ firstIndex count format bytes, (∃ r, load lib firstIndex count format bytes = some r) ∧
      ∃ r, ChunkData.new firstIndex format bytes count = some r ∧ ∀ data, r = .ok data →
        data.records.length = count ∧ (∀ range ∈ data.records, Inside data.bytes range) ∧
          ∀ index, ∃ r, data.stored index = some r) := by
  obtain ⟨hkind, hcommitment, hreference, -⟩ := compressionTag_bits commitments compression
  refine ⟨fun records tag payload firstIndex h => load_runCompressor hlossless firstIndex h,
    ⟨?_, hcommitment, hreference, fun _ hchunk => (chunk_bits hchunk).1, fun _ hchunk => (chunk_bits hchunk).2⟩,
    fun firstIndex count format bytes => ⟨load_some .., ?_⟩⟩
  · rw [hkind]
    exact fromTag_tag _
  · obtain ⟨r, hr, hdata⟩ := new_some firstIndex format bytes count
    exact ⟨r, hr, fun data h => ⟨(hdata data h).1, (hdata data h).2, stored_some (hdata data h).2⟩⟩

/-- An entry of the stream, and its confirmation as a reference. -/
def journal : List JournalRecord :=
  [⟨.processed, 7, false, .message (.entry (.limited
      { slot := 7
        index := 0
        executedTransactionCount := 0
        bankId := 0
        createdAt := ⟨1, 0⟩
        buffer := [8, 7]
        range := ⟨0, 2⟩ }))⟩,
    ⟨.confirmed, 7, false, .reference 40⟩]

theorem record_codec_journal :
    ∃ tag payload stored data,
      runCompressor ⟨fun _ bytes => bytes, some⟩ (commitmentMask [.processed, .confirmed]) none journal =
        .ok (tag, payload) ∧
      journal.mapM (·.stored) = .ok stored ∧
      load ⟨fun _ bytes => bytes, some⟩ 40 2 tag payload = .ok data ∧ data.readAll = .ok stored := by
  obtain ⟨r, hr⟩ : ∃ r : UInt8 × Bytes,
      runCompressor ⟨fun _ bytes => bytes, some⟩ (commitmentMask [.processed, .confirmed]) none journal = .ok r :=
    ⟨_, rfl⟩
  obtain ⟨-, stored, data, hstored, hload, -, hread⟩ :=
    (record_codec ⟨fun _ bytes => bytes, some⟩ (fun _ _ => rfl) [.processed, .confirmed] none).1
      journal r.1 r.2 40 hr
  exact ⟨r.1, r.2, stored, data, hr, hstored, hload, hread⟩

end Richat.Record
