import Richat.Segments.Places
import Richat.Storage.RecordSpec

/-!
# The journal as it was committed

`journalRead` is what there is to read at an index for someone who has every chunk that was ever committed at hand: it
knows no files, no catalog and no cache. What it says of an index stays as chunks are added.

`Gone` is an index that the catalog has lost, and `GivesUp` lists the reasons for which a replay ends before an index.
-/

namespace Richat.Segments

open Lib Lib.Crash Lib.Protobuf Record

/-! ### The journal -/

/-- The chunks were committed in the order of their indices. -/
structure InOrder (committed : List (ChunkMeta × Bytes)) : Prop where
  range : ∀ entry ∈ committed, entry.1.firstIndex ≤ entry.1.lastIndex
  sorted : committed.Pairwise fun a b => a.1.lastIndex < b.1.firstIndex

/-- The chunk of the index. -/
def journalChunk (lib : ReplayLib) (committed : List (ChunkMeta × Bytes)) (index : ℕ) :
    Option (Except ReplayError ChunkData) :=
  (committed.find? fun entry => entry.1.firstIndex ≤ index ∧ index ≤ entry.1.lastIndex).map fun entry =>
    decodeChunk lib.zstd entry.1 entry.2

/-- The record at the index. -/
def journalRead (lib : ReplayLib) (selection : Option ReplaySelection) (committed : List (ChunkMeta × Bytes))
    (index : ℕ) : Option (Except ReplayError Scanned) :=
  match journalChunk lib committed index with
  | none => none
  | some (.error e) => some (.error e)
  | some (.ok data) =>
    match readRecord lib selection data index with
    | .error e => some (.error e)
    | .ok (.record record) => some (.ok record)
    | .ok (.payload header target) =>
      match journalChunk lib committed target with
      | none => none
      | some (.error e) => some (.error e)
      | some (.ok data) => some (resolve lib header index target data)

/-- The record at the index is a reference to one of another chunk. -/
def Refers (lib : ReplayLib) (selection : Option ReplaySelection) (committed : List (ChunkMeta × Bytes))
    (header : RecordHeader) (index target : ℕ) : Prop :=
  ∃ data, journalChunk lib committed index = some (.ok data) ∧
    readRecord lib selection data index = .ok (.payload header target)

section

variable {lib : ReplayLib} {selection : Option ReplaySelection} {committed committed' : List (ChunkMeta × Bytes)}
  {chunk : ChunkMeta} {payload : Bytes} {data : ChunkData} {header : RecordHeader} {index target : ℕ}
  {d d' : Disk} {l : Operation}

theorem InOrder.of_prefix (h : InOrder committed') (hgrows : committed <+: committed') : InOrder committed :=
  ⟨fun entry hentry => h.range entry (hgrows.subset hentry), h.sorted.sublist hgrows.sublist⟩

theorem journalChunk_mono {r : Except ReplayError ChunkData} (h : journalChunk lib committed index = some r)
    (hgrows : committed <+: committed') : journalChunk lib committed' index = some r := by
  obtain ⟨more, rfl⟩ := hgrows
  unfold journalChunk at h ⊢
  obtain ⟨entry, hentry, hr⟩ := Option.map_eq_some_iff.mp h
  rw [List.find?_append, hentry, Option.some_or]
  exact congrArg some hr

theorem Refers.mono (h : Refers lib selection committed header index target) (hgrows : committed <+: committed') :
    Refers lib selection committed' header index target := by
  obtain ⟨data, hdata, hread⟩ := h
  exact ⟨data, journalChunk_mono hdata hgrows, hread⟩

/-- An index has one chunk. -/
theorem InOrder.journalChunk_eq (h : InOrder committed) (hchunk : (chunk, payload) ∈ committed)
    (hfirst : chunk.firstIndex ≤ index) (hlast : index ≤ chunk.lastIndex) :
    journalChunk lib committed index = some (decodeChunk lib.zstd chunk payload) := by
  obtain ⟨before, after, rfl⟩ := List.append_of_mem hchunk
  have hbefore : before.find? (fun entry => entry.1.firstIndex ≤ index ∧ index ≤ entry.1.lastIndex) = none := by
    refine List.find?_eq_none.mpr fun entry hentry => ?_
    have hlt := (List.pairwise_append.mp h.sorted).2.2 entry hentry _ List.mem_cons_self
    dsimp only at hlt
    simp only [decide_eq_true_eq, not_and, not_le]
    intro _
    omega
  unfold journalChunk
  rw [List.find?_append, hbefore, Option.none_or, List.find?_cons_of_pos (by simpa using ⟨hfirst, hlast⟩)]
  rfl

theorem journalRead_record (hchunk : journalChunk lib committed index = some (.ok data)) {record : Scanned}
    (hread : readRecord lib selection data index = .ok (.record record)) :
    journalRead lib selection committed index = some (.ok record) := by
  unfold journalRead
  rw [hchunk]
  dsimp only
  rw [hread]

theorem journalRead_error (hchunk : journalChunk lib committed index = some (.ok data)) {e : ReplayError}
    (hread : readRecord lib selection data index = .error e) :
    journalRead lib selection committed index = some (.error e) := by
  unfold journalRead
  rw [hchunk]
  dsimp only
  rw [hread]

theorem journalRead_chunk_error {e : ReplayError} (hchunk : journalChunk lib committed index = some (.error e)) :
    journalRead lib selection committed index = some (.error e) := by
  unfold journalRead
  rw [hchunk]

theorem Refers.journalRead (h : Refers lib selection committed header index target)
    (htarget : journalChunk lib committed target = some (.ok data)) :
    journalRead lib selection committed index = some (resolve lib header index target data) := by
  obtain ⟨data₀, hdata, hread⟩ := h
  unfold Segments.journalRead
  rw [hdata]
  dsimp only
  rw [hread]
  dsimp only
  rw [htarget]

theorem Refers.journalRead_error (h : Refers lib selection committed header index target) {e : ReplayError}
    (htarget : journalChunk lib committed target = some (.error e)) :
    Segments.journalRead lib selection committed index = some (.error e) := by
  obtain ⟨data₀, hdata, hread⟩ := h
  unfold Segments.journalRead
  rw [hdata]
  dsimp only
  rw [hread]
  dsimp only
  rw [htarget]

theorem journalRead_mono {r : Except ReplayError Scanned} (h : journalRead lib selection committed index = some r)
    (hgrows : committed <+: committed') : journalRead lib selection committed' index = some r := by
  unfold journalRead at h
  split at h
  · cases h
  · rename_i e hchunk
    obtain rfl := Option.some.inj h
    exact journalRead_chunk_error (journalChunk_mono hchunk hgrows)
  · rename_i data hchunk
    have hchunk' := journalChunk_mono hchunk hgrows
    split at h
    · rename_i e hread
      obtain rfl := Option.some.inj h
      exact Segments.journalRead_error hchunk' hread
    · rename_i record hread
      obtain rfl := Option.some.inj h
      exact journalRead_record hchunk' hread
    · rename_i header target hread
      have hrefers : Refers lib selection committed' header index target := ⟨data, hchunk', hread⟩
      split at h
      · cases h
      · rename_i e htarget
        obtain rfl := Option.some.inj h
        exact hrefers.journalRead_error (journalChunk_mono htarget hgrows)
      · rename_i target' htarget
        obtain rfl := Option.some.inj h
        exact hrefers.journalRead (journalChunk_mono htarget hgrows)

/-! ### What is decoded -/

/-- The records of a chunk are those of the catalog, and inside the bytes. -/
structure Decoded (chunk : ChunkMeta) (data : ChunkData) : Prop where
  firstIndex : data.firstIndex = chunk.firstIndex
  range : chunk.firstIndex ≤ chunk.lastIndex
  length : data.records.length = chunk.lastIndex - chunk.firstIndex + 1
  inside : ∀ range ∈ data.records, Inside data.bytes range

/-- No panic. -/
def Returns {α : Type} (r : Except ReplayError α) : Prop := r ≠ .error .panic

theorem Returns.ok {α : Type} (a : α) : Returns (.ok a) := by rintro ⟨⟩

theorem Returns.bind {α β : Type} {r : Except ReplayError α} {f : α → Except ReplayError β} (h : Returns r)
    (hf : ∀ a, r = .ok a → Returns (f a)) : Returns (r >>= f) := by
  cases r with
  | error e => exact fun heq => h (by cases heq; rfl)
  | ok a => exact hf a rfl

theorem Returns.ofReader {α : Type} {r : Reader α} (h : ∃ x, r = some x) : Returns (ofReader r) := by
  obtain ⟨x, rfl⟩ := h
  cases x <;> exact fun h => by cases h

theorem ofReader_eq_ok {α : Type} {r : Reader α} {a : α} (h : ofReader r = .ok a) : r = some (.ok a) := by
  unfold ofReader at h
  split at h <;> cases h
  rfl

theorem firstIndex_new {firstIndex count : ℕ} {format : UInt8} {bytes : Bytes}
    (h : ChunkData.new firstIndex format bytes count = some (.ok data)) : data.firstIndex = firstIndex := by
  unfold ChunkData.new Reader.andThen at h
  split at h
  · cases h
  · cases h
  · dsimp only at h
    split at h <;> cases h
    rfl

theorem decodeChunk_ok {zstd : Zstd} (h : decodeChunk zstd chunk payload = .ok data) : Decoded chunk data := by
  unfold decodeChunk at h
  obtain ⟨bytes, -, h⟩ := bind_eq_ok.mp h
  dsimp only at h
  split at h
  · cases h
  · rename_i hle
    have hnew := ofReader_eq_ok h
    obtain ⟨r, hr, hdata⟩ := new_some chunk.firstIndex (UInt8.ofNat chunk.compression) bytes
      (chunk.lastIndex - chunk.firstIndex + 1)
    obtain rfl := Option.some.inj (hr.symm.trans hnew)
    exact ⟨firstIndex_new hnew, not_lt.mp hle, (hdata data rfl).1, (hdata data rfl).2⟩

theorem Returns.decodeChunk {zstd : Zstd} : Returns (decodeChunk zstd chunk payload) := by
  refine Returns.bind ?_ fun bytes _ => ?_
  · unfold decompress
    split
    · rintro ⟨⟩
    · exact .ok _
    · split
      · rintro ⟨⟩
      · exact .ok _
  · dsimp only
    split
    · rintro ⟨⟩
    · obtain ⟨r, hr, -⟩ := new_some chunk.firstIndex (UInt8.ofNat chunk.compression) bytes
        (chunk.lastIndex - chunk.firstIndex + 1)
      exact .ofReader ⟨r, hr⟩

theorem parse_returns (record : Bytes) (format : UInt8) : ∃ r, RecordHeader.parse record format = some r := by
  obtain ⟨r, hr⟩ := parse_some record format
  cases hparse : RecordHeader.parse record format with
  | none =>
    rw [hparse] at hr
    cases hr
  | some r => exact ⟨r, rfl⟩

theorem Returns.headerAt (h : Decoded chunk data) (index : ℕ) : Returns (headerAt data index) := by
  refine Returns.bind (.ofReader ?_) fun record _ => .ofReader (parse_returns record data.format)
  unfold ChunkData.record
  split
  · exact ⟨_, rfl⟩
  · cases hrange : data.records[index - data.firstIndex]? with
    | none => exact ⟨_, rfl⟩
    | some range =>
      obtain ⟨hle, hlen⟩ := h.inside range (List.mem_of_getElem? hrange)
      exact ⟨_, by simp only [sliceBytes, if_pos (And.intro hle hlen)]; rfl⟩

theorem Returns.decodeMessage (lib : ReplayLib) (header : RecordHeader) : Returns (decodeMessage lib header) := by
  unfold Segments.decodeMessage
  split
  · rintro ⟨⟩
  · split
    · exact .ok _
    · rintro ⟨⟩

theorem Returns.resolve (h : Decoded chunk data) : Returns (resolve lib header index target data) := by
  refine Returns.bind (.headerAt h target) fun original _ => ?_
  dsimp only
  split
  · rintro ⟨⟩
  · exact (Returns.decodeMessage lib original).bind fun message _ => .ok _

theorem Returns.readRecord (h : Decoded chunk data) : Returns (readRecord lib selection data index) := by
  refine Returns.bind (.headerAt h index) fun header _ => ?_
  dsimp only
  split
  · exact .ok _
  · split
    · refine Returns.bind (.ofReader ?_) fun r _ => ?_
      · rcases readVarint_some (fun _ => .invalidPayloadReference) header.payload with ⟨e, he⟩ | ⟨n, rest, hrest, -⟩
        · exact ⟨_, he⟩
        · exact ⟨_, hrest⟩
      · split
        · rintro ⟨⟩
        · split
          · exact (Returns.resolve h).bind fun record _ => .ok _
          · exact .ok _
    · exact (Returns.decodeMessage lib header).bind fun message _ => .ok _

theorem resolve_index {record : Scanned} (h : resolve lib header index target data = .ok record) :
    record.index = index := by
  obtain ⟨original, -, h⟩ := bind_eq_ok.mp h
  dsimp only at h
  split at h
  · cases h
  · obtain ⟨message, -, h⟩ := bind_eq_ok.mp h
    cases h
    rfl

/-- A record has its index, and a reference goes to an earlier record of another chunk. -/
theorem readRecord_ok {r : RecordRead} (h : readRecord lib selection data index = .ok r) :
    (∃ record, r = .record record ∧ record.index = index) ∨
      ∃ header target, r = .payload header target ∧ target < index ∧ hasRecord data target = false := by
  obtain ⟨header, -, h⟩ := bind_eq_ok.mp h
  dsimp only at h
  split at h
  · cases h
    exact .inl ⟨_, rfl, rfl⟩
  · split at h
    · obtain ⟨⟨target, payload⟩, -, h⟩ := bind_eq_ok.mp h
      dsimp only at h
      split at h
      · cases h
      · rename_i hok
        split at h
        · obtain ⟨record, hrecord, h⟩ := bind_eq_ok.mp h
          cases h
          exact .inl ⟨record, rfl, resolve_index hrecord⟩
        · rename_i hother
          cases h
          exact .inr ⟨header, target, rfl, not_le.mp fun hle => hok (.inr hle), eq_false_of_ne_true hother⟩
    · obtain ⟨message, -, h⟩ := bind_eq_ok.mp h
      cases h
      exact .inl ⟨_, rfl, rfl⟩

/-! ### What is gone -/

/-- The catalog has lost the index, and gets it back no more. -/
structure Gone (d : Disk) (index : ℕ) : Prop where
  committed : ∃ entry ∈ d.committed, index ≤ entry.1.lastIndex
  lost : ¬d.catalog.Retains index

theorem mem_chunks_exec (hexec : exec l d = .ok d') (hchunk : chunk ∈ d'.catalog.chunks) :
    chunk ∈ d.catalog.chunks ∨ ∃ entry ∈ l.commits, entry.1 = chunk := by
  rw [(exec_catalog hexec).1] at hchunk
  cases l with
  | chunkCommit commit payload =>
    rcases List.mem_append.mp hchunk with hchunk | hchunk
    · exact .inl hchunk
    · exact .inr ⟨_, List.mem_singleton_self _, (List.mem_singleton.mp hchunk).symm⟩
  | trimCommit commit => exact .inl (List.mem_of_mem_filter hchunk)
  | _ => exact .inl hchunk

theorem Gone.exec (h : Gone d index) (hexec : exec l d = .ok d') (horder : InOrder d'.committed) : Gone d' index := by
  obtain ⟨entry, hentry, hle⟩ := h.committed
  refine ⟨⟨entry, (exec_committed hexec).subset hentry, hle⟩, fun ⟨chunk, hchunk, hfirst, hlast⟩ => ?_⟩
  rcases mem_chunks_exec hexec hchunk with hchunk | ⟨new, hnew, rfl⟩
  · exact h.lost ⟨chunk, hchunk, hfirst, hlast⟩
  · -- a new chunk begins behind all others
    have hsorted := horder.sorted
    rw [(exec_catalog hexec).2] at hsorted
    have hlt := (List.pairwise_append.mp hsorted).2.2 entry hentry new hnew
    omega

theorem mem_of_lookupChunk {catalog : MetadataMirror} (h : lookupChunk catalog index = some chunk) :
    chunk ∈ catalog.chunks ∧ index ≤ chunk.lastIndex :=
  ⟨List.mem_of_find?_eq_some h, by simpa using List.find?_some h⟩

theorem Listed.sorted (h : Listed d) (horder : InOrder d.committed) :
    d.catalog.chunks.Pairwise fun a b => a.lastIndex < b.firstIndex :=
  (List.pairwise_map.mpr horder.sorted).sublist h

theorem not_retains_of_lt (h : Listed d) (horder : InOrder d.committed)
    (hlookup : lookupChunk d.catalog index = some chunk) (hlt : index < chunk.firstIndex) :
    ¬d.catalog.Retains index := by
  rintro ⟨other, hother, hfirst, hlast⟩
  obtain ⟨-, before, after, hchunks, hbefore⟩ := List.find?_eq_some_iff_append.mp hlookup
  have hsorted := h.sorted horder
  rw [hchunks] at hother hsorted
  rcases List.mem_append.mp hother with hother | hother
  · simpa [hlast] using hbefore other hother
  · rcases List.mem_cons.mp hother with rfl | hother
    · omega
    · have hnext := (List.pairwise_cons.mp (List.pairwise_append.mp hsorted).2.1).1 other hother
      have := (mem_of_lookupChunk hlookup).2
      omega

theorem not_retains_of_none {catalog : MetadataMirror} (h : lookupChunk catalog index = none) :
    ¬catalog.Retains index := by
  rintro ⟨chunk, hchunk, -, hlast⟩
  simpa [hlast] using List.find?_eq_none.mp h chunk hchunk

/-- Why a scan ends before the index. -/
inductive GivesUp (lib : ReplayLib) (selection : Option ReplaySelection) (d : Disk) (index : ℕ) :
    ReplayError → Prop where
  /-- the record was trimmed -/
  | prunedBefore (hgone : Gone d index) : GivesUp lib selection d index (.prunedBefore index)
  /-- the record is a reference to one that was trimmed -/
  | payloadPruned {header : RecordHeader} {target : ℕ} (hrefers : Refers lib selection d.committed header index target)
    (hgone : Gone d target) : GivesUp lib selection d index .payloadPruned
  /-- the segment of the record, or of the one that it refers to, was deleted while the chunk was loaded -/
  | openSegment {chunk : ChunkMeta} {payload : Bytes} {target : ℕ} (hcommitted : (chunk, payload) ∈ d.committed)
    (htarget : target = index ∨ ∃ header, Refers lib selection d.committed header index target)
    (hfirst : chunk.firstIndex ≤ target) (hlast : target ≤ chunk.lastIndex) (hdeleted : Deleted chunk.segmentId d) :
    GivesUp lib selection d index (.openSegment chunk.segmentId)
  /-- the journal has no record there -/
  | journal {e : ReplayError} (hreturns : e ≠ .panic)
    (hread : journalRead lib selection d.committed index = some (.error e)) : GivesUp lib selection d index e

theorem GivesUp.exec {e : ReplayError} (h : GivesUp lib selection d index e) (hcalm : Calm d l)
    (hexec : exec l d = .ok d') (horder : InOrder d'.committed) : GivesUp lib selection d' index e := by
  have hgrows := exec_committed hexec
  cases h with
  | prunedBefore hgone => exact .prunedBefore (hgone.exec hexec horder)
  | payloadPruned hrefers hgone => exact .payloadPruned (hrefers.mono hgrows) (hgone.exec hexec horder)
  | openSegment hcommitted htarget hfirst hlast hdeleted =>
    refine .openSegment (hgrows.subset hcommitted) ?_ hfirst hlast (hdeleted.exec hcalm hexec)
    exact htarget.imp_right fun ⟨header, h⟩ => ⟨header, h.mono hgrows⟩
  | journal hreturns hread => exact .journal hreturns (journalRead_mono hread hgrows)

/-! ### The loader -/

/-- The file is what has its name, the chunks are those of the journal, and the cache stays small. -/
structure LoaderInv (lib : ReplayLib) (d : Disk) (loader : ChunkLoader) : Prop where
  file : ∀ held ∈ loader.file, held.1 < d.catalog.state.nextSegmentId ∧
    ∀ file, d.files.get? (segmentFileName held.1) = some file → file = held.2
  cache : ∀ data ∈ loader.cache, ∃ entry ∈ d.committed, decodeChunk lib.zstd entry.1 entry.2 = .ok data
  bytes : loader.cacheBytes = (loader.cache.map chunkSize).sum
  length : loader.cache.length ≤ 2
  small : loader.cacheBytes ≤ ChunkLoader.maxBytes ∨ loader.cache.length ≤ 1

theorem loaderInv_new (lib : ReplayLib) (d : Disk) : LoaderInv lib d .new where
  file := by rintro _ ⟨⟩
  cache := by rintro _ ⟨⟩
  bytes := rfl
  length := Nat.zero_le _
  small := .inl (Nat.zero_le _)

/-- The first chunks leave the cache, until there is place for one of the size. -/
theorem evict_spec (size : ℕ) : ∀ {cache cache' : List ChunkData} {bytes bytes' : ℕ},
    bytes = (cache.map chunkSize).sum → ChunkLoader.evict size cache bytes = (cache', bytes') →
    cache' <:+ cache ∧ bytes' = (cache'.map chunkSize).sum ∧ cache'.length ≤ 1 ∧
      (cache' = [] ∨ bytes' + size ≤ ChunkLoader.maxBytes)
  | [], _, _, _, hbytes, h => by
    cases h
    exact ⟨List.suffix_rfl, hbytes, Nat.zero_le _, .inl rfl⟩
  | data :: cache, cache', bytes, bytes', hbytes, h => by
    unfold ChunkLoader.evict at h
    split at h
    · have hrest : bytes - chunkSize data = (cache.map chunkSize).sum := by
        rw [hbytes, List.map_cons, List.sum_cons, Nat.add_sub_cancel_left]
      obtain ⟨hsuffix, hspec⟩ := evict_spec size hrest h
      exact ⟨hsuffix.trans (List.suffix_cons ..), hspec⟩
    · rename_i hfits
      cases h
      rw [List.length_cons] at hfits ⊢
      exact ⟨List.suffix_rfl, hbytes, by omega, .inr (by omega)⟩

theorem LoaderInv.add {loader : ChunkLoader} (h : LoaderInv lib d loader) (hchunk : (chunk, payload) ∈ d.committed)
    (hdata : decodeChunk lib.zstd chunk payload = .ok data) : LoaderInv lib d (loader.add data) := by
  unfold ChunkLoader.add
  obtain ⟨⟨cache, bytes⟩, hevict⟩ :
      ∃ r, ChunkLoader.evict (chunkSize data) loader.cache loader.cacheBytes = r := ⟨_, rfl⟩
  obtain ⟨hsuffix, hbytes, hlength, hfits⟩ := evict_spec (chunkSize data) h.bytes hevict
  rw [hevict]
  refine ⟨h.file, fun data' hmem => ?_, ?_, ?_, ?_⟩
  · rcases List.mem_append.mp hmem with hmem | hmem
    · exact h.cache data' (hsuffix.subset hmem)
    · obtain rfl := List.mem_singleton.mp hmem
      exact ⟨_, hchunk, hdata⟩
  · simp only [List.map_append, List.map_cons, List.map_nil, List.sum_append, List.sum_cons, List.sum_nil, hbytes,
      Nat.add_zero]
  · rw [List.length_append, List.length_singleton]
    omega
  · rcases hfits with rfl | hfits
    · exact .inr le_rfl
    · exact .inl hfits

/-- A chunk of the cache is used. -/
theorem LoaderInv.cached {loader loader' : ChunkLoader} (h : LoaderInv lib d loader) (horder : InOrder d.committed)
    (hchunk : (chunk, payload) ∈ d.committed) (hcached : loader.cached? chunk = some (data, loader')) :
    LoaderInv lib d loader' ∧ loader'.file = loader.file ∧ decodeChunk lib.zstd chunk payload = .ok data := by
  unfold ChunkLoader.cached? at hcached
  obtain ⟨data', hfind, heq⟩ := Option.map_eq_some_iff.mp hcached
  obtain ⟨rfl, rfl⟩ := Prod.mk.inj heq
  have hmem := List.mem_of_find?_eq_some hfind
  have hfirst : data'.firstIndex = chunk.firstIndex := by simpa using List.find?_some hfind
  obtain ⟨entry, hentry, hdata⟩ := h.cache data' hmem
  have hdecoded := decodeChunk_ok hdata
  have hperm : (loader.cache.eraseP (·.firstIndex = chunk.firstIndex) ++ [data']).Perm loader.cache := by
    obtain ⟨-, before, after, hcache, hbefore⟩ := List.find?_eq_some_iff_append.mp hfind
    rw [hcache, List.eraseP_append_right _ fun x hx => by simpa using hbefore x hx,
      List.eraseP_cons_of_pos (by simpa using hfirst), List.append_assoc]
    exact (List.perm_append_singleton data' after).append_left before
  refine ⟨⟨h.file, fun x hx => h.cache x (hperm.subset hx), ?_, ?_, ?_⟩, rfl, ?_⟩
  · exact h.bytes.trans (hperm.map chunkSize).sum_eq.symm
  · exact hperm.length_eq.trans_le h.length
  · exact h.small.imp_right hperm.length_eq.trans_le
  · -- both chunks have the first index
    have hone : journalChunk lib d.committed chunk.firstIndex = some (decodeChunk lib.zstd chunk payload) :=
      horder.journalChunk_eq hchunk le_rfl (horder.range _ hchunk)
    have htwo : journalChunk lib d.committed chunk.firstIndex = some (decodeChunk lib.zstd entry.1 entry.2) :=
      horder.journalChunk_eq hentry (by rw [← hfirst, hdecoded.firstIndex])
        (by rw [← hfirst, hdecoded.firstIndex]; exact hdecoded.range)
    rw [hone] at htwo
    exact (Option.some.inj htwo).trans hdata

end

end Richat.Segments
