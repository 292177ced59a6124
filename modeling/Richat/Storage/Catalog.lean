import Richat.Storage.Gather
import Richat.Storage.Node

/-!
# The catalog and the journal

`CatalogView` says what the disk has of the journal that was written so far: the chunks are in order,
the catalog has the head of every slot since the last live epoch, and every record from such a head on
is in a chunk of the catalog. `appendChunk`, `rotateSegment` and `handleTrim` keep it; a trim deletes
nothing of these slots, and never the last chunk.
-/

namespace Richat

open Lib

/-- The catalog has a chunk that ends at the index or later. -/
def MetadataMirror.Reaches (catalog : MetadataMirror) (index : ℕ) : Prop :=
  ∃ chunk ∈ catalog.chunks, index ≤ chunk.lastIndex

/-- The head of a slot in the catalog. -/
def headOf (slots : SortedMap Slot SlotMeta) (slot : Slot) : Option ℕ :=
  (slots.get? slot).map (·.firstIndex)

/-- What the disk has of the journal. -/
structure CatalogView (j : Journal) (w : SegmentWriter) (disk : Disk) : Prop where
  sorted : disk.catalog.chunks.Pairwise fun a b => a.lastIndex < b.firstIndex
  range : ∀ chunk ∈ disk.catalog.chunks,
    chunk.firstIndex ≤ chunk.lastIndex ∧ chunk.lastIndex < j.next
  written : ∀ i r, disk.record i = some r → disk.catalog.Reaches i
  heads : ∀ t h, j.heads.get? t = some h → disk.catalog.Reaches h
  slots : ∀ t h, disk.catalog.replayFloor ≤ h →
    (j.heads.get? t = some h ↔ headOf disk.catalog.slots t = some h)
  rows : ∀ t m, disk.catalog.slots.get? t = some m → m.slot = t ∧
    m.segmentId < disk.catalog.state.nextSegmentId ∧
      ∀ segment, disk.catalog.segments.get? m.segmentId = some segment →
        m.firstIndex ≤ segment.lastIndex
  chunkSegment : ∀ chunk ∈ disk.catalog.chunks, ∃ segment,
    disk.catalog.segments.get? chunk.segmentId = some segment ∧
      chunk.lastIndex ≤ segment.lastIndex
  segments : ∀ k segment, disk.catalog.segments.get? k = some segment → segment.segmentId = k ∧
    k < disk.catalog.state.nextSegmentId ∧
      (segment.lastIndex = 0 ∨ disk.catalog.Reaches segment.lastIndex)
  active : disk.catalog.segments.get? disk.catalog.state.activeSegmentId = some w.activeSegment ∧
    w.activeSegment.isSealed = false ∧ disk.catalog.state.activeSegmentId ≠ 0
  retained : ∀ i r, disk.record i = some r → ∀ t h, j.heads.get? t = some h →
    disk.catalog.replayFloor ≤ h → h ≤ i → disk.catalog.Retains i

/-! ### The rows of the slots -/

section Rows

variable {slots : SortedMap Slot SlotMeta} {metas : List SlotMeta} {t : Slot} {m : SlotMeta}

theorem get?_insertSlots (h : (MetadataMirror.insertSlots slots metas).get? t = some m) :
    m ∈ metas ∧ m.slot = t ∨ slots.get? t = some m := by
  induction metas generalizing slots with
  | nil => exact Or.inr h
  | cons m' metas ih =>
    rcases ih h with ⟨hmem, hslot⟩ | hget
    · exact Or.inl ⟨List.mem_cons_of_mem _ hmem, hslot⟩
    · rw [SortedMap.get?_insert] at hget
      split at hget
      · rename_i heq
        obtain rfl := Option.some.inj hget
        exact Or.inl ⟨List.mem_cons_self, heq.symm⟩
      · exact Or.inr hget

theorem headOf_insert (slots : SortedMap Slot SlotMeta) (m : SlotMeta) (t : Slot) :
    headOf (slots.insert m.slot m) t = if t = m.slot then some m.firstIndex else headOf slots t := by
  unfold headOf
  rw [SortedMap.get?_insert]
  split <;> rfl

/-- Rows with the heads that the slots already have. -/
theorem headOf_insertSlots (h : ∀ m ∈ metas, headOf slots m.slot = some m.firstIndex) :
    headOf (MetadataMirror.insertSlots slots metas) t = headOf slots t := by
  induction metas generalizing slots with
  | nil => rfl
  | cons m metas ih =>
    have hkeep : ∀ t, headOf (slots.insert m.slot m) t = headOf slots t := by
      intro t
      rw [headOf_insert]
      split
      · rename_i heq
        rw [heq, h m List.mem_cons_self]
      · rfl
    refine (ih fun m' hm' => ?_).trans (hkeep t)
    rw [hkeep, h m' (List.mem_cons_of_mem _ hm')]

theorem headOf_insertSlots_of_not_mem (h : ∀ m ∈ metas, m.slot ≠ t) :
    headOf (MetadataMirror.insertSlots slots metas) t = headOf slots t := by
  induction metas generalizing slots with
  | nil => rfl
  | cons m metas ih =>
    refine (ih fun m' hm' => h m' (List.mem_cons_of_mem _ hm')).trans ?_
    rw [headOf_insert, if_neg (h m List.mem_cons_self).symm]

/-- The rows of the slots that begin in a chunk. -/
theorem slots_newSlots {floor : ℕ} (segmentId : ℕ) (finalized : Slot → Bool) :
    ∀ (pending : List PendingSlot) {heads : SortedMap Slot ℕ} {slots : SortedMap Slot SlotMeta},
    (∀ t h, floor ≤ h → (heads.get? t = some h ↔ headOf slots t = some h)) →
    ∀ t h, floor ≤ h →
      ((pending.foldl (fun heads p => heads.insert p.slot p.firstIndex) heads).get? t = some h ↔
        headOf (MetadataMirror.insertSlots slots
          (pending.map fun p => ⟨p.slot, finalized p.slot, p.firstIndex, segmentId⟩)) t = some h)
  | [], _, _, hslots => hslots
  | p :: pending, heads, slots, hslots => by
    refine slots_newSlots segmentId finalized pending fun t h hle => ?_
    rw [SortedMap.get?_insert, headOf_insert]
    split
    · rfl
    · exact hslots t h hle

theorem get?_foldl_insert {pending : List PendingSlot} {heads : SortedMap Slot ℕ} {h : ℕ}
    (hget : (pending.foldl (fun heads p => heads.insert p.slot p.firstIndex) heads).get? t = some h) :
    (∃ p ∈ pending, p.firstIndex = h) ∨ heads.get? t = some h := by
  induction pending generalizing heads with
  | nil => exact Or.inr hget
  | cons p pending ih =>
    rcases ih hget with ⟨p', hmem, heq⟩ | hget
    · exact Or.inl ⟨p', List.mem_cons_of_mem _ hmem, heq⟩
    · rw [SortedMap.get?_insert] at hget
      split at hget
      · exact Or.inl ⟨p, List.mem_cons_self, Option.some.inj hget⟩
      · exact Or.inr hget

theorem get?_foldl_erase {κ υ : Type*} [LinearOrder κ] (ks : List κ) (k : κ) :
    ∀ m : SortedMap κ υ, (ks.foldl (·.erase ·) m).get? k = if k ∈ ks then none else m.get? k := by
  induction ks with
  | nil => simp
  | cons a ks ih =>
    intro m
    rw [List.foldl_cons, ih, SortedMap.get?_erase]
    by_cases hks : k ∈ ks
    · simp [hks]
    · by_cases ha : k = a <;> simp [hks, ha]

/-- A segment is deleted when it is sealed and ends before the bound. -/
theorem MetadataMirror.mem_deletedSegments (catalog : MetadataMirror) {upTo : Option ℕ} {k : ℕ}
    (hids : ∀ k segment, catalog.segments.get? k = some segment → segment.segmentId = k)
    (hk : k ∈ deletedSegments catalog upTo) :
    ∃ segment, catalog.segments.get? k = some segment ∧ segment.isSealed = true ∧
      ∃ floor, upTo = some floor ∧ segment.lastIndex < floor := by
  cases upTo with
  | none => cases hk
  | some floor =>
    obtain ⟨segment, hmem, rfl⟩ := List.mem_map.mp hk
    obtain ⟨hmem, hcond⟩ := List.mem_filter.mp hmem
    obtain ⟨⟨k, segment'⟩, he, rfl⟩ := List.mem_map.mp hmem
    have hget := SortedMap.get?_eq_some.mpr he
    simp only [decide_eq_true_eq] at hcond
    rw [hids k _ hget]
    exact ⟨_, hget, hcond.1, floor, rfl, hcond.2.2⟩

end Rows

/-! ### The end of the journal -/

section Reaches

variable {catalog : MetadataMirror} {i k : ℕ}

theorem CatalogView.lt_next {j : Journal} {w : SegmentWriter} {disk : Disk}
    (h : CatalogView j w disk) (hi : disk.catalog.Reaches i) : i < j.next := by
  obtain ⟨chunk, hmem, hlast⟩ := hi
  exact hlast.trans_lt (h.range chunk hmem).2

/-- The last chunk of a list of chunks in order reaches as far as all of them. -/
theorem le_getLast {chunks : List ChunkMeta}
    (hsorted : chunks.Pairwise fun a b => a.lastIndex < b.firstIndex)
    (hrange : ∀ chunk ∈ chunks, chunk.firstIndex ≤ chunk.lastIndex) {chunk : ChunkMeta}
    (hmem : chunk ∈ chunks) : ∃ last, chunks.getLast? = some last ∧
      chunk.lastIndex ≤ last.lastIndex := by
  induction chunks using List.reverseRecOn with
  | nil => cases hmem
  | append_singleton chunks last ih =>
    refine ⟨last, List.getLast?_concat, ?_⟩
    rcases List.mem_append.mp hmem with hmem | hmem
    · have hlt := (List.pairwise_append.mp hsorted).2.2 chunk hmem last (List.mem_singleton.mpr rfl)
      exact hlt.le.trans (hrange last (List.mem_append_right _ (List.mem_singleton.mpr rfl)))
    · rw [List.mem_singleton.mp hmem]

/-- **No index is used again.** -/
theorem CatalogView.lt_nextIndex {j : Journal} {w : SegmentWriter} {disk : Disk}
    (h : CatalogView j w disk) (hi : disk.catalog.Reaches i) : i < disk.catalog.nextIndex := by
  obtain ⟨chunk, hmem, hle⟩ := hi
  obtain ⟨last, hlast, hle'⟩ := le_getLast h.sorted (fun c hc => (h.range c hc).1) hmem
  unfold MetadataMirror.nextIndex
  rw [hlast]
  exact lt_max_of_lt_left (Nat.lt_succ_of_le (hle.trans hle'))

end Reaches

/-! ### The commits -/

section Commits

variable {cfg : ConfigNode} {j j' : Journal} {w : SegmentWriter} {disk : Disk} {chunk : PendingChunk}
  {l : List WriterCommand}

theorem PendingChunk.record?_of_lt {i : ℕ} (h : i < chunk.firstIndex) : chunk.record? i = none :=
  if_neg (not_le.mpr h)

theorem PendingChunk.Covers.record?_range (hcov : chunk.Covers j j' l) (hne : chunk.records ≠ [])
    {i : ℕ} {r : RawRecord} (h : chunk.record? i = some r) :
    chunk.firstIndex ≤ i ∧ i ≤ chunk.lastIndex := by
  obtain ⟨hfirst, hlast⟩ := hcov.range hne
  have hnext := hcov.next
  unfold record? at h
  split at h
  · rename_i hle
    obtain ⟨hlt, -⟩ := List.getElem?_eq_some_iff.mp h
    omega
  · cases h

/-- The rows that a chunk updates keep their heads. -/
theorem mem_updatedSlots (catalog : MetadataMirror) (activeSegment : SegmentMeta)
    (chunkMeta : ChunkMeta) (pending : List PendingSlot) (finalized : List Slot) {m : SlotMeta}
    (hrows : ∀ t m, catalog.slots.get? t = some m → m.slot = t)
    (h : m ∈ (buildChunkCommit catalog activeSegment chunkMeta pending finalized).updatedSlots) :
    (∃ old, catalog.slots.get? m.slot = some old ∧ old.firstIndex = m.firstIndex ∧
      old.segmentId = m.segmentId) ∧
    ∀ new ∈ (buildChunkCommit catalog activeSegment chunkMeta pending finalized).newSlots,
      new.slot ≠ m.slot := by
  obtain ⟨slot, -, hbind⟩ := List.mem_filterMap.mp h
  obtain ⟨old, hold, hnew⟩ := Option.bind_eq_some_iff.mp hbind
  have hslot := hrows slot old hold
  split at hnew
  · cases hnew
  · rename_i hany
    obtain rfl := Option.some.inj hnew
    refine ⟨⟨old, ?_, rfl, rfl⟩, ?_⟩
    · rw [← hslot] at hold
      exact hold
    · intro new hmem heq
      refine hany (List.any_eq_true.mpr ⟨new, hmem, ?_⟩)
      rw [← hslot]
      exact decide_eq_true heq

theorem headOf_applyChunkCommit (catalog : MetadataMirror) (activeSegment : SegmentMeta)
    (chunkMeta : ChunkMeta) (pending : List PendingSlot) (finalized : List Slot)
    (hrows : ∀ t m, catalog.slots.get? t = some m → m.slot = t) (t : Slot) :
    let commit := buildChunkCommit catalog activeSegment chunkMeta pending finalized
    headOf (catalog.applyChunkCommit commit).slots t =
      headOf (MetadataMirror.insertSlots catalog.slots commit.newSlots) t := by
  refine headOf_insertSlots fun m hm => ?_
  obtain ⟨⟨old, hold, hfirst, -⟩, hother⟩ :=
    mem_updatedSlots catalog activeSegment chunkMeta pending finalized hrows hm
  rw [headOf_insertSlots_of_not_mem hother, headOf, hold, ← hfirst]
  rfl

/-- **A chunk is written.** -/
theorem CatalogView.appendChunk (h : CatalogView j w disk) (hcov : chunk.Covers j j' l)
    (hne : chunk.records ≠ []) :
    CatalogView j' (w.appendChunk cfg disk chunk).1 (w.appendChunk cfg disk chunk).2 := by
  obtain ⟨hfirst, hlast⟩ := hcov.range hne
  have hpos := List.length_pos_iff.mpr hne
  have hnext := hcov.next
  obtain ⟨hactive, hsealed, hzero⟩ := h.active
  obtain ⟨hid, hlt, hold⟩ := h.segments _ _ hactive
  have hold : w.activeSegment.lastIndex ≤ chunk.lastIndex := by
    rcases hold with hold | hold
    · omega
    · have := h.lt_next hold
      omega
  let last : ChunkMeta := (⟨w.activeSegment.segmentId, w.activeSegment.fileLen,
    cfg.storage.compressedSize chunk, SegmentWriter.compression cfg, chunk.firstIndex,
    chunk.lastIndex⟩ : ChunkMeta)
  have hmem : last ∈ (w.appendChunk cfg disk chunk).2.catalog.chunks :=
    List.mem_append_right _ (List.mem_singleton.mpr rfl)
  have hreach : ∀ {i}, disk.catalog.Reaches i →
      (w.appendChunk cfg disk chunk).2.catalog.Reaches i := by
    rintro i ⟨c, hc, hle⟩
    exact ⟨c, List.mem_append_left _ hc, hle⟩
  have hsegment : ∀ k, (w.appendChunk cfg disk chunk).2.catalog.segments.get? k =
      if k = w.activeSegment.segmentId then some (w.appendChunk cfg disk chunk).1.activeSegment
      else disk.catalog.segments.get? k := fun k => SortedMap.get?_insert ..
  -- a segment that had an index has it
  have hgrow : ∀ k segment, disk.catalog.segments.get? k = some segment →
      ∃ segment', (w.appendChunk cfg disk chunk).2.catalog.segments.get? k = some segment' ∧
        segment.lastIndex ≤ segment'.lastIndex := by
    intro k segment hk
    rw [hsegment]
    split
    · rename_i heq
      rw [heq, hid, hactive] at hk
      obtain rfl := Option.some.inj hk
      exact ⟨_, rfl, hold⟩
    · exact ⟨segment, hk, le_rfl⟩
  have hcases : ∀ k segment, (w.appendChunk cfg disk chunk).2.catalog.segments.get? k = some segment →
      k = w.activeSegment.segmentId ∧ segment = (w.appendChunk cfg disk chunk).1.activeSegment ∨
        disk.catalog.segments.get? k = some segment := by
    intro k segment hk
    rw [hsegment] at hk
    split at hk
    · rename_i heq
      exact Or.inl ⟨heq, (Option.some.inj hk).symm⟩
    · exact Or.inr hk
  have hupdated := fun m => mem_updatedSlots disk.catalog w.activeSegment last chunk.pendingSlots
    chunk.pendingFinalized (m := m) fun t m hm => (h.rows t m hm).1
  have hnew : ∀ m ∈ (buildChunkCommit disk.catalog w.activeSegment last chunk.pendingSlots
      chunk.pendingFinalized).newSlots, m.segmentId = w.activeSegment.segmentId ∧
        m.firstIndex ≤ chunk.lastIndex := by
    intro m hm
    obtain ⟨p, hp, rfl⟩ := List.mem_map.mp hm
    refine ⟨rfl, ?_⟩
    have := (hcov.slots p hp).2
    show p.firstIndex ≤ chunk.lastIndex
    omega
  have hrow : ∀ t m, disk.catalog.slots.get? t = some m → ∀ segment,
      (w.appendChunk cfg disk chunk).2.catalog.segments.get? m.segmentId = some segment →
        m.firstIndex ≤ segment.lastIndex := by
    intro t m hm segment hk
    rcases hcases _ segment hk with ⟨heq, rfl⟩ | hk
    · rw [hid] at heq
      exact ((h.rows t m hm).2.2 _ (heq ▸ hactive)).trans hold
    · exact (h.rows t m hm).2.2 segment hk
  constructor
  · refine List.pairwise_append.mpr ⟨h.sorted, List.pairwise_singleton _ _, ?_⟩
    intro c hc c' hc'
    obtain rfl : c' = last := List.mem_singleton.mp hc'
    have := (h.range c hc).2
    show c.lastIndex < chunk.firstIndex
    omega
  · intro c hc
    rcases List.mem_append.mp hc with hc | hc
    · obtain ⟨hle, hlt⟩ := h.range c hc
      exact ⟨hle, by omega⟩
    · obtain rfl : c = last := List.mem_singleton.mp hc
      show chunk.firstIndex ≤ chunk.lastIndex ∧ chunk.lastIndex < j'.next
      omega
  · intro i r hr
    rcases Option.or_eq_some_iff.mp hr with hr | ⟨-, hr⟩
    · exact ⟨last, hmem, (hcov.record?_range hne hr).2⟩
    · exact hreach (h.written i r hr)
  · intro t n hget
    rw [hcov.heads] at hget
    rcases get?_foldl_insert hget with ⟨p, hp, rfl⟩ | hget
    · refine ⟨last, hmem, ?_⟩
      have := (hcov.slots p hp).2
      show p.firstIndex ≤ chunk.lastIndex
      omega
    · exact hreach (h.heads t n hget)
  · intro t n hle
    rw [hcov.heads]
    refine (slots_newSlots w.activeSegment.segmentId (· ∈ chunk.pendingFinalized)
      chunk.pendingSlots h.slots t n hle).trans ?_
    exact (congrArg (· = some n) (headOf_applyChunkCommit disk.catalog w.activeSegment last
      chunk.pendingSlots chunk.pendingFinalized (fun t m hm => (h.rows t m hm).1) t)).symm.to_iff
  · intro t m hm
    rcases get?_insertSlots hm with ⟨hm, hslot⟩ | hm
    · obtain ⟨⟨old, hold, hfirst, hsegmentId⟩, -⟩ := hupdated m hm
      refine ⟨hslot, hsegmentId ▸ (h.rows _ old hold).2.1, fun segment hk => ?_⟩
      rw [← hfirst]
      exact hrow _ old hold segment (hsegmentId ▸ hk)
    · rcases get?_insertSlots hm with ⟨hm, hslot⟩ | hm
      · obtain ⟨hsegmentId, hle⟩ := hnew m hm
        refine ⟨hslot, hsegmentId ▸ hid ▸ hlt, fun segment hk => ?_⟩
        rw [hsegment, if_pos hsegmentId] at hk
        obtain rfl := Option.some.inj hk
        exact hle
      · exact ⟨(h.rows t m hm).1, (h.rows t m hm).2.1, hrow t m hm⟩
  · intro c hc
    rcases List.mem_append.mp hc with hc | hc
    · obtain ⟨segment, hk, hle⟩ := h.chunkSegment c hc
      obtain ⟨segment', hk', hle'⟩ := hgrow _ _ hk
      exact ⟨segment', hk', hle.trans hle'⟩
    · obtain rfl : c = last := List.mem_singleton.mp hc
      exact ⟨_, (hsegment _).trans (if_pos rfl), le_rfl⟩
  · intro k segment hk
    rcases hcases k segment hk with ⟨rfl, rfl⟩ | hk
    · exact ⟨rfl, hid ▸ hlt, Or.inr ⟨last, hmem, le_rfl⟩⟩
    · obtain ⟨hid', hlt', hlast'⟩ := h.segments k segment hk
      exact ⟨hid', hlt', hlast'.imp_right hreach⟩
  · exact ⟨(hsegment _).trans (if_pos hid.symm), hsealed, hzero⟩
  · intro i r hr t n hget hfloor hle
    rcases Option.or_eq_some_iff.mp hr with hr | ⟨-, hr⟩
    · exact ⟨last, hmem, hcov.record?_range hne hr⟩
    · have hi := h.lt_next (h.written i r hr)
      rw [hcov.heads] at hget
      rcases get?_foldl_insert hget with ⟨p, hp, rfl⟩ | hget
      · have := (hcov.slots p hp).1
        omega
      · obtain ⟨c, hc, hrange⟩ := h.retained i r hr t n hget hfloor hle
        exact ⟨c, List.mem_append_left _ hc, hrange⟩

/-- The active segment is full. -/
theorem CatalogView.rotateSegment (h : CatalogView j w disk) :
    CatalogView j (w.rotateSegment disk).1 (w.rotateSegment disk).2 := by
  obtain ⟨hactive, hsealed, hzero⟩ := h.active
  obtain ⟨hid, hlt, hold⟩ := h.segments _ _ hactive
  let state := disk.catalog.state
  have hsegment : ∀ k, (w.rotateSegment disk).2.catalog.segments.get? k =
      if k = state.nextSegmentId then some (.empty state.nextSegmentId 0)
      else if k = w.activeSegment.segmentId then some { w.activeSegment with isSealed := true }
      else disk.catalog.segments.get? k := by
    intro k
    refine (SortedMap.get?_insert ..).trans ?_
    rw [SortedMap.get?_insert]
    rfl
  have hgrow : ∀ k segment, disk.catalog.segments.get? k = some segment →
      ∃ segment', (w.rotateSegment disk).2.catalog.segments.get? k = some segment' ∧
        segment'.lastIndex = segment.lastIndex := by
    intro k segment hk
    have hne : k ≠ state.nextSegmentId := (h.segments k segment hk).2.1.ne
    rw [hsegment, if_neg hne]
    split
    · rename_i heq
      rw [heq, hid, hactive] at hk
      obtain rfl := Option.some.inj hk
      exact ⟨_, rfl, rfl⟩
    · exact ⟨segment, hk, rfl⟩
  have hcases : ∀ k segment, (w.rotateSegment disk).2.catalog.segments.get? k = some segment →
      k = state.nextSegmentId ∧ segment = .empty state.nextSegmentId 0 ∨
        ∃ old, disk.catalog.segments.get? k = some old ∧ segment.segmentId = old.segmentId ∧
          segment.lastIndex = old.lastIndex := by
    intro k segment hk
    rw [hsegment] at hk
    split at hk
    · rename_i heq
      exact Or.inl ⟨heq, (Option.some.inj hk).symm⟩
    · split at hk
      · rename_i heq
        obtain rfl := Option.some.inj hk
        exact Or.inr ⟨w.activeSegment, heq ▸ hid ▸ hactive, rfl, rfl⟩
      · exact Or.inr ⟨segment, hk, rfl, rfl⟩
  refine ⟨h.sorted, h.range, h.written, h.heads, h.slots, ?_, ?_, ?_, ?_, h.retained⟩
  · intro t m hm
    obtain ⟨hslot, hless, hfirst⟩ := h.rows t m hm
    refine ⟨hslot, hless.trans (Nat.lt_succ_self _), fun segment hk => ?_⟩
    rcases hcases _ segment hk with ⟨heq, -⟩ | ⟨old, hk, -, hlast⟩
    · exact absurd heq hless.ne
    · rw [hlast]
      exact hfirst old hk
  · intro c hc
    obtain ⟨segment, hk, hle⟩ := h.chunkSegment c hc
    obtain ⟨segment', hk', hlast⟩ := hgrow _ _ hk
    exact ⟨segment', hk', hlast ▸ hle⟩
  · intro k segment hk
    rcases hcases k segment hk with ⟨rfl, rfl⟩ | ⟨old, hk, hid', hlast⟩
    · exact ⟨rfl, Nat.lt_succ_self _, Or.inl rfl⟩
    · obtain ⟨hk', hlt', hlast'⟩ := h.segments k old hk
      rw [hid', hlast]
      exact ⟨hk', hlt'.trans (Nat.lt_succ_self _), hlast'⟩
  · exact ⟨(hsegment _).trans (if_pos rfl), rfl, (Nat.zero_le _).trans_lt hlt |>.ne'⟩

theorem CatalogView.mem_deletedSegments (h : CatalogView j w disk) {upTo k : ℕ}
    (hk : k ∈ deletedSegments disk.catalog (some upTo)) :
    ∃ segment, disk.catalog.segments.get? k = some segment ∧ segment.isSealed = true ∧
      segment.lastIndex < upTo := by
  obtain ⟨segment, hget, hsealed, floor, hfloor, hlast⟩ :=
    disk.catalog.mem_deletedSegments (fun k segment hk => (h.segments k segment hk).1) hk
  obtain rfl := Option.some.inj hfloor
  exact ⟨segment, hget, hsealed, hlast⟩

/-- **A slot is trimmed.** -/
theorem CatalogView.handleTrim {slot : Slot} {upTo maxSlots : ℕ} (h : CatalogView j w disk)
    (htrim : Journal.AcceptsTrim maxSlots disk.catalog.replayFloor
      { j with heads := j.heads.erase slot } slot upTo) :
    CatalogView { j with heads := j.heads.erase slot } w
      (SegmentWriter.handleTrim disk slot (some upTo)) := by
  let deleted := deletedSegments disk.catalog (some upTo)
  let catalog := (SegmentWriter.handleTrim disk slot (some upTo)).catalog
  have herase : ∀ {t n}, (j.heads.erase slot).get? t = some n →
      t ≠ slot ∧ j.heads.get? t = some n := by
    intro t n hget
    rw [SortedMap.get?_erase] at hget
    split at hget
    · cases hget
    · rename_i hne
      exact ⟨hne, hget⟩
  have hsegment : ∀ k, catalog.segments.get? k =
      if k ∈ deleted then none else disk.catalog.segments.get? k := fun k => get?_foldl_erase ..
  have hslot : ∀ t, catalog.slots.get? t =
      if t ∈ (buildTrimCommit disk.catalog slot (some upTo)).deletedSlots then none
      else if t = slot then none else disk.catalog.slots.get? t := by
    intro t
    refine (get?_foldl_erase ..).trans ?_
    rw [SortedMap.get?_erase]
    rfl
  have hslot' : ∀ {t m}, catalog.slots.get? t = some m → disk.catalog.slots.get? t = some m := by
    intro t m hm
    rw [hslot] at hm
    split at hm
    · cases hm
    · split at hm
      · cases hm
      · exact hm
  have hsegment' : ∀ {k segment}, catalog.segments.get? k = some segment →
      disk.catalog.segments.get? k = some segment := by
    intro k segment hk
    rw [hsegment] at hk
    split at hk
    · cases hk
    · exact hk
  -- a chunk that reaches the bound is kept
  have hkeep : ∀ c ∈ disk.catalog.chunks, upTo ≤ c.lastIndex → c ∈ catalog.chunks := by
    intro c hc hle
    refine List.mem_filter.mpr ⟨hc, decide_eq_true fun hdel => ?_⟩
    obtain ⟨segment, hk, -, hlt⟩ := h.mem_deletedSegments hdel
    obtain ⟨segment', hk', hle'⟩ := h.chunkSegment c hc
    rw [hk] at hk'
    obtain rfl := Option.some.inj hk'
    exact absurd hlt (not_lt.mpr (hle.trans hle'))
  have hreach : ∀ {i}, disk.catalog.Reaches i → catalog.Reaches i := by
    rintro i ⟨c, hc, hle⟩
    rcases le_or_gt upTo c.lastIndex with hup | hup
    · exact ⟨c, hkeep c hc hup, hle⟩
    · obtain ⟨t, n, hget, hupTo, -⟩ := htrim.newest
      obtain ⟨c', hc', hle'⟩ := h.heads t n (herase hget).2
      exact ⟨c', hkeep c' hc' (hupTo.trans hle'), (hle.trans hup.le).trans (hupTo.trans hle')⟩
  obtain ⟨hactive, hsealed, hzero⟩ := h.active
  refine ⟨h.sorted.filter _, fun c hc => h.range c (List.mem_of_mem_filter hc),
    fun i r hr => hreach (h.written i r hr), fun t n hget => hreach (h.heads t n (herase hget).2),
    ?_, ?_, ?_, ?_, ?_, ?_⟩
  · intro t n hfloor
    show _ ↔ headOf catalog.slots t = some n
    rw [headOf, hslot, SortedMap.get?_erase]
    by_cases ht : t = slot
    · simp [ht]
    · rw [if_neg ht, if_neg ht]
      split
      · rename_i hdel
        refine iff_of_false (fun hget => ?_) (by simp)
        obtain ⟨m, hm, rfl⟩ := List.mem_map.mp hdel
        obtain ⟨hmem, hdel⟩ := List.mem_filter.mp hm
        obtain ⟨⟨t, m'⟩, he, rfl⟩ := List.mem_map.mp hmem
        have hm := SortedMap.get?_eq_some.mpr he
        obtain ⟨segment, hk, -, hlt⟩ := h.mem_deletedSegments (of_decide_eq_true hdel)
        obtain ⟨ht', -, hrow⟩ := h.rows t m' hm
        dsimp only at hget ht hk
        rw [ht'] at hget ht
        have hhead := (h.slots t n hfloor).mp hget
        rw [headOf, hm] at hhead
        obtain rfl := Option.some.inj hhead
        have hle := (htrim.above t _ (by rw [SortedMap.get?_erase, if_neg ht, hget]) hfloor).1
        exact absurd hlt (not_lt.mpr (hle.trans (hrow segment hk)))
      · exact h.slots t n hfloor
  · intro t m hm
    obtain ⟨ht, hlt, hrow⟩ := h.rows t m (hslot' hm)
    exact ⟨ht, hlt, fun segment hk => hrow segment (hsegment' hk)⟩
  · intro c hc
    obtain ⟨hmem, hdel⟩ := List.mem_filter.mp hc
    obtain ⟨segment, hk, hle⟩ := h.chunkSegment c hmem
    exact ⟨segment, (hsegment _).trans ((if_neg (of_decide_eq_true hdel)).trans hk), hle⟩
  · intro k segment hk
    obtain ⟨hid, hlt, hlast⟩ := h.segments k segment (hsegment' hk)
    exact ⟨hid, hlt, hlast.imp_right hreach⟩
  · refine ⟨(hsegment _).trans ((if_neg fun hdel => ?_).trans hactive), hsealed, hzero⟩
    obtain ⟨segment, hk, hseal, -⟩ := h.mem_deletedSegments hdel
    obtain rfl := Option.some.inj (hactive.symm.trans hk)
    rw [hsealed] at hseal
    cases hseal
  · intro i r hr t n hget hfloor hle
    obtain ⟨c, hc, hrange⟩ := h.retained i r hr t n (herase hget).2 hfloor hle
    have hup := (htrim.above t n hget hfloor).1
    exact ⟨c, hkeep c hc (hup.trans (hle.trans hrange.2)), hrange⟩

/-- A live epoch begins. -/
theorem CatalogView.setReplayFloor (h : CatalogView j w disk) {index : ℕ}
    (hle : disk.catalog.replayFloor ≤ index) :
    CatalogView j w { disk with catalog := disk.catalog.setReplayFloor index } :=
  ⟨h.sorted, h.range, h.written, h.heads, fun t n hn => h.slots t n (hle.trans hn), h.rows,
    h.chunkSegment, h.segments, h.active,
    fun i r hr t n hget hn => h.retained i r hr t n hget (hle.trans hn)⟩

end Commits

end Richat
