import Richat.Storage.Process
import Richat.Storage.ReplayPosition

/-!
# Replay info

`getFirstAvailableSlot` is the slot that `SubscribeReplayInfo` advertises, one for all commitments: it
comes from the replay map and the ring of the processed stream. What a client may really subscribe from
is decided by `getCurrentTailWithReplay`, for its own commitment. `replay_info` compares the two, in every
state that processes with any settings can reach.
-/

namespace Richat

open Lib

namespace Node

/-- `Messages::get_first_available_slot`. -/
def getFirstAvailableSlot (s : Node) : Option Slot :=
  let slotReplay := s.sender.replay.firstKey?
  let slotProcessed := (s.streams .processed).shared.slots.firstKey?
  match slotReplay, slotProcessed with
  | some slotReplay, some slotProcessed => some (min slotReplay slotProcessed)
  | slotReplay, slotProcessed => slotReplay.or slotProcessed

/-- A client may subscribe from the slot. -/
def Accepts (s : Node) (cfg : ConfigNode) (commitment : CommitmentLevel) (slot : Slot) : Prop :=
  (s.getCurrentTailWithReplay cfg commitment (some slot)).isOk = true

instance (s : Node) (cfg : ConfigNode) (commitment : CommitmentLevel) (slot : Slot) :
    Decidable (s.Accepts cfg commitment slot) := by
  unfold Accepts
  infer_instance

/-- The disk has the commitment from the slot on, which is its first: the commitment is one of
`storage.commitments`, and it is in all chunks from there on. -/
def HasOnDisk (s : Node) (cfg : ConfigNode) (commitment : CommitmentLevel) (slot : Slot) : Prop :=
  s.sender.replay.firstKey? = some slot ∧ ∃ storage index, cfg.channel.storage = some storage ∧
    leastHead (·.head) s.sender.replay slot = some index ∧
    storage.replayEnabled commitment = true ∧
    s.disk.catalog.supportsCommitmentReplay index commitment = true

end Node

/-- Which subscriptions of a commitment are accepted, beside what replay info says. -/
structure Subscribable (cfg : ConfigNode) (s : Node) (commitment : CommitmentLevel) : Prop where
  first : ∀ slot, s.getFirstAvailableSlot = some slot →
    (s.Accepts cfg commitment slot ↔
      s.AnswersFromMemory commitment slot ∨ s.HasOnDisk cfg commitment slot)
  earlier : ∀ first, s.getFirstAvailableSlot = some first → ∀ slot < first,
    (s.Accepts cfg commitment slot ↔ s.AnswersFromMemory commitment slot)
  nothing : s.getFirstAvailableSlot = none → ∀ slot,
    (s.Accepts cfg commitment slot ↔ s.AnswersFromMemory commitment slot)

/-- Replay info is about processed: only a slot that the ring does not have can be rejected, when
`storage.commitments` leaves processed out. -/
structure InfoOfProcessed (cfg : ConfigNode) (s : Node) : Prop where
  first : ∀ slot, s.getFirstAvailableSlot = some slot →
    (s.Accepts cfg .processed slot ↔ (s.streams .processed).shared.slots.firstKey? = some slot ∨
      ∀ storage, cfg.channel.storage = some storage → storage.replayEnabled .processed = true)
  earlier : ∀ first, s.getFirstAvailableSlot = some first → ∀ slot < first,
    ¬ s.Accepts cfg .processed slot
  nothing : s.getFirstAvailableSlot = none → ∀ slot, ¬ s.Accepts cfg .processed slot

/-! ### What is accepted -/

section Accepts

variable {cfg : ConfigNode} {s : Node} {commitment : CommitmentLevel} {slot first : Slot}
  {storage : Storage}

theorem isOk_iff_exists {ε α : Type*} {x : Except ε α} : x.isOk = true ↔ ∃ a, x = .ok a := by
  cases x <;> simp [Except.isOk, Except.toBool]

namespace Node

/-- A request that memory does not answer goes to the disk. -/
theorem getCurrentTailWithReplay_of_not_memory (h : ¬ s.AnswersFromMemory commitment slot)
    (hstorage : cfg.channel.storage = some storage) :
    s.getCurrentTailWithReplay cfg commitment (some slot) =
      s.storagePosition storage commitment slot := by
  rw [answersFromMemory_iff cfg] at h
  unfold getCurrentTailWithReplay at h ⊢
  dsimp only at h ⊢
  split
  · rename_i position hposition
    rw [hposition] at h
    exact absurd ⟨position, rfl⟩ h
  · rename_i hnone
    rw [hnone] at h
    split
    · rename_i hnewest
      exact absurd ⟨_, if_pos hnewest⟩ h
    · rw [hstorage]

theorem storagePosition_isOk : (s.storagePosition storage commitment slot).isOk = true ↔
    (∀ first, s.sender.replay.firstKey? = some first → first ≤ slot) ∧
      ∃ index, leastHead (·.head) s.sender.replay slot = some index ∧
        storage.replayEnabled commitment = true ∧
        s.disk.catalog.supportsCommitmentReplay index commitment = true := by
  unfold storagePosition
  split
  · rename_i first hfirst
    refine iff_of_false Bool.false_ne_true ?_
    rintro ⟨hle, -⟩
    obtain ⟨hfirst, hlt⟩ := Option.filter_eq_some_iff.mp hfirst
    exact absurd (hle first hfirst) (not_le.mpr (of_decide_eq_true hlt))
  · rename_i hfirst
    have hle : ∀ first, s.sender.replay.firstKey? = some first → first ≤ slot := by
      intro first hkey
      rw [hkey, Option.filter_some] at hfirst
      by_contra hlt
      rw [if_pos (decide_eq_true (not_le.mp hlt))] at hfirst
      cases hfirst
    split
    · rename_i hnone
      refine iff_of_false Bool.false_ne_true ?_
      rintro ⟨-, index, hindex, -⟩
      rw [hnone] at hindex
      cases hindex
    · rename_i index hindex
      rw [hindex]
      cases henabled : storage.replayEnabled commitment with
      | false => simp [Except.isOk, Except.toBool]
      | true =>
        cases hsupports : s.disk.catalog.supportsCommitmentReplay index commitment with
        | false => simp [Except.isOk, Except.toBool, hsupports]
        | true => exact iff_of_true (by simp [Except.isOk, Except.toBool]) ⟨hle, index, rfl, rfl, hsupports⟩

variable (cfg) in
/-- Which subscriptions are accepted. -/
theorem accepts_iff : s.Accepts cfg commitment slot ↔ s.AnswersFromMemory commitment slot ∨
    (∀ first, s.sender.replay.firstKey? = some first → first ≤ slot) ∧
      ∃ storage index, cfg.channel.storage = some storage ∧
        leastHead (·.head) s.sender.replay slot = some index ∧
        storage.replayEnabled commitment = true ∧
        s.disk.catalog.supportsCommitmentReplay index commitment = true := by
  by_cases hmemory : s.AnswersFromMemory commitment slot
  · refine iff_of_true ?_ (Or.inl hmemory)
    obtain ⟨position, hposition⟩ := (answersFromMemory_iff cfg).mp hmemory
    exact isOk_iff_exists.mpr ⟨_, hposition⟩
  · rw [or_iff_right hmemory]
    cases hstorage : cfg.channel.storage with
    | none =>
      refine iff_of_false ?_ (by simp)
      intro hok
      obtain ⟨location, hlocation⟩ := isOk_iff_exists.mp hok
      rcases getCurrentTailWithReplay_eq_ok hlocation with
        ⟨position, rfl, -⟩ | ⟨rfl, -⟩ | ⟨hsome, -⟩
      · exact hmemory ((answersFromMemory_iff cfg).mpr ⟨position, hlocation⟩)
      · exact hmemory ((answersFromMemory_iff cfg).mpr ⟨_, hlocation⟩)
      · rw [hstorage] at hsome
        cases hsome
    | some storage =>
      unfold Accepts
      rw [getCurrentTailWithReplay_of_not_memory hmemory hstorage, storagePosition_isOk]
      refine and_congr_right fun _ => ⟨?_, ?_⟩
      · rintro ⟨index, h⟩
        exact ⟨storage, index, rfl, h⟩
      · rintro ⟨storage', index, heq, h⟩
        cases heq
        exact ⟨index, h⟩

/-! ### The advertised slot -/

/-- Neither the replay map nor the processed ring has an earlier slot. -/
theorem getFirstAvailableSlot_le (h : s.getFirstAvailableSlot = some slot) :
    (∀ first, s.sender.replay.firstKey? = some first → slot ≤ first) ∧
    (∀ first, (s.streams .processed).shared.slots.firstKey? = some first → slot ≤ first) ∧
    (s.sender.replay.firstKey? = some slot ∨
      (s.streams .processed).shared.slots.firstKey? = some slot) := by
  unfold getFirstAvailableSlot at h
  cases hreplay : s.sender.replay.firstKey? with
  | none =>
    rw [hreplay] at h
    cases hring : (s.streams .processed).shared.slots.firstKey? with
    | none =>
      rw [hring] at h
      cases h
    | some t =>
      rw [hring] at h
      cases h
      simp
  | some r =>
    rw [hreplay] at h
    cases hring : (s.streams .processed).shared.slots.firstKey? with
    | none =>
      rw [hring] at h
      cases h
      simp
    | some t =>
      rw [hring] at h
      cases h
      rcases le_total r t with hle | hle <;> simp [hle]

/-- Nothing is advertised when both are empty. -/
theorem getFirstAvailableSlot_eq_none (h : s.getFirstAvailableSlot = none) :
    s.sender.replay.firstKey? = none ∧
      (s.streams .processed).shared.slots.firstKey? = none := by
  unfold getFirstAvailableSlot at h
  cases hreplay : s.sender.replay.firstKey? <;>
    cases hring : (s.streams .processed).shared.slots.firstKey? <;> simp_all

end Node

end Accepts

/-! ### Every state -/

/-- What a process keeps: without storage the replay map is empty, and the chunks of the catalog have
processed records. -/
structure CatalogFormat (cfg : ConfigNode) (s : Node) : Prop where
  replay : cfg.channel.storage = none → s.sender.replay = .empty
  chunks : ∀ chunk ∈ s.disk.catalog.chunks, chunk.hasCommitment .processed = true

section Format

variable {cfg cfg₀ : ConfigNode} {s s' : Node} {events out : List NodeEvent}

/-- The compressor marks processed in every chunk. -/
theorem hasCommitment_compression (chunk : ChunkMeta)
    (h : chunk.compression = SegmentWriter.compression cfg) :
    chunk.hasCommitment .processed = true := by
  have hbit : ((SegmentWriter.compression cfg >>> 2) &&& 1) ≠ 0 := by
    have htest : (SegmentWriter.compression cfg >>> 2).testBit 0 = true := by
      simp [SegmentWriter.compression, Nat.testBit_or, Nat.testBit_shiftLeft]
    rw [Nat.testBit_zero, decide_eq_true_eq] at htest
    rw [Nat.and_one_is_mod, htest]
    exact one_ne_zero
  unfold ChunkMeta.hasCommitment
  rw [h]
  split
  · rfl
  · exact decide_eq_true hbit

/-- The chunks after a commit of the segment writer. -/
theorem chunks_handle (w : SegmentWriter) (disk : Disk) (output : CollectorOutput)
    (h : ∀ chunk ∈ disk.catalog.chunks, chunk.hasCommitment .processed = true) :
    ∀ chunk ∈ (w.handle cfg disk output).2.catalog.chunks, chunk.hasCommitment .processed = true := by
  intro chunk hchunk
  cases output with
  | rawChunk pending =>
    rcases List.mem_append.mp hchunk with hold | hnew
    · exact h chunk hold
    · rw [List.mem_singleton.mp hnew]
      exact hasCommitment_compression _ rfl
  | trim slot upTo => exact h chunk (List.mem_filter.mp hchunk).1

theorem CatalogFormat.step (h : CatalogFormat cfg s) {action : NodeAction}
    (haction : ∀ hasher, action ≠ .restart hasher) (hstep : Node.step cfg s action = .ok (s', out)) :
    CatalogFormat cfg s' := by
  refine ⟨fun hstorage => replay_empty_step hstorage (h.replay hstorage) hstep, ?_⟩
  have hchunks := h.chunks
  have hcollected : ∀ {input : CollectorInput} {queue : List WriterCommand},
      s.collected input queue cfg = .ok (s', out) →
      ∀ chunk ∈ s'.disk.catalog.chunks, chunk.hasCommitment .processed = true := by
    intro input queue hstep
    unfold Node.collected at hstep
    split at hstep
    · cases hstep
    · cases hstep
      exact hchunks
  cases action with
  | push input =>
    simp only [Node.step] at hstep
    repeat' split at hstep
    all_goals cases hstep
    exact hchunks
  | beginLiveEpoch =>
    simp only [Node.step] at hstep
    split at hstep
    · cases hstep
    · cases hstep
      dsimp only
      split <;> exact hchunks
  | close =>
    cases hstep
    exact hchunks
  | collect =>
    simp only [Node.step] at hstep
    split at hstep
    · exact hcollected hstep
    · split at hstep
      · exact hcollected hstep
      · cases hstep
  | timeout => exact hcollected hstep
  | compressed i =>
    simp only [Node.step] at hstep
    split at hstep
    · cases hstep
    · cases hstep
      exact hchunks
  | write =>
    simp only [Node.step] at hstep
    split at hstep
    · cases hstep
      exact hchunks
    · split at hstep
      · cases hstep
      · cases hstep
        exact chunks_handle _ _ _ hchunks
  | restart hasher => exact absurd rfl (haction hasher)

/-- The next process may have other settings. -/
theorem CatalogFormat.start (h : CatalogFormat cfg₀ s) {hasher : RandomState} {nextArc : ℕ}
    (hstart : Node.start cfg hasher s.disk nextArc = .ok s') : CatalogFormat cfg s' := by
  refine ⟨fun hstorage => replay_empty_start hstorage hstart, ?_⟩
  obtain ⟨catalog, writer, sender, hopen, -, rfl⟩ := Node.start_eq_ok hstart
  have hsame : catalog.chunks = s.disk.catalog.chunks := by
    unfold SegmentWriter.open at hopen
    dsimp only at hopen
    split at hopen
    · cases hopen
    · cases hopen
      split <;> rfl
  show ∀ chunk ∈ catalog.chunks, _
  rw [hsame]
  exact h.chunks

theorem catalogFormat_run {hasher : RandomState} {actions : List ProcessAction} {p : Process}
    (h : run Process.step (.new cfg hasher) actions = .ok (p, events)) :
    CatalogFormat p.cfg p.node := by
  refine Process.run_rule (P := fun cfg s _ => CatalogFormat cfg s) ?_ ?_ ?_ h
  · intro cfg hasher
    refine ⟨fun _ => rfl, ?_⟩
    intro chunk hchunk
    cases hchunk
  · exact fun cfg s events action s' out hformat haction hstep => hformat.step haction hstep
  · exact fun cfg₀ cfg s events hasher s' hformat hstart => hformat.start hstart

end Format

/-! ### Replay info -/

section Info

variable {cfg : ConfigNode} {s : Node} {commitment : CommitmentLevel} {slot first : Slot}

/-- No slot before the advertised one is served from the disk. -/
theorem Node.accepts_earlier (hinfo : s.getFirstAvailableSlot = some first) (hlt : slot < first) :
    s.Accepts cfg commitment slot ↔ s.AnswersFromMemory commitment slot := by
  rw [accepts_iff, or_iff_left]
  rintro ⟨hle, storage, index, -, hindex, -⟩
  obtain ⟨⟨t, v, hget, -, -⟩, -⟩ := leastHead_eq_some hindex
  obtain ⟨oldest, -, holdest, -⟩ := between_keys (SortedMap.mem_keys_of_get? hget)
  have hfirst := (getFirstAvailableSlot_le hinfo).1 oldest holdest
  exact absurd (hfirst.trans (hle oldest holdest)) (not_le.mpr hlt)

/-- The advertised slot is served from the disk when it is the first one there. -/
theorem Node.accepts_first (hinfo : s.getFirstAvailableSlot = some slot) :
    s.Accepts cfg commitment slot ↔
      s.AnswersFromMemory commitment slot ∨ s.HasOnDisk cfg commitment slot := by
  rw [accepts_iff]
  refine or_congr_right ⟨?_, ?_⟩
  · rintro ⟨hle, storage, index, hstorage, hindex, hrest⟩
    obtain ⟨⟨t, v, hget, -, -⟩, -⟩ := leastHead_eq_some hindex
    obtain ⟨oldest, -, holdest, -⟩ := between_keys (SortedMap.mem_keys_of_get? hget)
    have heq := le_antisymm ((getFirstAvailableSlot_le hinfo).1 oldest holdest) (hle oldest holdest)
    exact ⟨heq ▸ holdest, storage, index, hstorage, hindex, hrest⟩
  · rintro ⟨hfirst, storage, index, hstorage, hindex, hrest⟩
    refine ⟨fun oldest holdest => ?_, storage, index, hstorage, hindex, hrest⟩
    rw [hfirst] at holdest
    exact (Option.some.inj holdest).ge

/-- Without an advertised slot nothing is on the disk. -/
theorem Node.accepts_nothing (hinfo : s.getFirstAvailableSlot = none) :
    s.Accepts cfg commitment slot ↔ s.AnswersFromMemory commitment slot := by
  rw [accepts_iff, or_iff_left]
  rintro ⟨-, storage, index, -, hindex, -⟩
  obtain ⟨⟨t, v, hget, -, -⟩, -⟩ := leastHead_eq_some hindex
  obtain ⟨oldest, -, holdest, -⟩ := between_keys (SortedMap.mem_keys_of_get? hget)
  rw [(getFirstAvailableSlot_eq_none hinfo).1] at holdest
  cases holdest

/-- The newest slot is not before the advertised one. -/
theorem Node.le_newestSlot (hinfo : s.getFirstAvailableSlot = some first) {newest : Slot}
    (hnewest : s.newestSlot .processed = some newest) : first ≤ newest := by
  obtain ⟨hreplay, hring, -⟩ := getFirstAvailableSlot_le hinfo
  unfold newestSlot at hnewest
  cases hlast : s.sender.replay.lastKey? with
  | some last =>
    rw [hlast] at hnewest
    obtain rfl := Option.some.inj hnewest
    obtain ⟨oldest, -, holdest, -, hle, -⟩ := between_keys (SortedMap.lastKey?_eq_some hlast).1
    exact (hreplay oldest holdest).trans hle
  | none =>
    rw [hlast] at hnewest
    obtain ⟨oldest, -, holdest, -, hle, -⟩ := between_keys (SortedMap.lastKey?_eq_some hnewest).1
    exact (hring oldest holdest).trans hle

/-- The processed ring has no slot before the advertised one, and that one only as its first. -/
theorem Node.answersFromMemory_processed (hinfo : s.getFirstAvailableSlot = some first)
    (hle : slot ≤ first) : s.AnswersFromMemory .processed slot ↔
      slot = first ∧ (s.streams .processed).shared.slots.firstKey? = some slot := by
  constructor
  · rintro (⟨oldest, last, holdest, -, hoff, -⟩ | ⟨newest, hnewest, hlt⟩)
    · have hfirst := (getFirstAvailableSlot_le hinfo).2.1 oldest holdest
      obtain rfl := le_antisymm hle (hfirst.trans hoff)
      obtain rfl := le_antisymm hoff hfirst
      exact ⟨rfl, holdest⟩
    · exact absurd ((le_newestSlot hinfo hnewest).trans_lt hlt) (not_lt.mpr hle)
  · rintro ⟨-, hfirst⟩
    obtain ⟨oldest, last, holdest, hlast, -, hle'⟩ :=
      between_keys (SortedMap.firstKey?_eq_some hfirst).1
    exact Or.inl ⟨slot, last, hfirst, hlast, le_rfl, hle'⟩

/-- Processed has no other slots than replay info says. -/
theorem CatalogFormat.infoOfProcessed (h : CatalogFormat cfg s) : InfoOfProcessed cfg s := by
  constructor
  · intro slot hinfo
    rw [Node.accepts_first hinfo, Node.answersFromMemory_processed hinfo le_rfl]
    simp only [true_and]
    constructor
    · rintro (hring | ⟨-, storage, index, hstorage, -, henabled, -⟩)
      · exact Or.inl hring
      · right
        intro storage' hstorage'
        rw [hstorage] at hstorage'
        exact Option.some.inj hstorage' ▸ henabled
    · rintro (hring | henabled)
      · exact Or.inl hring
      · rcases (Node.getFirstAvailableSlot_le hinfo).2.2 with hreplay | hring
        · right
          have hmem := (SortedMap.firstKey?_eq_some hreplay).1
          cases hstorage : cfg.channel.storage with
          | none =>
            rw [h.replay hstorage] at hmem
            cases hmem
          | some storage =>
            obtain ⟨v, hget⟩ := Option.isSome_iff_exists.mp (SortedMap.mem_keys.mp hmem)
            obtain ⟨index, hindex⟩ := exists_leastHead (·.head) hget le_rfl
            refine ⟨hreplay, storage, index, hstorage, hindex, henabled storage hstorage, ?_⟩
            refine List.all_eq_true.mpr fun chunk hchunk => ?_
            exact h.chunks chunk (List.mem_filter.mp hchunk).1
        · exact Or.inl hring
  · intro first hinfo slot hlt haccepts
    rw [Node.accepts_earlier hinfo hlt, Node.answersFromMemory_processed hinfo hlt.le] at haccepts
    exact hlt.ne haccepts.1
  · intro hinfo slot haccepts
    obtain ⟨hreplay, hring⟩ := Node.getFirstAvailableSlot_eq_none hinfo
    rw [Node.accepts_nothing hinfo] at haccepts
    rcases haccepts with ⟨oldest, last, holdest, -⟩ | ⟨newest, hnewest, -⟩
    · rw [hring] at holdest
      cases holdest
    · unfold Node.newestSlot at hnewest
      rw [SortedMap.lastKey?_eq_none.mpr (SortedMap.firstKey?_eq_none.mp hreplay),
        SortedMap.lastKey?_eq_none.mpr (SortedMap.firstKey?_eq_none.mp hring)] at hnewest
      cases hnewest

/-- **Replay info.** In every state that processes can reach, a commitment accepts the advertised slot if
its own memory answers it or the disk has it for the commitment, and earlier slots from its own memory
only. Processed accepts no slot that is not advertised; it rejects the advertised one only when
`storage.commitments` leaves processed out and the slot is not in the ring. -/
theorem replay_info {hasher : RandomState} {actions : List ProcessAction} {p : Process}
    {events : List NodeEvent} (h : run Process.step (.new cfg hasher) actions = .ok (p, events)) :
    (∀ commitment, Subscribable p.cfg p.node commitment) ∧ InfoOfProcessed p.cfg p.node := by
  refine ⟨fun commitment => ?_, (catalogFormat_run h).infoOfProcessed⟩
  constructor
  · exact fun slot hinfo => Node.accepts_first hinfo
  · exact fun first hinfo slot hlt => Node.accepts_earlier hinfo hlt
  · exact fun hinfo slot => Node.accepts_nothing hinfo

end Info

/-! ### Runs on small rings -/

/-- A message of the slot that is on the processed stream only. -/
def ProcessAction.footer (slot : Slot) : ProcessAction :=
  .act (.push ⟨false, "a", .blockFooter ⟨slot, 0, []⟩⟩)

/-- A status of the slot: it is on all streams. -/
def ProcessAction.status (slot : Slot) : ProcessAction :=
  .act (.push ⟨false, "a", .slot ⟨slot, .slotProcessed, none, []⟩⟩)

/-- Rings of four messages, with this storage. -/
def ConfigNode.smallWith (storage : Option Storage) : ConfigNode :=
  { ConfigNode.small with channel := { Config.memory with storage } }

/-- Slot 5 is on the disk for all commitments. -/
theorem replay_info_all_commitments : ∃ p events,
    run Process.step (.new (.smallWith (some ⟨7⟩)) List.length) [.footer 5] = .ok (p, events) ∧
      p.node.getFirstAvailableSlot = some 5 ∧
      (p.node.AnswersFromMemory .confirmed 5 ∨ p.node.HasOnDisk p.cfg .confirmed 5) ∧
      ¬ p.node.Accepts p.cfg .processed 4 := by
  obtain ⟨p, events, hrun, hinfo, haccepts⟩ : ∃ p events,
      run Process.step (.new (.smallWith (some ⟨7⟩)) List.length) [.footer 5] = .ok (p, events) ∧
        p.node.getFirstAvailableSlot = some 5 ∧ p.node.Accepts p.cfg .confirmed 5 :=
    Process.exists_reached (by decide +kernel)
  obtain ⟨hexact, hprocessed⟩ := replay_info hrun
  exact ⟨p, events, hrun, hinfo, ((hexact .confirmed).first 5 hinfo).mp haccepts,
    hprocessed.earlier 5 hinfo 4 (by decide)⟩

/-- Replay info is not about the other commitments: the advertised slot is rejected, an earlier slot is
accepted, and a slot is accepted although none is advertised. Processed rejects the advertised slot when
only confirmed is kept on the disk. -/
theorem replay_info_disagrees :
    (∃ p events, run Process.step (.new (.smallWith none) List.length) [.footer 5] = .ok (p, events) ∧
      p.node.getFirstAvailableSlot = some 5 ∧ ¬ p.node.Accepts p.cfg .confirmed 5) ∧
    (∃ p events, run Process.step (.new (.smallWith none) List.length)
        ([.status 5] ++ List.replicate 4 (.footer 6)) = .ok (p, events) ∧
      p.node.getFirstAvailableSlot = some 6 ∧ p.node.Accepts p.cfg .confirmed 5) ∧
    (∃ p events, run Process.step (.new (.smallWith none) List.length)
        ([.status 5] ++ List.replicate 5 (.footer 6)) = .ok (p, events) ∧
      p.node.getFirstAvailableSlot = none ∧ p.node.Accepts p.cfg .confirmed 5) ∧
    ∃ p events, run Process.step (.new (.smallWith (some ⟨2⟩)) List.length)
        (List.replicate 5 (.footer 5)) = .ok (p, events) ∧
      p.node.getFirstAvailableSlot = some 5 ∧ ¬ p.node.Accepts p.cfg .processed 5 := by
  refine ⟨Process.exists_reached ?_, Process.exists_reached ?_, Process.exists_reached ?_,
    Process.exists_reached ?_⟩
  · decide +kernel
  · decide +kernel
  · decide +kernel
  · decide +kernel

end Richat
