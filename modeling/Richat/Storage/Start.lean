import Richat.Channel.ReplayMap
import Richat.Storage.Catalog

/-!
# A process that starts

`toSender` reads the replay map from the catalog and goes on with the next index of the journal:
`toSender_view` says that the sender and the journal agree again, with the heads of the catalog since the
last live epoch. The segment writer goes on with the active segment.
-/

namespace Richat

open Lib

/-! ### The replay map -/

section Load

variable {hasher : RandomState} {disk : Disk} {finalized : Option Slot} {t : Slot}

/-- What is loaded for the messages leaves the heads alone. -/
theorem loadReplay_heads {indices : List ℕ} : ∀ {replay replay' : SortedMap Slot ReplayInfo},
    loadReplay hasher disk finalized replay indices = .ok replay' →
    (replay'.get? t).map (·.head) = (replay.get? t).map (·.head) := by
  induction indices with
  | nil =>
    intro replay replay' h
    cases h
    rfl
  | cons index indices ih =>
    intro replay replay' h
    unfold loadReplay at h
    split at h
    · cases h
    · split at h
      · exact ih h
      · split at h
        · split at h
          · cases h
          · exact ih h
        · rename_i info hinfo
          split at h
          · cases h
          · refine (ih h).trans ?_
            rw [SortedMap.get?_insert]
            split
            · rename_i heq
              rw [heq, hinfo]
              rfl
            · rfl

theorem get?_replaySlots {slots : SortedMap Slot SlotMeta} {n : ℕ} : ∀ (metas : List SlotMeta)
    (replay : SortedMap Slot ReplayInfo), (∀ m ∈ metas, slots.get? m.slot = some m) →
    (((metas.foldl (fun replay m => replay.insert m.slot (.new m.firstIndex)) replay).get? t).map
        (·.head) = some n ↔
      (∃ m ∈ metas, m.slot = t ∧ m.firstIndex = n) ∨
        (∀ m ∈ metas, m.slot ≠ t) ∧ (replay.get? t).map (·.head) = some n)
  | [], replay, _ => by simp
  | m :: metas, replay, hslots => by
    have hm := hslots m List.mem_cons_self
    rw [List.foldl_cons, get?_replaySlots _ _ fun m' hm' => hslots m' (List.mem_cons_of_mem _ hm'),
      SortedMap.get?_insert]
    constructor
    · rintro (⟨m', hmem, heq⟩ | ⟨hnot, hget⟩)
      · exact Or.inl ⟨m', List.mem_cons_of_mem _ hmem, heq⟩
      · split at hget
        · rename_i ht
          exact Or.inl ⟨m, List.mem_cons_self, ht.symm, Option.some.inj hget⟩
        · rename_i ht
          refine Or.inr ⟨fun m' hm' => ?_, hget⟩
          rcases List.mem_cons.mp hm' with rfl | hm'
          · exact Ne.symm ht
          · exact hnot m' hm'
    · rintro (⟨m', hmem, hslot, hfirst⟩ | ⟨hnot, hget⟩)
      · by_cases hother : ∃ m ∈ metas, m.slot = t
        · obtain ⟨m₁, hm₁, hslot₁⟩ := hother
          have heq : m₁ = m' := by
            have h₁ := hslots m₁ (List.mem_cons_of_mem _ hm₁)
            have h₂ := hslots m' hmem
            rw [hslot₁, ← hslot, h₂] at h₁
            exact (Option.some.inj h₁).symm
          exact Or.inl ⟨m₁, hm₁, hslot₁, heq ▸ hfirst⟩
        · push Not at hother
          refine Or.inr ⟨hother, ?_⟩
          rcases List.mem_cons.mp hmem with rfl | hmem
          · rw [if_pos hslot.symm, ← hfirst]
            rfl
          · exact absurd hslot (hother m' hmem)
      · refine Or.inr ⟨fun m' hm' => hnot m' (List.mem_cons_of_mem _ hm'), ?_⟩
        rw [if_neg (hnot m List.mem_cons_self).symm, hget]

/-- The rows of the slots since the last live epoch. -/
theorem mem_readSlots {catalog : MetadataMirror} {m : SlotMeta}
    (hrows : ∀ t m, catalog.slots.get? t = some m → m.slot = t) :
    m ∈ catalog.readSlots ↔ catalog.slots.get? m.slot = some m ∧
      catalog.replayFloor ≤ m.firstIndex := by
  unfold MetadataMirror.readSlots
  rw [List.mem_filter, decide_eq_true_eq]
  refine and_congr_left fun _ => ⟨fun h => ?_, fun h => ?_⟩
  · obtain ⟨⟨t, m'⟩, he, rfl⟩ := List.mem_map.mp h
    have hget := SortedMap.get?_eq_some.mpr he
    dsimp only at hget ⊢
    rwa [hrows t m' hget]
  · exact List.mem_map.mpr ⟨_, SortedMap.get?_eq_some.mp h, rfl⟩

end Load

/-! ### The sender -/

variable {cfg : Config} {hasher : RandomState} {j : Journal} {w w' : SegmentWriter} {disk : Disk}
  {s : Sender} {nextArc : ℕ}

/-- The sender that the disk gives. -/
structure Loaded (disk : Disk) (s : Sender) : Prop where
  index : s.index = disk.catalog.nextIndex
  replay : ∀ t n, (∃ info, s.replay.get? t = some info ∧ info.head = n) ↔
    headOf disk.catalog.slots t = some n ∧ disk.catalog.replayFloor ≤ n
  slots : s.slots = .empty

theorem loaded_toSender (hstorage : cfg.storage.isSome)
    (hrows : ∀ t m, disk.catalog.slots.get? t = some m → m.slot = t)
    (h : toSender cfg hasher disk nextArc = .ok s) : Loaded disk s := by
  unfold toSender at h
  rw [if_neg (by simpa [Option.isSome_iff_ne_none] using hstorage)] at h
  dsimp only at h
  split at h
  · cases h
  · split at h
    · cases h
    · rename_i replay hload
      cases h
      refine ⟨rfl, fun t n => ?_, rfl⟩
      have hread := get?_replaySlots (t := t) (n := n) disk.catalog.readSlots .empty
        fun m hm => ((mem_readSlots hrows).mp hm).1
      have hmap : ∀ o : Option ReplayInfo, (∃ info, o = some info ∧ info.head = n) ↔
          o.map (·.head) = some n := fun o => by simp
      rw [hmap, loadReplay_heads hload, replaySlots, hread]
      constructor
      · rintro (⟨m, hm, rfl, rfl⟩ | ⟨-, hno⟩)
        · obtain ⟨hget, hle⟩ := (mem_readSlots hrows).mp hm
          exact ⟨by rw [headOf, hget]; rfl, hle⟩
        · cases hno
      · rintro ⟨hhead, hle⟩
        obtain ⟨m, hget, rfl⟩ := Option.map_eq_some_iff.mp hhead
        obtain rfl := hrows t m hget
        exact Or.inl ⟨m, (mem_readSlots hrows).mpr ⟨hget, hle⟩, rfl, rfl⟩

/-- **The sender of a process that starts.** -/
theorem CatalogView.senderView (h : CatalogView j w disk) (hs : Loaded disk s) :
    SenderView cfg disk.catalog.replayFloor ⟨disk.catalog.nextIndex, j.heads⟩ s where
  next := hs.index.symm
  floor_le := hs.index ▸ le_max_right _ _
  heads_lt := fun t n hget => h.lt_nextIndex (h.heads t n hget)
  replay := fun t n => (hs.replay t n).trans
    ⟨fun ⟨hhead, hle⟩ => ⟨(h.slots t n hle).mpr hhead, hle⟩,
      fun ⟨hget, hle⟩ => ⟨(h.slots t n hle).mp hget, hle⟩⟩
  slots := by
    intro t info hinfo
    rw [hs.slots] at hinfo
    cases hinfo

/-- The segment writer of a process that starts. -/
theorem CatalogView.opened (h : CatalogView j w disk) {catalog : MetadataMirror}
    (hopen : SegmentWriter.open disk.catalog = .ok (catalog, w')) :
    catalog = disk.catalog ∧ w' = ⟨w.activeSegment, false, 0, .empty⟩ ∧
      CatalogView ⟨disk.catalog.nextIndex, j.heads⟩ w' disk := by
  obtain ⟨hactive, hsealed, hzero⟩ := h.active
  unfold SegmentWriter.open at hopen
  simp only [if_neg hzero, hactive] at hopen
  cases hopen
  refine ⟨rfl, rfl, h.sorted, fun c hc => ⟨(h.range c hc).1, h.lt_nextIndex ⟨c, hc, le_rfl⟩⟩,
    h.written, h.heads, h.slots, h.rows, h.chunkSegment, h.segments, h.active, h.retained⟩

end Richat
