import Richat.Storage.Start

/-!
# Records without a head

A record of the journal can lose the head of its slot: the slot is trimmed, or the record came after its
trim. `Accounts` says when: a slot that is `storage_max_slots` ahead has a record, and a slot below that
has a head has begun later. Commands that the journal accepts keep it.

`covered_of_loaded` is its use at the start of a process: unless the catalog has a late slot
(`NoLateSlot`), the replay map accounts for every record since the last live epoch.
-/

namespace Richat

open Lib

/-- A slot that is too far ahead has a record, and no slot up to `t` has begun before this record. -/
def Passed (maxSlots floor : ℕ) (j : Journal) (recorded : ℕ → Slot → Prop) (t : Slot) : Prop :=
  ∃ k' t', recorded k' t' ∧ floor ≤ k' ∧ t < t' - (maxSlots - 1) ∧
    ∀ u h, j.heads.get? u = some h → floor ≤ h → u ≤ t → k' < h

/-- Every record has the head of its slot, or its slot is passed. -/
structure Accounts (maxSlots floor : ℕ) (j : Journal) (recorded : ℕ → Slot → Prop) : Prop where
  lt_next : ∀ k t, recorded k t → k < j.next
  heads : ∀ t h, j.heads.get? t = some h → floor ≤ h → recorded h t
  records : ∀ k t, recorded k t → floor ≤ k →
    (∃ h, j.heads.get? t = some h ∧ floor ≤ h ∧ h ≤ k) ∨ Passed maxSlots floor j recorded t
  newest : ∀ k t, recorded k t → floor ≤ k → ∃ u h, j.heads.get? u = some h ∧ floor ≤ h ∧ t ≤ u

/-- The records of the journal with those of the commands. -/
def recordedAfter (recorded : ℕ → Slot → Prop) (l : List WriterCommand) (k : ℕ) (t : Slot) : Prop :=
  recorded k t ∨ ∃ init head message commitment,
    .pushMessage init t head k message commitment ∈ l

namespace Accounts

variable {maxSlots floor : ℕ} {j : Journal} {recorded recorded' : ℕ → Slot → Prop}

theorem congr (h : Accounts maxSlots floor j recorded)
    (heq : ∀ k t, recorded k t ↔ recorded' k t) : Accounts maxSlots floor j recorded' := by
  obtain rfl : recorded = recorded' := by
    funext k t
    exact propext (heq k t)
  exact h

/-- A record is sent. -/
theorem pushMessage (h : Accounts maxSlots floor j recorded) {init : Bool} {slot : Slot}
    {head index : ℕ} {message : ParsedMessage} {commitment : CommitmentLevel}
    (ha : j.Accepts maxSlots floor (.pushMessage init slot head index message commitment)) :
    Accounts maxSlots floor (j.apply (.pushMessage init slot head index message commitment))
      (fun k t => recorded k t ∨ k = index ∧ t = slot) := by
  obtain ⟨rfl, hinit, hplaced⟩ := ha
  cases init with
  | true =>
    obtain ⟨rfl, hnew⟩ := hinit rfl
    -- the slot had no head that counts
    have hother : ∀ t n, j.heads.get? t = some n → floor ≤ n →
        (j.heads.insert slot j.next).get? t = some n := by
      intro t n hget hle
      rw [SortedMap.get?_insert, if_neg, hget]
      rintro rfl
      exact absurd (hnew n hget) (not_lt.mpr hle)
    have hcases : ∀ t n, (j.heads.insert slot j.next).get? t = some n →
        t = slot ∧ n = j.next ∨ j.heads.get? t = some n := by
      intro t n hget
      rw [SortedMap.get?_insert] at hget
      split at hget
      · rename_i heq
        exact Or.inl ⟨heq, (Option.some.inj hget).symm⟩
      · exact Or.inr hget
    constructor
    · rintro k t (hk | ⟨rfl, -⟩)
      · exact (h.lt_next k t hk).trans (Nat.lt_succ_self _)
      · exact Nat.lt_succ_self _
    · intro t n hget hle
      rcases hcases t n hget with ⟨rfl, rfl⟩ | hget
      · exact Or.inr ⟨rfl, rfl⟩
      · exact Or.inl (h.heads t n hget hle)
    · rintro k t (hk | ⟨rfl, rfl⟩) hle
      · rcases h.records k t hk hle with ⟨n, hget, hn, hnk⟩ | ⟨k', t', hk', hle', hlt, habove⟩
        · exact Or.inl ⟨n, hother t n hget hn, hn, hnk⟩
        · refine Or.inr ⟨k', t', Or.inl hk', hle', hlt, fun u n hget hn hu => ?_⟩
          rcases hcases u n hget with ⟨-, rfl⟩ | hget
          · exact h.lt_next k' t' hk'
          · exact habove u n hget hn hu
      · exact Or.inl ⟨j.next, SortedMap.get?_insert_self .., hle, le_rfl⟩
    · rintro k t (hk | ⟨rfl, rfl⟩) hle
      · obtain ⟨u, n, hget, hn, htu⟩ := h.newest k t hk hle
        exact ⟨u, n, hother u n hget hn, hn, htu⟩
      · exact ⟨t, j.next, SortedMap.get?_insert_self .., hle, le_rfl⟩
  | false =>
    constructor
    · rintro k t (hk | ⟨rfl, -⟩)
      · exact (h.lt_next k t hk).trans (Nat.lt_succ_self _)
      · exact Nat.lt_succ_self _
    · exact fun t n hget hle => Or.inl (h.heads t n hget hle)
    · rintro k t (hk | ⟨rfl, rfl⟩) hle
      · rcases h.records k t hk hle with hhead | ⟨k', t', hk', hrest⟩
        · exact Or.inl hhead
        · exact Or.inr ⟨k', t', Or.inl hk', hrest⟩
      · rcases (hplaced hle).resolve_left (by simp) with hhead | ⟨habove, u, n, hget, hn, hlt⟩
        · exact Or.inl hhead
        · exact Or.inr ⟨n, u, Or.inl (h.heads u n hget hn), hn, hlt,
            fun u' n' hget' hn' hu => absurd (habove u' n' hget' hn') (not_lt.mpr hu)⟩
    · rintro k t (hk | ⟨rfl, rfl⟩) hle
      · exact h.newest k t hk hle
      · rcases (hplaced hle).resolve_left (by simp) with ⟨n, hget, hn, -⟩ | ⟨-, u, n, hget, hn, hlt⟩
        · exact ⟨t, n, hget, hn, le_rfl⟩
        · exact ⟨u, n, hget, hn, (hlt.trans_le (Nat.sub_le _ _)).le⟩

/-- A slot is trimmed. -/
theorem removeReplay (h : Accounts maxSlots floor j recorded) {slot : Slot} {upTo : Option ℕ}
    (ha : j.Accepts maxSlots floor (.removeReplay slot upTo)) :
    Accounts maxSlots floor (j.apply (.removeReplay slot upTo)) recorded := by
  obtain ⟨m, rfl, habove, t', n', hget', -, hfar⟩ := ha
  have hsome : ∀ {t n}, (j.heads.erase slot).get? t = some n → j.heads.get? t = some n := by
    intro t n hget
    rw [SortedMap.get?_erase] at hget
    split at hget
    · cases hget
    · exact hget
  have hother : ∀ {t}, t ≠ slot → (j.heads.erase slot).get? t = j.heads.get? t := by
    intro t hne
    rw [SortedMap.get?_erase, if_neg hne]
  refine ⟨h.lt_next, fun t n hget hle => h.heads t n (hsome hget) hle, ?_, ?_⟩
  · intro k t hk hle
    have hfloor : floor < j.next := hle.trans_lt (h.lt_next k t hk)
    rcases h.records k t hk hle with ⟨n, hget, hn, hnk⟩ | ⟨k', u, hk', hle', hlt, hbefore⟩
    · by_cases ht : t = slot
      · subst ht
        obtain ⟨hn', hlt⟩ := hfar hfloor
        exact Or.inr ⟨n', t', h.heads t' n' (hsome hget') hn', hn', hlt,
          fun u n hget hn hu => absurd (habove u n hget hn).2 (not_lt.mpr hu)⟩
      · exact Or.inl ⟨n, (hother ht).trans hget, hn, hnk⟩
    · exact Or.inr ⟨k', u, hk', hle', hlt, fun u n hget hn hu => hbefore u n (hsome hget) hn hu⟩
  · intro k t hk hle
    have hfloor : floor < j.next := hle.trans_lt (h.lt_next k t hk)
    obtain ⟨u, n, hget, hn, htu⟩ := h.newest k t hk hle
    by_cases hu : u = slot
    · subst hu
      obtain ⟨hn', hlt⟩ := hfar hfloor
      exact ⟨t', n', hget', hn', (htu.trans_lt (hlt.trans_le (Nat.sub_le _ _))).le⟩
    · exact ⟨u, n, (hother hu).trans hget, hn, htu⟩

/-- **Commands that the journal accepts.** -/
theorem after : ∀ {j : Journal} {recorded : ℕ → Slot → Prop} {l : List WriterCommand},
    Accounts maxSlots floor j recorded → j.AcceptsAll maxSlots floor l →
    Accounts maxSlots floor (j.after l) (recordedAfter recorded l)
  | j, recorded, [], h, _ => h.congr fun k t => by simp [recordedAfter]
  | j, recorded, command :: l, h, ha => by
    cases command with
    | pushMessage init slot head index message commitment =>
      refine ((h.pushMessage ha.1).after ha.2).congr fun k t => ?_
      unfold recordedAfter
      constructor
      · rintro ((hk | ⟨rfl, rfl⟩) | ⟨init, head, m, c, hmem⟩)
        · exact Or.inl hk
        · exact Or.inr ⟨init, head, message, commitment, List.mem_cons_self⟩
        · exact Or.inr ⟨init, head, m, c, List.mem_cons_of_mem _ hmem⟩
      · rintro (hk | ⟨init, head, m, c, hmem⟩)
        · exact Or.inl (Or.inl hk)
        · rcases List.mem_cons.mp hmem with heq | hmem
          · cases heq
            exact Or.inl (Or.inr ⟨rfl, rfl⟩)
          · exact Or.inr ⟨init, head, m, c, hmem⟩
    | restorePayload index message =>
      refine (after (j := j.apply (.restorePayload index message)) h ha.2).congr fun k t => ?_
      simp [recordedAfter]
    | removeReplay slot upTo =>
      refine ((h.removeReplay ha.1).after ha.2).congr fun k t => ?_
      simp [recordedAfter]

/-- An epoch that begins after all records. -/
theorem beginLiveEpoch (h : Accounts maxSlots floor j recorded) {floor' : ℕ} (hle : floor ≤ floor')
    (hnext : j.next ≤ floor') : Accounts maxSlots floor' j recorded where
  lt_next := h.lt_next
  heads := fun t n hget hn => h.heads t n hget (hle.trans hn)
  records := fun k t hk hn => absurd (h.lt_next k t hk) (not_lt.mpr (hnext.trans hn))
  newest := fun k t hk hn => absurd (h.lt_next k t hk) (not_lt.mpr (hnext.trans hn))

end Accounts

/-- The records on the disk. -/
def Disk.recorded (disk : Disk) (k : ℕ) (t : Slot) : Prop :=
  ∃ r, disk.record k = some r ∧ r.slot = t

/-- The slots of the catalog have all begun within the window of `storage_max_slots`: their first record
was not after a record of a slot that is further ahead. -/
def Disk.NoLateSlot (maxSlots : ℕ) (disk : Disk) : Prop :=
  ∀ m ∈ disk.catalog.readSlots, ∀ k r, disk.record k = some r → disk.catalog.replayFloor ≤ k →
    k < m.firstIndex → r.slot - (maxSlots - 1) ≤ m.slot

/-- **The replay map of a process that starts.** -/
theorem covered_of_loaded {cfg : Config} {j : Journal} {w : SegmentWriter} {disk : Disk} {s : Sender}
    (hc : CatalogView j w disk) (hs : Loaded disk s)
    (h : Accounts cfg.storageMaxSlots disk.catalog.replayFloor j disk.recorded)
    (hlate : disk.NoLateSlot cfg.storageMaxSlots) {k : ℕ} {t : Slot} (hk : disk.recorded k t)
    (hle : disk.catalog.replayFloor ≤ k) : Covered cfg s t k := by
  have hentry : ∀ u n, j.heads.get? u = some n → disk.catalog.replayFloor ≤ n →
      ∃ info, s.replay.get? u = some info ∧ info.head = n :=
    fun u n hget hn => (hs.replay u n).mpr ⟨(hc.slots u n hn).mp hget, hn⟩
  rcases h.records k t hk hle with ⟨n, hget, hn, hnk⟩ | ⟨k', t', hk', hle', hlt, habove⟩
  · obtain ⟨info, hinfo, rfl⟩ := hentry t n hget hn
    exact Or.inl ⟨info, hinfo, hnk⟩
  · refine Or.inr ⟨?_, fun u hu => not_le.mp fun hut => ?_⟩
    · obtain ⟨u, n, hget, hn, htu⟩ := h.newest k' t' hk' hle'
      obtain ⟨info, hinfo, -⟩ := hentry u n hget hn
      obtain ⟨last, hlast, -, hul⟩ := exists_lastKey (SortedMap.mem_keys_of_get? hinfo)
      rw [firstRetained_eq hlast]
      exact hlt.trans_le (Nat.sub_le_sub_right (htu.trans hul) _)
    · obtain ⟨info, hinfo⟩ := Option.isSome_iff_exists.mp (SortedMap.mem_keys.mp hu)
      obtain ⟨hhead, hn⟩ := (hs.replay u _).mp ⟨info, hinfo, rfl⟩
      have hless := habove u _ ((hc.slots u _ hn).mpr hhead) hn hut
      -- the slot would have begun too late
      obtain ⟨m, hm, hfirst⟩ := Option.map_eq_some_iff.mp hhead
      obtain ⟨hslot, -⟩ := hc.rows u m hm
      obtain ⟨r, hr, rfl⟩ := hk'
      have hrow : m ∈ disk.catalog.readSlots :=
        (mem_readSlots fun t m hm => (hc.rows t m hm).1).mpr ⟨hslot ▸ hm, hfirst ▸ hn⟩
      have hwindow := hlate m hrow k' r hr hle' (hfirst ▸ hless)
      rw [hslot] at hwindow
      exact absurd hlt (not_lt.mpr (hwindow.trans hut))

end Richat
