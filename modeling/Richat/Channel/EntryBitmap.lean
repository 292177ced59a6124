import Richat.Channel.DedupSpec
import Richat.Channel.PushSpec

/-!
# The entry bitmap

The entries of a bank are told apart by a bitmap over their indices, which is enlarged on demand to
`max (nextPowerOfTwo index) (2 * len)`. For an index that is itself a power of two the first term is
the index and not more; the bitmap then covers the index only through the second term.

`Bitmap entries seen` is the invariant: a bitmap that was enlarged for the indices `seen` has the
length of a power of two, is tight, and marks `seen`. It is kept by every index but those that
`Outruns` the bitmap, and these are the ones that the code indexes out of bounds.
-/

namespace Richat

open Lib

/-- The index is a power of two beyond the initial bitmap and more than twice every index before
it. -/
def Outruns (seen : List ℕ) (index : ℕ) : Prop :=
  ∃ j, 9 ≤ j ∧ index = 2 ^ j ∧ ∀ i ∈ seen, 2 * i < index

structure Bitmap (entries : List Bool) (seen : List ℕ) : Prop where
  pow : ∃ k, 8 ≤ k ∧ entries.length = 2 ^ k
  lt : ∀ i ∈ seen, i < entries.length
  tight : entries.length = 256 ∨ ∃ i ∈ seen, entries.length ≤ 2 * i
  mem : ∀ i, entries[i]? = some true ↔ i ∈ seen

/-! ### The length of the bitmap -/

theorem nextPowerOfTwo_spec {n : ℕ} (h : 2 ≤ n) :
    ∃ j, nextPowerOfTwo n = 2 ^ j ∧ n ≤ 2 ^ j ∧ 2 ^ j < 2 * n := by
  have hle := Nat.log2_self_le (n := n - 1) (by omega)
  have hlt := Nat.lt_log2_self (n := n - 1)
  refine ⟨Nat.log2 (n - 1) + 1, by rw [nextPowerOfTwo, if_neg (by omega)], by omega, ?_⟩
  rw [Nat.pow_succ] at hlt ⊢
  omega

theorem le_of_two_pow_lt {j k : ℕ} (h : 2 ^ k < 2 ^ j) : 2 * 2 ^ k ≤ 2 ^ j := by
  have hkj : k + 1 ≤ j := (Nat.pow_lt_pow_iff_right (by omega)).mp h
  calc 2 * 2 ^ k = 2 ^ (k + 1) := by rw [Nat.pow_succ]; omega
    _ ≤ 2 ^ j := Nat.pow_le_pow_right (by omega) hkj

theorem Bitmap.outruns_iff {entries : List Bool} {seen : List ℕ} (h : Bitmap entries seen)
    (index : ℕ) : Outruns seen index ↔ ∃ j, index = 2 ^ j ∧ 2 * entries.length ≤ index := by
  obtain ⟨k, hk, hlen⟩ := h.pow
  constructor
  · rintro ⟨j, hj, rfl, hseen⟩
    refine ⟨j, rfl, ?_⟩
    rcases h.tight with h256 | ⟨i, hi, hle⟩
    · have : 2 ^ 9 ≤ 2 ^ j := Nat.pow_le_pow_right (by omega) hj
      omega
    · have := hseen i hi
      rw [hlen] at hle ⊢
      exact le_of_two_pow_lt (by omega)
  · rintro ⟨j, rfl, hle⟩
    refine ⟨j, ?_, rfl, fun i hi => ?_⟩
    · rw [hlen] at hle
      have hlt : 2 ^ k < 2 ^ j := by
        have := Nat.two_pow_pos k
        omega
      have := (Nat.pow_lt_pow_iff_right (a := 2) (by omega)).mp hlt
      omega
    · have := h.lt i hi
      omega

/-- An index that does not outrun the bitmap is covered afterwards, by a bitmap of at most twice the
index. -/
theorem entriesLen_spec {k len index : ℕ} (hlen : len = 2 ^ k) (hk : 8 ≤ k) (hindex : len ≤ index)
    (hnot : ¬ ∃ j, index = 2 ^ j ∧ 2 * len ≤ index) :
    (∃ k', 8 ≤ k' ∧ DedupInfoBank.entriesLen len index = 2 ^ k') ∧
      index < DedupInfoBank.entriesLen len index ∧
      DedupInfoBank.entriesLen len index ≤ 2 * index := by
  have h256 : 2 ^ 8 ≤ 2 ^ k := Nat.pow_le_pow_right (by omega) hk
  obtain ⟨j, hnext, hle, hlt⟩ := nextPowerOfTwo_spec (n := index) (by omega)
  rw [DedupInfoBank.entriesLen, if_pos hindex, hnext]
  by_cases heq : index = 2 ^ j
  · -- the index is a power of two, so it is the length itself
    have hnle : ¬ 2 * len ≤ index := fun hle => hnot ⟨j, heq, hle⟩
    have hmax : max (2 ^ j) (len * 2) = 2 ^ (k + 1) := by
      rw [Nat.pow_succ]
      omega
    rw [hmax, Nat.pow_succ]
    exact ⟨⟨k + 1, by omega, by rw [Nat.pow_succ]⟩, by omega, by omega⟩
  · have hkj : 2 * 2 ^ k ≤ 2 ^ j := le_of_two_pow_lt (by omega)
    have hmax : max (2 ^ j) (len * 2) = 2 ^ j := by omega
    rw [hmax]
    have hj : 2 ^ k < 2 ^ j := by omega
    have := (Nat.pow_lt_pow_iff_right (a := 2) (by omega)).mp hj
    exact ⟨⟨j, by omega, rfl⟩, by omega, by omega⟩

/-- An index that outruns the bitmap is its length afterwards. -/
theorem entriesLen_of_pow {j len : ℕ} (hlen : 256 ≤ len) (hle : 2 * len ≤ 2 ^ j) :
    DedupInfoBank.entriesLen len (2 ^ j) = 2 ^ j := by
  obtain ⟨j', hnext, hge, hlt⟩ := nextPowerOfTwo_spec (n := 2 ^ j) (by omega)
  have hj : 2 ^ j' = 2 ^ j := by
    by_contra hne
    have := le_of_two_pow_lt (k := j) (j := j') (by omega)
    omega
  rw [DedupInfoBank.entriesLen, if_pos (by omega), hnext, hj]
  omega

/-! ### An entry on the bitmap -/

theorem length_resize {entries : List Bool} {len : ℕ} (h : entries.length ≤ len) :
    (resize entries len).length = len := by
  simp [resize]
  omega

theorem le_entriesLen (len index : ℕ) : len ≤ DedupInfoBank.entriesLen len index := by
  unfold DedupInfoBank.entriesLen
  split <;> omega

theorem Bitmap.initial : Bitmap (List.replicate 256 false) [] where
  pow := ⟨8, le_rfl, List.length_replicate⟩
  lt := fun i hi => absurd hi List.not_mem_nil
  tight := Or.inl List.length_replicate
  mem := by
    intro i
    rw [List.getElem?_replicate]
    split <;> simp

/-- Marking an index that the bitmap covers. -/
theorem getElem?_set_true {entries : List Bool} {index i : ℕ} (h : index < entries.length) :
    (entries.set index true)[i]? = some true ↔ i = index ∨ entries[i]? = some true := by
  rw [List.getElem?_set]
  by_cases hi : index = i
  · subst hi
    rw [if_pos rfl, if_pos h]
    simp
  · rw [if_neg hi]
    exact ⟨Or.inr, fun h' => h'.resolve_left fun e => hi e.symm⟩

/-- The bitmap after an index it covers: enlarged, and marked at the index. -/
theorem Bitmap.snoc {entries entries' : List Bool} {seen : List ℕ} {index : ℕ}
    (h : Bitmap entries seen) (hpow : ∃ k, 8 ≤ k ∧ entries'.length = 2 ^ k)
    (hle : entries.length ≤ entries'.length) (hlt : index < entries'.length)
    (htight : entries'.length = entries.length ∨ entries'.length ≤ 2 * index)
    (hmem : ∀ i, entries'[i]? = some true ↔ i = index ∨ entries[i]? = some true) :
    Bitmap entries' (seen ++ [index]) where
  pow := hpow
  lt := by
    intro i hi
    rcases List.mem_append.mp hi with hi | hi
    · have := h.lt i hi
      omega
    · rw [List.mem_singleton.mp hi]
      exact hlt
  tight := by
    rcases htight with hsame | hnew
    · rcases h.tight with h256 | ⟨i, hi, hi'⟩
      · exact Or.inl (by omega)
      · exact Or.inr ⟨i, List.mem_append_left _ hi, by omega⟩
    · exact Or.inr ⟨index, by simp, hnew⟩
  mem := by
    intro i
    rw [hmem i, h.mem i, List.mem_append, List.mem_singleton]
    exact or_comm

/-- An index that does not outrun the bitmap is covered by the enlarged bitmap. -/
theorem Bitmap.enlarge {entries : List Bool} {seen : List ℕ} (h : Bitmap entries seen) {index : ℕ}
    (hnot : ¬ Outruns seen index) :
    let entries' := resize entries (DedupInfoBank.entriesLen entries.length index)
    (∃ k, 8 ≤ k ∧ entries'.length = 2 ^ k) ∧ entries.length ≤ entries'.length ∧
      index < entries'.length ∧
      (entries'.length = entries.length ∨ entries'.length ≤ 2 * index) := by
  obtain ⟨k, hk, hlen⟩ := h.pow
  have hle := le_entriesLen entries.length index
  dsimp only
  rw [length_resize hle]
  refine ⟨?_, hle, ?_⟩
  all_goals
    by_cases hindex : entries.length ≤ index
    · obtain ⟨hpow, hlt, h2⟩ := entriesLen_spec hlen hk hindex
        (fun hout => hnot ((h.outruns_iff index).mpr hout))
      first | exact hpow | exact ⟨hlt, Or.inr h2⟩
    · rw [DedupInfoBank.entriesLen, if_neg hindex]
      first | exact ⟨k, hk, hlen⟩ | exact ⟨by omega, Or.inl rfl⟩

/-- **An entry on the bitmap.** -/
theorem Bitmap.pushEntry {dedup : DedupInfoBank} {seen : List ℕ} (h : Bitmap dedup.entries seen)
    {msg : MessageEntry} (hnot : ¬ Outruns seen msg.index) :
    ∃ entries, Bitmap entries (seen ++ [msg.index]) ∧
      dedup.pushEntry msg =
        .ok ({ dedup with entries }, if msg.index ∈ seen then [] else [.entry msg]) := by
  obtain ⟨hpow, hle, hlt, htight⟩ := h.enlarge hnot
  unfold DedupInfoBank.pushEntry
  generalize hres : resize dedup.entries (DedupInfoBank.entriesLen dedup.entries.length msg.index) =
    entries' at hpow hle hlt htight
  have hmem : ∀ i : ℕ, entries'[i]? = some true ↔ dedup.entries[i]? = some true := by
    intro i
    rw [← hres]
    exact DedupInfoBank.getElem?_resize
  dsimp only
  by_cases hseen : msg.index ∈ seen
  · have htrue : entries'[msg.index]? = some true := (hmem _).mpr ((h.mem _).mpr hseen)
    refine ⟨entries', h.snoc hpow hle hlt htight fun i => ?_, by rw [htrue, if_pos hseen]⟩
    rw [hmem i]
    refine ⟨Or.inr, fun hi => hi.elim (fun e => ?_) id⟩
    rw [e]
    exact (h.mem _).mpr hseen
  · have hfalse : entries'[msg.index]? = some false := by
      have hne : entries'[msg.index]? ≠ some true := fun e => hseen ((h.mem _).mp ((hmem _).mp e))
      rw [List.getElem?_eq_getElem hlt] at hne ⊢
      simpa using hne
    refine ⟨entries'.set msg.index true, ?_, by rw [hfalse, if_neg hseen]⟩
    refine h.snoc (by simpa using hpow) (by simpa using hle) (by simpa using hlt)
      (by simpa using htight) fun i => ?_
    rw [getElem?_set_true hlt, hmem i]

/-- **An entry that outruns the bitmap.** The code panics: the index is the length of the enlarged
bitmap. -/
theorem Bitmap.pushEntry_outruns {dedup : DedupInfoBank} {seen : List ℕ}
    (h : Bitmap dedup.entries seen) {msg : MessageEntry} (hout : Outruns seen msg.index) :
    dedup.pushEntry msg = .error (.indexOutOfBounds msg.index msg.index) := by
  obtain ⟨j, hj, hle⟩ := (h.outruns_iff msg.index).mp hout
  obtain ⟨k, hk, hlen⟩ := h.pow
  have h256 : 2 ^ 8 ≤ 2 ^ k := Nat.pow_le_pow_right (by omega) hk
  have hlen' : DedupInfoBank.entriesLen dedup.entries.length msg.index = msg.index := by
    rw [hj] at hle ⊢
    exact entriesLen_of_pow (by omega) hle
  have hres : (resize dedup.entries
      (DedupInfoBank.entriesLen dedup.entries.length msg.index)).length = msg.index := by
    rw [length_resize (le_entriesLen ..), hlen']
  unfold DedupInfoBank.pushEntry
  dsimp only
  rw [List.getElem?_eq_none (by omega)]
  dsimp only
  rw [hres]

/-! ### A run of entries -/

/-- The entries whose index was not seen before. -/
def firstPushes (seen : List ℕ) : List MessageEntry → List MessageEntry
  | [] => []
  | e :: es => (if e.index ∈ seen then [] else [e]) ++ firstPushes (seen ++ [e.index]) es

/-- A sender that got only entries of one bank, with the indices `seen`. -/
structure EntriesOnly (slot : Slot) (bankId : Option BankId) (sourceName : SourceName)
    (seen : List ℕ) (s : Sender) : Prop where
  floor : s.floor < slot
  slots : ∀ k ∈ s.slots.keys, k = slot
  dedup : ∀ k ∈ s.dedup.keys, k = slot
  bank : ∀ info, s.slots.get? slot = some info → info.clearedBanks = ∅ ∧
    (info.bank bankId).blockMeta = none ∧ (info.bank bankId).blockCreated = false
  source : ∀ source ∈ ((s.dedup.get? slot).getD .default).source, source = sourceName
  bitmap : Bitmap (((s.dedup.get? slot).getD .default).banks bankId).entries seen
  noJournal : s.NoJournal

theorem entriesOnly_initial {slot : Slot} {bankId : Option BankId} {sourceName : SourceName}
    {s : Sender} (h : s.Initial) (hnone : s.NoJournal) (hfloor : s.floor < slot) :
    EntriesOnly slot bankId sourceName [] s where
  floor := hfloor
  slots := by rw [h.slots]; simp [SortedMap.keys, SortedMap.empty]
  dedup := by rw [h.dedup]; simp [SortedMap.keys, SortedMap.empty]
  bank := by rw [h.slots]; simp
  source := by rw [h.dedup]; simp [DedupInfo.default]
  bitmap := by rw [h.dedup]; exact Bitmap.initial
  noJournal := hnone

section

variable {cfg : Config} {slot : Slot} {bankId : Option BankId} {sourceName : SourceName}
  {seen : List ℕ} {s : Sender} {e : MessageEntry}

/-- The entry is past the door of the sender, and its source is that of the slot. -/
theorem EntriesOnly.accepts (h : EntriesOnly slot bankId sourceName seen s)
    (hslot : e.slot = slot) (hbank : (Message.entry e).bankId = bankId) :
    s.isCleared (.entry e) = false ∧
    ∃ dedup, ((s.dedup.get? slot).getD .default).acceptSource bankId sourceName = some dedup ∧
      dedup.banks = ((s.dedup.get? slot).getD .default).banks ∧
      ∀ source ∈ dedup.source, source = sourceName := by
  constructor
  · unfold Sender.isCleared
    rw [hbank]
    cases bankId with
    | none => rfl
    | some b =>
      have hcleared : (s.slots.get? slot).any (fun info => decide (b ∈ info.clearedBanks)) = false := by
        cases hinfo : s.slots.get? slot with
        | none => rfl
        | some info => simp [(h.bank info hinfo).1]
      simp only [Message.slotOf, hslot, hcleared, Bool.and_false]
  · generalize hd : (s.dedup.get? slot).getD .default = dedup
    have hsource := hd ▸ h.source
    unfold DedupInfo.acceptSource
    by_cases hb : bankId.isNone
    · exact ⟨dedup, by rw [if_pos hb], rfl, hsource⟩
    · rw [if_neg hb]
      cases hs : dedup.source with
      | none => exact ⟨_, rfl, rfl, by simp⟩
      | some source =>
        have heq : source = sourceName := hsource source hs
        exact ⟨dedup, by simp [heq], rfl, by simpa [hs] using heq⟩

/-- The deduplication stage of an entry that does not outrun the bitmap. -/
theorem EntriesOnly.dedupMessage (h : EntriesOnly slot bankId sourceName seen s)
    (hslot : e.slot = slot) (hbank : (Message.entry e).bankId = bankId)
    (hnot : ¬ Outruns seen e.index) :
    ∃ s₁, s.dedupMessage ⟨true, sourceName, .entry e⟩ =
        .ok (s₁, if e.index ∈ seen then [] else [.entry e]) ∧
      EntriesOnly slot bankId sourceName (seen ++ [e.index]) s₁ := by
  obtain ⟨-, dedup, haccept, hbanks, hsource⟩ := h.accepts hslot hbank
  obtain ⟨entries, hbitmap, hpush⟩ := (hbanks ▸ h.bitmap).pushEntry hnot
  have hdedup := DedupInfo.push_message (show (Message.entry e).isSlot = false from rfl) (hbank.symm ▸ haccept)
  rw [hbank, DedupInfoBank.push, hpush] at hdedup
  subst hslot
  refine ⟨_, Sender.dedupMessage_ok rfl hdedup, ?_⟩
  constructor
  · exact h.floor
  · exact h.slots
  · intro k hk
    exact (SortedMap.mem_keys_insert.mp hk).elim id (h.dedup k)
  · exact h.bank
  · simpa using hsource
  · simpa using hbitmap
  · exact h.noJournal

/-- Without a block meta an entry is stored and completes no block. -/
theorem getBlockMessage_entry {info : SlotInfo} (a arc : ℕ)
    (hbank : (Message.entry e).bankId = bankId) (hmeta : (info.bank bankId).blockMeta = none)
    (hcreated : (info.bank bankId).blockCreated = false) :
    ∃ bank : BankInfo, bank.blockMeta = none ∧ bank.blockCreated = false ∧
      info.getBlockMessage ⟨a, .entry e⟩ arc =
        .ok ({ info with banks := info.banks.insert bankId bank }, none) := by
  have hid : ParsedMessage.bankId ⟨a, .entry e⟩ = bankId := hbank
  let bank := (info.bank bankId).store ⟨a, .entry e⟩ rfl
  refine ⟨{ bank with entriesCount := bank.entriesCount + 1 }, hmeta, hcreated, ?_⟩
  unfold SlotInfo.getBlockMessage
  rw [hid]
  simp [BankInfo.getBlockMessage, hcreated, BankInfo.storeMessage, BankInfo.createBlock,
    BankInfo.store, hmeta, bank]

/-- The loop of a push of a new entry, on its own slot. -/
theorem EntriesOnly.pushMessage (h : EntriesOnly slot bankId sourceName seen s) (cfg : Config)
    (hbank : (Message.entry e).bankId = bankId) :
    ∃ st eff, PushState.pushMessage cfg slot sourceName
        ⟨s, (s.replay.get? slot).getD (.new s.index), false⟩ (.entry e) = .ok (st, eff) ∧
      (stream .processed eff).map (·.message) = [.entry e] ∧ st.cleanAfterFinalized = false ∧
      st.replay.messages = none ∧ EntriesOnly slot bankId sourceName seen st.sender := by
  have hnone : ((s.replay.get? slot).getD (.new s.index)).messages = none := by
    cases hr : s.replay.get? slot with
    | none => rfl
    | some info => exact h.noJournal slot info hr
  generalize (s.replay.get? slot).getD (.new s.index) = replay at hnone
  have hinfo : (PushState.slotInfo ⟨s, replay, false⟩ slot).clearedBanks = ∅ ∧
      ((PushState.slotInfo ⟨s, replay, false⟩ slot).bank bankId).blockMeta = none ∧
      ((PushState.slotInfo ⟨s, replay, false⟩ slot).bank bankId).blockCreated = false := by
    unfold PushState.slotInfo
    cases hs : s.slots.get? slot with
    | none => exact ⟨rfl, rfl, rfl⟩
    | some info => exact h.bank info hs
  obtain ⟨bank, hmeta, hcreated, hget⟩ := getBlockMessage_entry s.nextArc
    (s.nextArc + 1) hbank hinfo.2.1 hinfo.2.2
  have hreceive : ∃ r, (PushState.slotInfo ⟨s, replay, false⟩ slot).receive
      ⟨s.nextArc, .entry e⟩ (s.nextArc + 1) = .ok r := by
    simp only [SlotInfo.receive]
    rw [hget]
    exact ⟨_, rfl⟩
  have hid : (PushState.mk s replay false).Identified ⟨s.nextArc, .entry e⟩ := Or.inl hnone
  obtain ⟨st, eff, hpush, -⟩ := PushState.pushMessage_ok cfg sourceName hid hreceive
  obtain ⟨info, block, kept, hstep⟩ := PushState.pushMessage_message rfl hpush
  obtain ⟨hkept, hnone'⟩ := hstep.kept_fresh hnone
  obtain ⟨rfl, rfl⟩ := Prod.mk.inj (Except.ok.inj (hget.symm.trans hstep.receive))
  refine ⟨st, eff, hpush, by rw [hstep.processed, hkept]; rfl, hstep.clean, hnone', ?_⟩
  constructor
  · unfold Sender.floor
    rw [hstep.slotFinalized, hstep.slotDropped]
    exact h.floor
  · intro k hk
    rw [hstep.slots] at hk
    exact (SortedMap.mem_keys_insert.mp hk).elim id (h.slots k)
  · exact hstep.dedup ▸ h.dedup
  · intro info hi
    rw [hstep.slots, SortedMap.get?_insert_self] at hi
    cases hi
    simp [SlotInfo.bank, hinfo.1, hmeta, hcreated]
  · exact hstep.dedup ▸ h.source
  · exact hstep.dedup ▸ h.bitmap
  · intro k r hr
    rw [hstep.replay] at hr
    exact h.noJournal k r hr

/-- The end of the push: one slot is no reason to drop any. -/
theorem EntriesOnly.finish {st : PushState}
    (h : EntriesOnly slot bankId sourceName seen st.sender) (hclean : st.cleanAfterFinalized = false)
    (hnone : st.replay.messages = none) (hmax : 1 ≤ cfg.maxUnfinalizedSlots) :
    EntriesOnly slot bankId sourceName seen (st.finish cfg slot).1 := by
  have hfin := finishStep cfg slot st
  have hcleaned : st.cleaned = st.sender := by simp [PushState.cleaned, hclean]
  have hslots := (SortedMap.size_le_one h.slots).trans hmax
  have hdedup := (SortedMap.size_le_one h.dedup).trans hmax
  have hs : (st.finish cfg slot).1.slots = st.sender.slots := by
    rw [hfin.slots, hcleaned, SortedMap.popExcess_of_le hslots]
  have hd : (st.finish cfg slot).1.dedup = st.sender.dedup := by
    rw [hfin.dedup, hcleaned, SortedMap.popExcess_of_le hdedup]
  have hdropped : (st.finish cfg slot).1.slotDropped = st.sender.slotDropped := by
    rw [hfin.slotDropped, hcleaned, SortedMap.excess_of_le hslots]
    rfl
  constructor
  · unfold Sender.floor
    rw [hfin.slotFinalized, hdropped]
    exact h.floor
  · exact hs ▸ h.slots
  · exact hd ▸ h.dedup
  · exact hs ▸ h.bank
  · exact hd ▸ h.source
  · exact hd ▸ h.bitmap
  · intro k r hr
    rcases hfin.replay k r hr with rfl | hr
    · exact hnone
    · exact h.noJournal k r hr

/-- A step of the run: the entry is published if its index is new. -/
theorem EntriesOnly.push (h : EntriesOnly slot bankId sourceName seen s)
    (hmax : 1 ≤ cfg.maxUnfinalizedSlots)
    (hslot : e.slot = slot) (hbank : (Message.entry e).bankId = bankId)
    (hnot : ¬ Outruns seen e.index) :
    ∃ s' out, s.push cfg ⟨true, sourceName, .entry e⟩ = .ok (s', out) ∧
      (stream .processed out).map (·.message) = (if e.index ∈ seen then [] else [.entry e]) ∧
      EntriesOnly slot bankId sourceName (seen ++ [e.index]) s' := by
  obtain ⟨s₁, hdedup, h₁⟩ := h.dedupMessage hslot hbank hnot
  obtain ⟨hcleared, -⟩ := h.accepts hslot hbank
  have hfloor : s.floor < PushInput.slot ⟨true, sourceName, .entry e⟩ := by
    simpa [hslot] using h.floor
  unfold Sender.push
  rw [if_neg (Nat.not_le_of_lt hfloor), if_neg (by simp [hcleared]), hdedup]
  by_cases hseen : e.index ∈ seen
  · -- a duplicate stops after deduplication
    rw [if_pos hseen]
    exact ⟨s₁, [], rfl, rfl, h₁⟩
  · rw [if_neg hseen]
    obtain ⟨st, eff, hpush, hstream, hclean, hnone, hst⟩ := h₁.pushMessage cfg hbank
    have hin : PushInput.slot ⟨true, sourceName, .entry e⟩ = slot := hslot
    dsimp only [List.isEmpty_cons]
    rw [if_neg Bool.false_ne_true, hin, run_singleton.mpr hpush]
    exact ⟨_, _, rfl, by simp [hstream], hst.finish hclean hnone hmax⟩

/-- An entry that outruns the bitmap ends the run. -/
theorem EntriesOnly.push_outruns (h : EntriesOnly slot bankId sourceName seen s)
    (hslot : e.slot = slot) (hbank : (Message.entry e).bankId = bankId)
    (hout : Outruns seen e.index) :
    s.push cfg ⟨true, sourceName, .entry e⟩ =
      .error (.indexOutOfBounds e.index e.index) := by
  obtain ⟨hcleared, dedup, haccept, hbanks, -⟩ := h.accepts hslot hbank
  have hpush := (hbanks ▸ h.bitmap).pushEntry_outruns hout
  have hdedup := DedupInfo.push_message (show (Message.entry e).isSlot = false from rfl) (hbank.symm ▸ haccept)
  rw [hbank, DedupInfoBank.push, hpush] at hdedup
  have hfloor : s.floor < PushInput.slot ⟨true, sourceName, .entry e⟩ := by
    simpa [hslot] using h.floor
  unfold Sender.push
  rw [if_neg (Nat.not_le_of_lt hfloor), if_neg (by simp [hcleared])]
  unfold Sender.dedupMessage
  subst hslot
  simp only [PushInput.slot, Message.slotOf, hdedup]
  rfl

/-- The pushes of entries with deduplication. -/
def entryInputs (sourceName : SourceName) (es : List MessageEntry) : List PushInput :=
  es.map fun e => ⟨true, sourceName, .entry e⟩

/-- The entries are pushed without a panic, and published when their index comes up first. -/
def EntriesDeduplicated (cfg : Config) (s : Sender) (sourceName : SourceName) (seen : List ℕ)
    (es : List MessageEntry) : Prop :=
  ∃ s' tr, run (Sender.push cfg) s (entryInputs sourceName es) = .ok (s', tr) ∧
    (stream .processed tr).map (·.message) = (firstPushes seen es).map .entry

theorem EntriesOnly.run (hmax : 1 ≤ cfg.maxUnfinalizedSlots) : ∀ {es : List MessageEntry}
    {seen : List ℕ} {s : Sender}, EntriesOnly slot bankId sourceName seen s →
    (∀ e ∈ es, e.slot = slot ∧ (Message.entry e).bankId = bankId) →
    (EntriesDeduplicated cfg s sourceName seen es ↔
      ∀ pre e post, es = pre ++ e :: post → ¬ Outruns (seen ++ pre.map (·.index)) e.index)
  | [], seen, s, _, _ => by
    refine ⟨fun _ pre e post h => by simp at h, fun _ => ⟨s, [], rfl, rfl⟩⟩
  | e :: es, seen, s, h, hes => by
    obtain ⟨hslot, hbank⟩ := hes e (List.mem_cons_self ..)
    have hes' : ∀ e ∈ es, e.slot = slot ∧ (Message.entry e).bankId = bankId :=
      fun e he => hes e (List.mem_cons_of_mem _ he)
    by_cases hout : Outruns seen e.index
    · -- neither side holds: the push panics, and the entry is the one that the right side excludes
      refine ⟨fun ⟨s', tr, hrun, _⟩ => ?_, fun hall => ?_⟩
      · obtain ⟨s₁, o₁, o₂, h₁, -⟩ := run_cons_ok.mp hrun
        rw [h.push_outruns hslot hbank hout] at h₁
        cases h₁
      · exact absurd (by simpa using hout) (hall [] e es rfl)
    · obtain ⟨s₁, o₁, h₁, hstream, hnext⟩ := h.push hmax hslot hbank hout
      have ih := EntriesOnly.run hmax hnext hes'
      have hstep : EntriesDeduplicated cfg s sourceName seen (e :: es) ↔
          EntriesDeduplicated cfg s₁ sourceName (seen ++ [e.index]) es := by
        have hfirst : (firstPushes seen (e :: es)).map Message.entry =
            (if e.index ∈ seen then [] else [.entry e]) ++
              (firstPushes (seen ++ [e.index]) es).map Message.entry := by
          rw [firstPushes]
          split <;> simp
        constructor
        · rintro ⟨s', tr, hrun, htr⟩
          obtain ⟨s₁', o₁', o₂, h₁', h₂, rfl⟩ := run_cons_ok.mp hrun
          obtain ⟨rfl, rfl⟩ := Prod.mk.inj (Except.ok.inj (h₁.symm.trans h₁'))
          rw [hfirst, stream_append, List.map_append, hstream] at htr
          exact ⟨s', o₂, h₂, List.append_cancel_left htr⟩
        · rintro ⟨s', tr, hrun, htr⟩
          refine ⟨s', o₁ ++ tr, run_cons_ok.mpr ⟨s₁, o₁, tr, h₁, hrun, rfl⟩, ?_⟩
          rw [hfirst, stream_append, List.map_append, hstream, htr]
      rw [hstep, ih]
      constructor
      · intro hall pre e' post heq
        cases pre with
        | nil =>
          obtain ⟨rfl, rfl⟩ := List.cons.inj heq
          simpa using hout
        | cons a pre =>
          obtain ⟨rfl, rfl⟩ := List.cons.inj heq
          simpa using hall pre e' post rfl
      · intro hall pre e' post heq
        simpa using hall (e :: pre) e' post (by rw [heq]; rfl)

/-- **Entry deduplication.** From a sender without slots and journal, the entries of a bank are
deduplicated without a panic if and only if no index is a power of two, `512` at least, that comes
while every earlier index is below its half. -/
theorem entries_deduplicated_iff (hinit : s.Initial) (hjournal : s.NoJournal)
    (hmax : 1 ≤ cfg.maxUnfinalizedSlots) (hfloor : s.floor < slot) {es : List MessageEntry}
    (hes : ∀ e ∈ es, e.slot = slot ∧ (Message.entry e).bankId = bankId) :
    EntriesDeduplicated cfg s sourceName [] es ↔
      ∀ pre e post, es = pre ++ e :: post → ¬ Outruns (pre.map (·.index)) e.index := by
  simpa using (entriesOnly_initial hinit hjournal hfloor).run hmax hes

end

/-- Two entries of a bank, and the first again. -/
theorem entries_deduplicated_two :
    EntriesDeduplicated .memory .new "a" [] [⟨5, 1, 0, []⟩, ⟨5, 1, 256, []⟩, ⟨5, 1, 0, []⟩] := by
  have hfloor : Sender.floor .new < 5 := by decide
  have hes : ∀ e ∈ [(⟨5, 1, 0, []⟩ : MessageEntry), ⟨5, 1, 256, []⟩, ⟨5, 1, 0, []⟩],
      e.slot = 5 ∧ (Message.entry e).bankId = some 1 := by decide
  refine (entries_deduplicated_iff Sender.initial_new Sender.noJournal_new (by decide) hfloor
    hes).mpr ?_
  intro pre e post h
  rintro ⟨j, hj, hpow, -⟩
  have hle : 2 ^ 9 ≤ 2 ^ j := Nat.pow_le_pow_right (by omega) hj
  have hmem : e ∈ [(⟨5, 1, 0, []⟩ : MessageEntry), ⟨5, 1, 256, []⟩, ⟨5, 1, 0, []⟩] := by
    rw [h]
    simp
  simp only [List.mem_cons, List.not_mem_nil, or_false] at hmem
  rcases hmem with rfl | rfl | rfl <;> simp only at hpow <;> omega

/-- The first entry of a bank has index `512`: the bitmap gets the length `512`. -/
theorem entry_512_panics :
    ¬ EntriesDeduplicated .memory .new "a" [] [⟨5, 1, 512, []⟩] := by
  rintro ⟨s', tr, hrun, -⟩
  obtain ⟨s₁, o₁, o₂, h₁, -⟩ := run_cons_ok.mp hrun
  have hout : Outruns [] 512 := ⟨9, le_rfl, by norm_num, fun i hi => absurd hi List.not_mem_nil⟩
  have h : EntriesOnly 5 (some 1) "a" [] .new :=
    entriesOnly_initial Sender.initial_new Sender.noJournal_new (by decide)
  rw [h.push_outruns rfl rfl hout] at h₁
  cases h₁

end Richat
