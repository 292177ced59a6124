import Richat.Grpc.BlockMetaSpec

/-!
# Blockhashes

The table of blockhashes is keyed by the hash, but blocks share one: candidates of a slot, blocks of two
slots, a block meta that comes again. `Lasting` is what the table is for: a blockhash is known, with its last
valid block height, as long as a block that carries it is not cleared and the finalized block is not past that
height.

Clearing a bank removes the blockhash of its block, whoever else carries it (`cleared_shared_blockhash`), and
the finalized block can become a lower one while the blockhashes it brings back are removed already.
`KeepsBlockhashes` are the messages that do none of this.
-/

namespace Richat.BlockMetaStorage

open Lib

variable {fields : BlockMetaFields} {log : List Message} {st : State} {m : Message} {blockhash : String}
  {height : ℕ}

/-! ### Blocks that carry a blockhash -/

/-- The block is of the bank that was cleared. -/
def Clears (cleared : MessageEntryUpdateParent) (msg : MessageBlockMeta) : Prop :=
  msg.slot = cleared.slot ∧ nonzeroBankId msg.bankId = some cleared.clearedBankId

/-- The block meta was received, and its bank was not cleared after. -/
def Standing (log : List Message) (msg : MessageBlockMeta) : Prop :=
  ∃ pre post, log = pre ++ .blockMeta msg :: post ∧
    ∀ cleared, Message.entryUpdateParent cleared ∈ post → ¬ Clears cleared msg

/-- A block meta with the blockhash and the height was received, and a block that carries the blockhash was
not cleared. -/
structure Carried (fields : BlockMetaFields) (log : List Message) (blockhash : String) (height : ℕ) : Prop where
  received : ∃ msg, Message.blockMeta msg ∈ log ∧ fields.blockhash msg = blockhash ∧
    fields.blockHeight msg = height
  standing : ∃ msg, Standing log msg ∧ fields.blockhash msg = blockhash

theorem standing_snoc {msg : MessageBlockMeta} : Standing (log ++ [m]) msg ↔ m = .blockMeta msg ∨
    Standing log msg ∧ ∀ cleared, m = .entryUpdateParent cleared → ¬ Clears cleared msg := by
  constructor
  · rintro ⟨pre, post, heq, hpost⟩
    rcases split_append heq with ⟨rest, rfl⟩ | ⟨l, rfl, hl⟩
    · obtain rfl : post = rest ++ [m] := by simpa using heq.symm
      refine .inr ⟨⟨pre, rest, rfl, fun cleared hmem => hpost cleared (List.mem_append_left _ hmem)⟩, ?_⟩
      rintro cleared rfl
      exact hpost cleared (List.mem_append_right _ (List.mem_singleton.mpr rfl))
    · cases l with
      | nil => exact .inl (List.cons.inj hl).1
      | cons x l => simp at hl
  · rintro (rfl | ⟨⟨pre, post, rfl, hpost⟩, hm⟩)
    · exact ⟨log, [], rfl, by simp⟩
    · refine ⟨pre, post ++ [m], by simp, fun cleared hmem => ?_⟩
      rcases List.mem_append.mp hmem with hmem | hmem
      · exact hpost cleared hmem
      · exact hm cleared (List.mem_singleton.mp hmem).symm

/-- A blockhash that the last message does not bring was carried before. -/
theorem Carried.of_snoc (h : Carried fields (log ++ [m]) blockhash height)
    (hm : ∀ msg, m = .blockMeta msg → fields.blockhash msg ≠ blockhash) :
    Carried fields log blockhash height := by
  obtain ⟨⟨msg, hmem, hhash, hheight⟩, ⟨msg', hstanding, hhash'⟩⟩ := h
  constructor
  · rcases List.mem_append.mp hmem with hmem | hmem
    · exact ⟨msg, hmem, hhash, hheight⟩
    · exact absurd hhash (hm msg (List.mem_singleton.mp hmem).symm)
  · rcases standing_snoc.mp hstanding with rfl | ⟨hstanding, -⟩
    · exact absurd hhash' (hm msg' rfl)
    · exact ⟨msg', hstanding, hhash'⟩

/-! ### What is known of a blockhash -/

/-- The blockhash is known with the last block height at which a block of the height makes it valid. -/
def Knows (st : State) (blockhash : String) (height : ℕ) : Prop :=
  ∃ entry, st.blockhashes blockhash = some entry ∧ entry.lastValidBlockHeight = height + maxProcessingAge

/-- The height of the finalized block, zero if there is none. -/
def State.finalizedHeight (st : State) : ℕ := ((st.getBlock .finalized).map (·.blockHeight)).getD 0

/-- Every blockhash of a block that was not cleared is known, until the finalized block is past it. -/
def Lasting (fields : BlockMetaFields) (log : List Message) : Prop :=
  ∀ blockhash height, Carried fields log blockhash height →
    (State.handled fields log).finalizedHeight ≤ height + maxProcessingAge →
    Knows (State.handled fields log) blockhash height

/-- A candidate of the bank carries the blockhash, which no status selected. -/
def RemovesHash (st : State) (slot : Slot) (bankId : BankId) (blockhash : String) : Prop :=
  ∃ c ∈ (st.candidates slot).getD [], c.bankId = some bankId ∧ c.blockhash = blockhash ∧
    ∃ entry, st.blockhashes blockhash = some entry ∧ entry.confirmed = false ∧ entry.finalized = false

/-- The block that a finalized status shows. -/
def State.finalizedEntry (st : State) (slot : Slot) (bankId : Option BankId) : BlockMeta :=
  if (st.entry slot).confirmed then st.entry slot
  else (st.entry slot).selectCandidate (st.candidates slot) bankId

/-- The height of the finalized block when the message comes. -/
def heightAt (fields : BlockMetaFields) (st : State) : Message → ℕ
  | .slot msg =>
    match msg.status with
    | .slotConfirmed =>
      if msg.slot = st.finalized then
        ((st.entry msg.slot).selectCandidate (st.candidates msg.slot) msg.bankId).blockHeight
      else st.finalizedHeight
    | .slotFinalized => (st.finalizedEntry msg.slot msg.bankId).blockHeight
    | _ => st.finalizedHeight
  | .blockMeta msg =>
    if msg.slot = st.finalized then
      if (st.entry msg.slot).accepts (State.candidateOf fields msg) then fields.blockHeight msg
      else (st.entry msg.slot).blockHeight
    else st.finalizedHeight
  | .entryUpdateParent msg =>
    if msg.slot = st.finalized ∧ (st.blocks msg.slot).any fun entry =>
        entry.bankId = some msg.clearedBankId ∧ ¬ entry.confirmed ∧ ¬ entry.finalized then
      ((((st.candidates msg.slot).getD []).filter (·.bankId ≠ some msg.clearedBankId)).getLast?.map
        (·.blockHeight)).getD 0
    else st.finalizedHeight
  | _ => st.finalizedHeight

/-- The messages that lose no blockhash of a block that stands. -/
structure KeepsBlockhashes (fields : BlockMetaFields) (log : List Message) (m : Message) : Prop where
  /-- a finalized block that is lower brings no blockhash back that was removed -/
  lower : ∀ blockhash height, Carried fields (log ++ [m]) blockhash height →
    (∀ msg, m = .blockMeta msg → fields.blockhash msg ≠ blockhash) →
    heightAt fields (State.handled fields log) m ≤ height + maxProcessingAge →
    height + maxProcessingAge < (State.handled fields log).finalizedHeight →
    Knows (State.handled fields log) blockhash height
  /-- the blockhash comes with the height it came with before, which is no overflow -/
  same : ∀ msg, m = .blockMeta msg → ∀ msg', Message.blockMeta msg' ∈ log ++ [m] →
    fields.blockhash msg' = fields.blockhash msg →
    heightAt fields (State.handled fields log) m ≤ fields.blockHeight msg' + maxProcessingAge →
    fields.blockHeight msg' + maxProcessingAge = (fields.blockHeight msg + maxProcessingAge) % 2 ^ 64
  /-- no other block that stands carries a blockhash of the bank that is cleared -/
  others : ∀ msg, m = .entryUpdateParent msg → ∀ blockhash height,
    RemovesHash (State.handled fields log) msg.slot msg.clearedBankId blockhash →
    Carried fields (log ++ [m]) blockhash height →
    height + maxProcessingAge < heightAt fields (State.handled fields log) m

/-! ### One message -/

theorem lastValid_setBlockhash (hash : String) {f : BlockStatus → BlockStatus}
    (hf : ∀ entry, (f entry).lastValidBlockHeight = entry.lastValidBlockHeight) :
    (∃ entry, st.setBlockhash hash f blockhash = some entry ∧
      entry.lastValidBlockHeight = height + maxProcessingAge) ↔ Knows st blockhash height := by
  rw [State.setBlockhash, Knows]
  by_cases heq : blockhash = hash
  · subst heq
    rw [Function.update_self]
    simp [hf]
  · rw [Function.update_of_ne heq]

theorem knows_confirm {slot : Slot} {bankId : Option BankId} :
    Knows (st.confirm slot bankId) blockhash height ↔ Knows st blockhash height :=
  lastValid_setBlockhash _ fun _ => rfl

theorem knows_finalize {slot : Slot} {bankId : Option BankId} :
    Knows (st.finalize slot bankId) blockhash height ↔ Knows st blockhash height ∧
      (st.finalizedEntry slot bankId).blockHeight ≤ height + maxProcessingAge := by
  have hset : (∃ entry, st.setBlockhash (st.finalizedEntry slot bankId).blockhash ({ · with finalized := true })
      blockhash = some entry ∧ entry.lastValidBlockHeight = height + maxProcessingAge) ↔ Knows st blockhash height :=
    lastValid_setBlockhash _ fun _ => rfl
  rw [← hset]
  constructor
  · rintro ⟨entry, hget, hlast⟩
    obtain ⟨hget, hle⟩ := Option.filter_eq_some_iff.mp hget
    exact ⟨⟨entry, hget, hlast⟩, hlast ▸ of_decide_eq_true hle⟩
  · rintro ⟨⟨entry, hget, hlast⟩, hle⟩
    exact ⟨entry, Option.filter_eq_some_iff.mpr ⟨hget, decide_eq_true (hlast ▸ hle)⟩, hlast⟩

theorem knows_receiveMeta {msg : MessageBlockMeta} :
    Knows (st.receiveMeta fields msg) (fields.blockhash msg) height ↔
      height + maxProcessingAge = (fields.blockHeight msg + maxProcessingAge) % 2 ^ 64 := by
  have hset : (st.receiveMeta fields msg).blockhashes (fields.blockhash msg) =
      some { (st.blockhashes (fields.blockhash msg)).getD .default with
        lastValidBlockHeight := (fields.blockHeight msg + maxProcessingAge) % 2 ^ 64
        processed := true } := Function.update_self ..
  constructor
  · rintro ⟨entry, hget, hlast⟩
    rw [hset] at hget
    cases hget
    exact hlast.symm
  · intro hlast
    exact ⟨_, hset, hlast.symm⟩

theorem knows_receiveMeta_of_ne {msg : MessageBlockMeta} (hne : fields.blockhash msg ≠ blockhash) :
    Knows (st.receiveMeta fields msg) blockhash height ↔ Knows st blockhash height := by
  have hsame : (st.receiveMeta fields msg).blockhashes blockhash = st.blockhashes blockhash :=
    Function.update_of_ne hne.symm ..
  rw [Knows, hsame, Knows]

theorem foldl_removeHash {entry : BlockStatus} : ∀ (removed : List BlockMeta) (init : String → Option BlockStatus),
    removed.foldl (fun blockhashes candidate =>
      if (blockhashes candidate.blockhash).any fun b => !b.confirmed && !b.finalized then
        Function.update blockhashes candidate.blockhash none
      else blockhashes) init blockhash = some entry ↔
    init blockhash = some entry ∧
      ((∃ c ∈ removed, c.blockhash = blockhash) → ¬ (entry.confirmed = false ∧ entry.finalized = false))
  | [], init => by simp
  | c :: removed, init => by
    rw [List.foldl_cons, foldl_removeHash removed]
    by_cases hc : c.blockhash = blockhash
    · subst hc
      cases hget : init c.blockhash with
      | none => simp [hget]
      | some old =>
        cases hflags : !old.confirmed && !old.finalized with
        | false =>
          have hkept : ¬ (old.confirmed = false ∧ old.finalized = false) := by simpa using hflags
          simp only [Option.any_some, hflags, Bool.false_eq_true, if_false, hget, Option.some.injEq]
          constructor
          · rintro ⟨rfl, -⟩
            exact ⟨rfl, fun _ => hkept⟩
          · rintro ⟨rfl, -⟩
            exact ⟨rfl, fun _ => hkept⟩
        | true =>
          have hremoved : old.confirmed = false ∧ old.finalized = false := by simpa using hflags
          simp only [Option.any_some, hflags, if_true, Function.update_self, Option.some.injEq]
          constructor
          · rintro ⟨h, -⟩
            cases h
          · rintro ⟨rfl, h⟩
            exact absurd hremoved (h ⟨c, List.mem_cons_self, rfl⟩)
    · have hsame : (if (init c.blockhash).any fun b => !b.confirmed && !b.finalized then
          Function.update init c.blockhash none else init) blockhash = init blockhash := by
        split
        · exact Function.update_of_ne (Ne.symm hc) ..
        · rfl
      simp [hsame, hc]

theorem knows_clearBank {slot : Slot} {bankId : BankId} :
    Knows (st.clearBank slot bankId) blockhash height ↔
      Knows st blockhash height ∧ ¬ RemovesHash st slot bankId blockhash := by
  have hblockhashes : ∀ entry, (st.clearBank slot bankId).blockhashes blockhash = some entry ↔
      st.blockhashes blockhash = some entry ∧
        ((∃ c ∈ ((st.candidates slot).getD []).filter (·.bankId = some bankId), c.blockhash = blockhash) →
          ¬ (entry.confirmed = false ∧ entry.finalized = false)) := fun entry => foldl_removeHash ..
  constructor
  · rintro ⟨entry, hget, hlast⟩
    obtain ⟨hget, hkept⟩ := (hblockhashes entry).mp hget
    refine ⟨⟨entry, hget, hlast⟩, ?_⟩
    rintro ⟨c, hmem, hbank, hhash, entry', hget', hflags⟩
    obtain rfl := Option.some.inj (hget.symm.trans hget')
    exact hkept ⟨c, List.mem_filter.mpr ⟨hmem, decide_eq_true hbank⟩, hhash⟩ hflags
  · rintro ⟨⟨entry, hget, hlast⟩, hkept⟩
    refine ⟨entry, (hblockhashes entry).mpr ⟨hget, ?_⟩, hlast⟩
    rintro ⟨c, hmem, hhash⟩ hflags
    obtain ⟨hmem, hbank⟩ := List.mem_filter.mp hmem
    exact hkept ⟨c, hmem, of_decide_eq_true hbank, hhash, entry, hget, hflags⟩

theorem knows_handleMessage (hm : ∀ msg, m = .blockMeta msg → fields.blockhash msg ≠ blockhash)
    (hheight : heightAt fields st m ≤ height + maxProcessingAge) :
    Knows (st.handleMessage fields m) blockhash height ↔ Knows st blockhash height ∧
      ∀ msg, m = .entryUpdateParent msg → ¬ RemovesHash st msg.slot msg.clearedBankId blockhash := by
  cases m with
  | slot msg =>
    rw [State.handleMessage]
    rcases hs : msg.status with _ | _ | _ | _ | _ | _ | _
    case slotConfirmed => simpa using knows_confirm
    case slotFinalized =>
      simp only [heightAt, hs] at hheight
      rw [knows_finalize]
      simp [hheight]
    all_goals simp
  | blockMeta msg => simpa [State.handleMessage] using knows_receiveMeta_of_ne (hm msg rfl)
  | entryUpdateParent msg => simpa [State.handleMessage] using knows_clearBank
  | account msg => simp [State.handleMessage]
  | transaction msg => simp [State.handleMessage]
  | entry msg => simp [State.handleMessage]
  | block msg => simp [State.handleMessage]
  | blockFooter msg => simp [State.handleMessage]

/-! ### The finalized block -/

theorem finalizedHeight_confirm {slot : Slot} {bankId : Option BankId} :
    (st.confirm slot bankId).finalizedHeight =
      if slot = st.finalized then ((st.entry slot).selectCandidate (st.candidates slot) bankId).blockHeight
      else st.finalizedHeight := by
  by_cases hslot : slot = st.finalized
  · subst hslot
    rw [if_pos rfl]
    simp [State.finalizedHeight, State.getBlock, State.commitmentSlot, State.confirm]
  · rw [if_neg hslot]
    simp [State.finalizedHeight, State.getBlock, State.commitmentSlot, State.confirm, Function.update_of_ne (Ne.symm hslot)]

theorem finalizedHeight_finalize {slot : Slot} {bankId : Option BankId} :
    (st.finalize slot bankId).finalizedHeight = (st.finalizedEntry slot bankId).blockHeight := by
  simp [State.finalizedHeight, State.getBlock, State.commitmentSlot, State.finalize, State.finalizedEntry]

theorem finalizedHeight_receiveMeta {msg : MessageBlockMeta} :
    (st.receiveMeta fields msg).finalizedHeight = heightAt fields st (.blockMeta msg) := by
  rw [heightAt]
  by_cases hslot : msg.slot = st.finalized
  · rw [if_pos hslot]
    simp only [State.finalizedHeight, State.getBlock, State.commitmentSlot, State.receiveMeta, ← hslot,
      Function.update_self, Option.map_some, Option.getD_some]
    split <;> rfl
  · rw [if_neg hslot]
    simp [State.finalizedHeight, State.getBlock, State.commitmentSlot, State.receiveMeta, Function.update_of_ne (Ne.symm hslot)]

theorem finalizedHeight_clearBank {msg : MessageEntryUpdateParent} :
    (st.clearBank msg.slot msg.clearedBankId).finalizedHeight = heightAt fields st (.entryUpdateParent msg) := by
  rw [heightAt, State.finalizedHeight, State.getBlock]
  simp only [State.clearBank, State.commitmentSlot]
  cases hentry : st.blocks msg.slot with
  | none =>
    rw [if_neg (by simp)]
    rfl
  | some entry =>
    by_cases hcond : entry.bankId = some msg.clearedBankId ∧ ¬ entry.confirmed ∧ ¬ entry.finalized
    · by_cases hslot : msg.slot = st.finalized
      · rw [if_pos ⟨hslot, by simpa using hcond⟩]
        simp only [if_pos hcond, ← hslot, Function.update_self]
        cases st.candidates msg.slot with
        | none => rfl
        | some list =>
          rw [Option.map_some, Option.bind_some, Option.getD_some, Option.map_map]
          rfl
      · rw [if_neg fun h => hslot h.1]
        simp only [if_pos hcond, Function.update_of_ne (Ne.symm hslot)]
        rfl
    · rw [if_neg fun h => hcond (by simpa using h.2)]
      simp only [if_neg hcond]
      rfl

theorem finalizedHeight_handleMessage :
    (st.handleMessage fields m).finalizedHeight = heightAt fields st m := by
  cases m with
  | slot msg =>
    rw [State.handleMessage, heightAt]
    rcases msg.status with _ | _ | _ | _ | _ | _ | _
    case slotConfirmed => exact finalizedHeight_confirm
    case slotFinalized => exact finalizedHeight_finalize
    all_goals rfl
  | blockMeta msg => exact finalizedHeight_receiveMeta
  | entryUpdateParent msg => exact finalizedHeight_clearBank
  | account msg => rfl
  | transaction msg => rfl
  | entry msg => rfl
  | block msg => rfl
  | blockFooter msg => rfl

/-! ### Runs -/

theorem lasting_nil : Lasting fields [] := by
  rintro blockhash height ⟨⟨msg, hmem, -⟩, -⟩
  cases hmem

theorem lasting_snoc (h : Lasting fields log) :
    KeepsBlockhashes fields log m ↔ Lasting fields (log ++ [m]) := by
  constructor
  · intro hkeeps blockhash height hcarried hheight
    rw [State.handled_snoc] at hheight ⊢
    rw [finalizedHeight_handleMessage] at hheight
    by_cases hm : ∀ msg, m = .blockMeta msg → fields.blockhash msg ≠ blockhash
    · rw [knows_handleMessage hm hheight]
      constructor
      · by_cases hlower : (State.handled fields log).finalizedHeight ≤ height + maxProcessingAge
        · exact h blockhash height (hcarried.of_snoc hm) hlower
        · exact hkeeps.lower blockhash height hcarried hm hheight (by omega)
      · intro msg hmsg hremoves
        have := hkeeps.others msg hmsg blockhash height hremoves hcarried
        omega
    · push Not at hm
      obtain ⟨msg, rfl, rfl⟩ := hm
      obtain ⟨msg', hmem, hhash, rfl⟩ := hcarried.received
      exact knows_receiveMeta.mpr (hkeeps.same msg rfl msg' hmem hhash hheight)
  · intro hlast
    have hknows : ∀ blockhash height, Carried fields (log ++ [m]) blockhash height →
        heightAt fields (State.handled fields log) m ≤ height + maxProcessingAge →
        Knows ((State.handled fields log).handleMessage fields m) blockhash height := by
      intro blockhash height hcarried hheight
      have hknown := hlast blockhash height hcarried
      rw [State.handled_snoc, finalizedHeight_handleMessage] at hknown
      exact hknown hheight
    constructor
    · intro blockhash height hcarried hm hheight _
      exact ((knows_handleMessage hm hheight).mp (hknows blockhash height hcarried hheight)).1
    · rintro msg rfl msg' hmem hhash hheight
      have hstanding : Standing (log ++ [.blockMeta msg]) msg := standing_snoc.mpr (.inl rfl)
      exact knows_receiveMeta.mp (hknows _ _ ⟨⟨msg', hmem, hhash, rfl⟩, msg, hstanding, rfl⟩ hheight)
    · rintro msg rfl blockhash height hremoves hcarried
      by_contra hheight
      have hm : ∀ msg', Message.entryUpdateParent msg = .blockMeta msg' → fields.blockhash msg' ≠ blockhash := by
        rintro msg' ⟨⟩
      have hheight := not_lt.mp hheight
      exact ((knows_handleMessage hm hheight).mp (hknows blockhash height hcarried hheight)).2 msg rfl hremoves

/-- The blockhashes last exactly in the runs whose messages all keep them. -/
theorem lasting_run_iff : AtEach (KeepsBlockhashes fields) log ↔ ∀ pre, pre <+: log → Lasting fields pre := by
  constructor
  · intro h
    induction log using List.reverseRecOn with
    | nil =>
      intro pre hpre
      rw [List.prefix_nil.mp hpre]
      exact lasting_nil
    | append_singleton log m ih =>
      have ih := ih (atEach_append.mp h).1
      intro pre hpre
      rcases List.prefix_concat_iff.mp hpre with rfl | hpre
      · exact (lasting_snoc (ih log (List.prefix_refl log))).mp (h log m [] rfl)
      · exact ih pre hpre
  · rintro h pre m post rfl
    have hpre : pre <+: pre ++ m :: post := List.prefix_append ..
    have hsnoc : pre ++ [m] <+: pre ++ m :: post := ⟨post, by simp⟩
    exact (lasting_snoc (h pre hpre)).mpr (h _ hsnoc)

/-- Every blockhash of a block that stands is known until the finalized block is past it, with the right
answer at every commitment with a known block. -/
def AnswersBlockhashes (fields : BlockMetaFields) (log : List Message) : Prop :=
  ∀ blockhash height, Carried fields log blockhash height →
    (State.handled fields log).finalizedHeight ≤ height + maxProcessingAge →
    ((State.handled fields log).blockhashes blockhash).isSome ∧
    ∀ commitment (block : BlockMeta), (State.handled fields log).getBlock commitment = some block →
      (State.handled fields log).isBlockhashValid blockhash commitment =
        some (decide (block.blockHeight < height + maxProcessingAge), block.slot)

theorem Lasting.answers (h : Lasting fields log) : AnswersBlockhashes fields log := by
  intro blockhash height hcarried hheight
  obtain ⟨entry, hget, hlast⟩ := h blockhash height hcarried hheight
  refine ⟨by rw [hget]; rfl, fun commitment block hblock => ?_⟩
  simp only [State.isBlockhashValid, hblock, hget, hlast]

/-- In a run of messages that keep the blockhashes, the blockhashes are answered at every point. -/
theorem blockhashes_answered (h : AtEach (KeepsBlockhashes fields) log) {pre : List Message} (hpre : pre <+: log) :
    AnswersBlockhashes fields pre :=
  (lasting_run_iff.mp h pre hpre).answers

/-- The block of the bank `1` carries another blockhash than the blocks of the other banks. -/
def twoBlockhashes : BlockMetaFields := ⟨fun msg => if msg.bankId = 1 then "cleared" else "hash", fun _ => 7⟩

theorem blockhashes_answered_cleared :
    let log := [.blockMeta sampleMeta, .blockMeta { sampleMeta with bankId := 2 }, .entryUpdateParent ⟨5, 1, []⟩]
    AtEach (KeepsBlockhashes twoBlockhashes) log ∧ AnswersBlockhashes twoBlockhashes log ∧
      (State.handled twoBlockhashes log).isBlockhashValid "hash" .processed = some (true, 5) := by
  intro log
  have hlog : AtEach (KeepsBlockhashes twoBlockhashes) ([.blockMeta sampleMeta] ++
      [.blockMeta { sampleMeta with bankId := 2 }] ++ [.entryUpdateParent ⟨5, 1, []⟩]) := by
    rw [atEach_append, atEach_append, atEach_singleton, atEach_singleton, atEach_singleton, List.append_nil,
      List.append_nil]
    -- nothing is finalized, and the height of every block is the same
    have hlower : ∀ {height n : ℕ}, n = 0 → ¬ height + maxProcessingAge < n := by
      intro height n hn
      omega
    refine ⟨⟨⟨?_, ?_, ?_⟩, ⟨?_, ?_, ?_⟩⟩, ⟨?_, ?_, ?_⟩⟩
    · exact fun _ _ _ _ _ h => absurd h (hlower (by decide))
    · exact fun _ _ _ _ _ _ => rfl
    · rintro msg ⟨⟩
    · exact fun _ _ _ _ _ h => absurd h (hlower (by decide))
    · exact fun _ _ _ _ _ _ => rfl
    · rintro msg ⟨⟩
    · exact fun _ _ _ _ _ h => absurd h (hlower (by decide))
    · rintro msg ⟨⟩
    · rintro msg ⟨⟩ blockhash height ⟨c, hmem, hbank, rfl, -⟩ ⟨-, msg, hstanding, hhash⟩
      have hcleared : ∀ c ∈ ((State.handled twoBlockhashes
          ([.blockMeta sampleMeta] ++ [.blockMeta { sampleMeta with bankId := 2 }])).candidates 5).getD [],
          c.bankId = some 1 → c.blockhash = "cleared" := by decide
      rw [hcleared c hmem hbank] at hhash
      obtain ⟨hstanding, hkept⟩ := (standing_snoc.mp hstanding).resolve_left (by simp)
      rcases standing_snoc.mp hstanding with heq | ⟨hstanding, -⟩
      · obtain rfl := Message.blockMeta.inj heq
        exact absurd hhash (by decide)
      · obtain ⟨pre, post, heq, -⟩ := hstanding
        have hmem : Message.blockMeta msg ∈ [Message.blockMeta sampleMeta] := by
          rw [heq]
          exact List.mem_append_right pre List.mem_cons_self
        obtain rfl := Message.blockMeta.inj (List.mem_singleton.mp hmem)
        exact absurd ⟨rfl, rfl⟩ (hkept _ rfl)
  exact ⟨hlog, blockhashes_answered hlog (List.prefix_refl _), by decide⟩

/-- Two banks of the slot `5` carry a blockhash, and one of them is cleared. -/
theorem cleared_shared_blockhash :
    ¬ ∀ (fields : BlockMetaFields) (log : List Message), AnswersBlockhashes fields log := by
  intro h
  have hcarried : Carried sampleFields [.blockMeta sampleMeta, .blockMeta { sampleMeta with bankId := 2 },
      .entryUpdateParent ⟨5, 1, []⟩] "hash" 7 := by
    refine ⟨⟨sampleMeta, by simp, rfl, rfl⟩, { sampleMeta with bankId := 2 }, ?_, rfl⟩
    refine ⟨[.blockMeta sampleMeta], [.entryUpdateParent ⟨5, 1, []⟩], rfl, ?_⟩
    intro cleared hmem
    obtain rfl := Message.entryUpdateParent.inj (List.mem_singleton.mp hmem)
    rintro ⟨-, hbank⟩
    cases hbank
  have hknown := (h _ _ "hash" 7 hcarried (by decide)).1
  revert hknown
  decide

end Richat.BlockMetaStorage
