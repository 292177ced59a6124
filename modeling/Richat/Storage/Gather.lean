import Richat.Channel.Journal
import Richat.Lib.InOrder
import Richat.Storage.Collector

/-!
# What the collector hands on

`PendingChunk.Gathers` relates a chunk to the commands it was made of, and `Collector.gathers_step` says
that a turn of the collector divides the commands it has received among its outputs, in order: no
command is lost, none is used twice, and no chunk ends before a processed record.

`PendingChunk.Gathers.chunk` is what such a chunk covers of the journal.
-/

namespace Richat

open Lib

/-- The record of a publication. -/
structure RawRecord.Publishes (record : RawRecord) (slot : Slot) (commitment : CommitmentLevel)
    (message : ParsedMessage) : Prop where
  slot_eq : record.slot = slot
  commitment_eq : record.commitment = commitment
  block_eq : record.block = message.message.isBlock
  finalized_eq : record.finalized = decide (commitment = CommitmentLevel.processed ∧ message.isFinalized)

/-- The chunk has the records of the commands. -/
inductive PendingChunk.Gathers (size : ParsedMessage → ℕ) : PendingChunk → List WriterCommand → Prop
  | nil : Gathers size .default []
  | restore {chunk l} (index : ℕ) (message : ParsedMessage) (h : Gathers size chunk l) :
    Gathers size chunk (l ++ [.restorePayload index message])
  | push {chunk l record} (init : Bool) (slot : Slot) (head index : ℕ) (message : ParsedMessage)
    (commitment : CommitmentLevel) (h : Gathers size chunk l)
    (hrecord : record.Publishes slot commitment message) :
    Gathers size (chunk.push size init slot head index record)
      (l ++ [.pushMessage init slot head index message commitment])

/-- The commands that an output was made of. -/
def CollectorOutput.Gathers (size : ParsedMessage → ℕ) :
    CollectorOutput → List WriterCommand → Prop
  | .rawChunk chunk, l => chunk.Gathers size l ∧ chunk.isComplete = true
  | .trim slot upTo, l => ∃ l', PendingChunk.Gathers size .default l' ∧
    l = l' ++ [.removeReplay slot upTo]

/-- The command that a turn of the collector receives. -/
def CollectorInput.commands : CollectorInput → List WriterCommand
  | .command c => [c]
  | .timeout => []
  | .closed => []

theorem PendingChunk.Gathers.eq_default {size : ParsedMessage → ℕ} {chunk : PendingChunk}
    {l : List WriterCommand} (h : chunk.Gathers size l) (hempty : chunk.records = []) :
    chunk = .default := by
  induction h with
  | nil => rfl
  | restore index message h ih => exact ih hempty
  | push init slot head index message commitment h hrecord ih => simp [PendingChunk.push] at hempty

/-! ### The turns of the collector -/

theorem PayloadReferences.record_publishes (references : PayloadReferences) (slot : Slot)
    (index : ℕ) (commitment : CommitmentLevel) (message : ParsedMessage) :
    (references.record slot index commitment message).2.Publishes slot commitment message := by
  unfold record
  dsimp only
  constructor <;> rfl

namespace Collector

variable {size : ParsedMessage → ℕ} {chunkTargetSize : ℕ} {s s' : Collector}
  {outputs : List (ℕ × CollectorOutput)} {l : List WriterCommand} {input : CollectorInput}

/-- What the collector has handed on in a turn, and what it still gathers. -/
structure Divides (size : ParsedMessage → ℕ) (s s' : Collector)
    (outputs : List (ℕ × CollectorOutput)) (l : List WriterCommand)
    (outs : List CollectorOutput) (ls : List (List WriterCommand)) (l' : List WriterCommand) :
    Prop where
  outputs : outputs = number s.nextSeq outs
  nextSeq : s'.nextSeq = s.nextSeq + outs.length
  gathers : List.Forall₂ (·.Gathers size) outs ls
  pending : s'.pending.Gathers size l'
  flatten : l = ls.flatten ++ l'

theorem divides_keep (hg : s'.pending.Gathers size l) (hseq : s'.nextSeq = s.nextSeq) :
    Divides size s s' [] l [] [] l where
  outputs := rfl
  nextSeq := hseq
  gathers := .nil
  pending := hg
  flatten := rfl

theorem divides_flush (hg : s.pending.Gathers size l) (h : s.flush = .ok (s', outputs)) :
    s'.pending.records = [] ∧ ∃ outs ls l', Divides size s s' outputs l outs ls l' := by
  unfold flush at h
  split at h
  · rename_i hempty
    cases h
    exact ⟨List.isEmpty_iff.mp hempty, [], [], l, divides_keep hg rfl⟩
  · split at h
    · rename_i hcomplete
      cases h
      refine ⟨rfl, [.rawChunk s.pending], [l], [], rfl, rfl, ?_, .nil, by simp⟩
      exact .cons ⟨hg, hcomplete⟩ .nil
    · cases h

/-- **A turn of the collector.** -/
theorem divides_step (hg : s.pending.Gathers size l)
    (h : s.step size chunkTargetSize input = .ok (s', outputs)) :
    ∃ outs ls l', Divides size s s' outputs (l ++ input.commands) outs ls l' := by
  cases input with
  | command command =>
    cases command with
    | restorePayload index message =>
      cases h
      exact ⟨[], [], _, divides_keep (hg.restore index message) rfl⟩
    | pushMessage init slot head index message commitment =>
      have hrecord := s.references.record_publishes slot index commitment message
      have hpush := hg.push init slot head index message commitment hrecord
      simp only [step] at h
      split at h
      · obtain ⟨-, outs, ls, l', hdiv⟩ := divides_flush hpush h
        exact ⟨outs, ls, l', hdiv.outputs, hdiv.nextSeq, hdiv.gathers, hdiv.pending, hdiv.flatten⟩
      · cases h
        exact ⟨[], [], _, divides_keep hpush rfl⟩
    | removeReplay slot upTo =>
      simp only [step] at h
      split at h
      · cases h
      · rename_i s₁ out hflush
        cases h
        obtain ⟨hempty, outs, ls, l', hdiv⟩ := divides_flush (s := { s with references := s.references.erase slot }) hg hflush
        have hdefault := hdiv.pending.eq_default hempty
        refine ⟨outs ++ [.trim slot upTo], ls ++ [l' ++ [.removeReplay slot upTo]], [], ?_, ?_, ?_, ?_,
          ?_⟩
        · rw [number_append, hdiv.outputs, hdiv.nextSeq]
          rfl
        · simp [hdiv.nextSeq, Nat.add_assoc]
        · refine List.rel_append hdiv.gathers (.cons ⟨l', ?_, rfl⟩ .nil)
          rw [← hdefault]
          exact hdiv.pending
        · show PendingChunk.Gathers size s₁.pending []
          rw [hdefault]
          exact .nil
        · simp [hdiv.flatten, CollectorInput.commands]
  | timeout =>
    rw [CollectorInput.commands, List.append_nil]
    simp only [step] at h
    split at h
    · obtain ⟨-, outs, ls, l', hdiv⟩ := divides_flush hg h
      exact ⟨outs, ls, l', hdiv⟩
    · cases h
      exact ⟨[], [], l, divides_keep hg rfl⟩
  | closed =>
    rw [CollectorInput.commands, List.append_nil]
    obtain ⟨-, outs, ls, l', hdiv⟩ := divides_flush hg h
    exact ⟨outs, ls, l', hdiv⟩

end Collector

/-! ### The journal indices of a chunk -/

/-- What a chunk covers of the journal, from `j` to `j'`. -/
structure PendingChunk.Covers (chunk : PendingChunk) (j j' : Journal) (l : List WriterCommand) :
    Prop where
  next : j.next + chunk.records.length = j'.next
  range : chunk.records ≠ [] → chunk.firstIndex = j.next ∧ chunk.lastIndex + 1 = j'.next
  heads : j'.heads =
    chunk.pendingSlots.foldl (fun heads p => heads.insert p.slot p.firstIndex) j.heads
  slots : ∀ p ∈ chunk.pendingSlots, j.next ≤ p.firstIndex ∧ p.firstIndex < j'.next
  records : ∀ k r, chunk.records[k]? = some r → ∃ init head message,
    .pushMessage init r.slot head (j.next + k) message r.commitment ∈ l
  pushes : ∀ init slot head index message commitment,
    .pushMessage init slot head index message commitment ∈ l → ∃ k r,
      chunk.records[k]? = some r ∧ index = j.next + k ∧ r.slot = slot ∧ r.commitment = commitment

theorem PendingChunk.Gathers.covers {size : ParsedMessage → ℕ} {maxSlots floor : ℕ} {j : Journal}
    {chunk : PendingChunk} {l : List WriterCommand} (hg : chunk.Gathers size l)
    (ha : j.AcceptsAll maxSlots floor l) : chunk.Covers j (j.after l) l := by
  induction hg with
  | nil =>
    exact ⟨rfl, fun h => absurd rfl h, rfl, fun p hp => by simp [PendingChunk.default] at hp,
      fun k r hr => by simp [PendingChunk.default] at hr, fun _ _ _ _ _ _ h => by cases h⟩
  | restore index message hg ih =>
    have hl := ih (Journal.acceptsAll_append.mp ha).1
    rw [Journal.after_append]
    refine ⟨hl.next, hl.range, hl.heads, hl.slots, fun k r hr => ?_, ?_⟩
    · obtain ⟨init, head, message, hmem⟩ := hl.records k r hr
      exact ⟨init, head, message, List.mem_append_left _ hmem⟩
    · intro init slot head index' message' commitment hmem
      rcases List.mem_append.mp hmem with hmem | hmem
      · exact hl.pushes init slot head index' message' commitment hmem
      · cases List.mem_singleton.mp hmem
  | @push chunk l record init slot head index message commitment hg hrecord ih =>
    obtain ⟨ha, ⟨hindex, hinit, -⟩, -⟩ := Journal.acceptsAll_append.mp ha
    have hl := ih ha
    have hnext : (j.after (l ++ [.pushMessage init slot head index message commitment])).next =
        index + 1 := by
      rw [Journal.after_append]
      rfl
    have hlen := hl.next
    refine ⟨?_, fun _ => ⟨?_, hnext.symm⟩, ?_, ?_, ?_, ?_⟩
    · rw [hnext, hindex, ← hlen]
      simp [PendingChunk.push, Nat.add_assoc]
    · unfold PendingChunk.push
      dsimp only
      split
      · rename_i hempty
        rw [List.isEmpty_iff.mp hempty] at hlen
        rw [hindex, ← hlen]
        rfl
      · rename_i hempty
        exact (hl.range fun h => hempty (List.isEmpty_iff.mpr h)).1
    · rw [Journal.after_append]
      show (if init then (j.after l).heads.insert slot head else (j.after l).heads) = _
      rw [hl.heads]
      cases init <;> simp [PendingChunk.push]
    · intro p hp
      rw [hnext]
      rcases List.mem_append.mp hp with hp | hp
      · obtain ⟨hle, hlt⟩ := hl.slots p hp
        rw [← hindex] at hlt
        exact ⟨hle, hlt.trans (Nat.lt_succ_self _)⟩
      · cases init with
        | false => simp at hp
        | true =>
          obtain rfl : p = ⟨slot, head⟩ := by simpa using hp
          rw [show head = index from (hinit rfl).1]
          exact ⟨by rw [hindex, ← hlen]; exact Nat.le_add_right _ _, Nat.lt_succ_self _⟩
    · intro k r hr
      change (chunk.records ++ [record])[k]? = some r at hr
      rw [List.getElem?_append] at hr
      split at hr
      · obtain ⟨init, head, message, hmem⟩ := hl.records k r hr
        exact ⟨init, head, message, List.mem_append_left _ hmem⟩
      · rename_i hk
        obtain ⟨hlt, rfl⟩ := List.getElem?_eq_some_iff.mp hr
        have hzero : k - chunk.records.length = 0 := by simpa using hlt
        have hk : j.next + k = index := by omega
        refine ⟨init, head, message, List.mem_append_right _ ?_⟩
        simp only [hk, hzero, List.getElem_cons_zero, hrecord.slot_eq, hrecord.commitment_eq]
        exact List.mem_singleton.mpr rfl
    · intro init' slot' head' index' message' commitment' hmem
      rcases List.mem_append.mp hmem with hmem | hmem
      · obtain ⟨k, r, hr, hrest⟩ := hl.pushes _ _ _ _ _ _ hmem
        exact ⟨k, r, InOrder.getElem?_snoc hr, hrest⟩
      · cases List.mem_singleton.mp hmem
        exact ⟨chunk.records.length, record, by simp [PendingChunk.push], hindex.trans hlen.symm,
          hrecord.slot_eq, hrecord.commitment_eq⟩

end Richat
