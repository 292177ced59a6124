import Richat.Storage.Start

/-!
# The pipeline of a node

`NodeView` follows the commands of a process from the sender to the disk: what was sent is what the
outputs of the collector were made of, then what it still gathers, then the queue; the outputs that the
writer has committed are the first ones, in the order of the collector; and the disk has the journal up
to them. `nodeView_run` is its induction over the runs of a node, over any number of processes.
-/

namespace Richat

open Lib

/-! ### The events of a process -/

namespace NodeEvent

def command? : NodeEvent → Option WriterCommand
  | sent command => some command
  | _ => none

def collected? : NodeEvent → Option (ℕ × CollectorOutput)
  | collected seq output => some (seq, output)
  | _ => none

def committed? : NodeEvent → Option (ℕ × CollectorOutput)
  | committed seq output => some (seq, output)
  | _ => none

def started? : NodeEvent → Option ℕ
  | started index => some index
  | _ => none

end NodeEvent

/-- The commands sent to the journal. -/
def sentCommands (events : List NodeEvent) : List WriterCommand := events.filterMap (·.command?)

/-- The numbered outputs of the collector. -/
def collectedOutputs (events : List NodeEvent) : List (ℕ × CollectorOutput) :=
  events.filterMap (·.collected?)

/-- The commits of the segment writer. -/
def committedOutputs (events : List NodeEvent) : List (ℕ × CollectorOutput) :=
  events.filterMap (·.committed?)

/-- The events of the last process. -/
def sinceStart (events : List NodeEvent) : List NodeEvent :=
  events.rtakeWhile (·.started?.isNone)

/-- Where the journal of the last process begins. -/
def startIndex (events : List NodeEvent) : ℕ := (events.filterMap (·.started?)).getLast?.getD 0

section Events

variable {events out : List NodeEvent}

@[simp] theorem sentCommands_append :
    sentCommands (events ++ out) = sentCommands events ++ sentCommands out :=
  List.filterMap_append

@[simp] theorem collectedOutputs_append :
    collectedOutputs (events ++ out) = collectedOutputs events ++ collectedOutputs out :=
  List.filterMap_append

@[simp] theorem committedOutputs_append :
    committedOutputs (events ++ out) = committedOutputs events ++ committedOutputs out :=
  List.filterMap_append

/-- Events that go on with the process. -/
def Continues (out : List NodeEvent) : Prop := ∀ e ∈ out, e.started? = none

theorem sinceStart_append (h : Continues out) :
    sinceStart (events ++ out) = sinceStart events ++ out := by
  unfold sinceStart
  induction out using List.reverseRecOn with
  | nil => simp
  | append_singleton out e ih =>
    have he : e.started? = none := h e (List.mem_append_right _ (List.mem_singleton.mpr rfl))
    rw [← List.append_assoc, List.rtakeWhile_concat_pos _ _ _ (by rw [he]; rfl),
      ih fun e he => h e (List.mem_append_left _ he), List.append_assoc]

theorem startIndex_append (h : Continues out) : startIndex (events ++ out) = startIndex events := by
  unfold startIndex
  rw [List.filterMap_append, List.filterMap_eq_nil_iff.mpr h, List.append_nil]

theorem sinceStart_started (index : ℕ) : sinceStart (events ++ [.started index]) = [] :=
  List.rtakeWhile_concat_neg _ _ _ (by simp [NodeEvent.started?])

theorem startIndex_started (index : ℕ) : startIndex (events ++ [.started index]) = index := by
  simp [startIndex, NodeEvent.started?]

end Events

/-! ### The invariant -/

/-- The pipeline of a node: `outs` are the outputs of the collector, `ls` the commands of each, and `l`
those that are gathered. The journal of the process began as `j₀`. -/
structure NodeView (cfg : ConfigNode) (s : Node) (events : List NodeEvent) (j₀ : Journal)
    (outs : List CollectorOutput) (ls : List (List WriterCommand)) (l : List WriterCommand) :
    Prop where
  order : InOrder outs s.compressing s.writer.pending s.writer.nextSeq
  nextSeq : s.collector.nextSeq = outs.length
  collected : collectedOutputs (sinceStart events) = number 0 outs
  committed : committedOutputs (sinceStart events) = number 0 (outs.take s.writer.nextSeq)
  gathers : List.Forall₂ (·.Gathers cfg.size) outs ls
  pending : s.collector.pending.Gathers cfg.size l
  sent : sentCommands (sinceStart events) = ls.flatten ++ l ++ s.queue
  start : j₀.next = startIndex events
  accepts : j₀.AcceptsAll cfg.channel.storageMaxSlots s.disk.catalog.replayFloor
    (sentCommands (sinceStart events))
  sender : SenderView cfg.channel s.disk.catalog.replayFloor
    (j₀.after (sentCommands (sinceStart events))) s.sender
  catalog : CatalogView (j₀.after (ls.take s.writer.nextSeq).flatten) s.writer s.disk
  ever : ∀ seq chunk, .committed seq (.rawChunk chunk) ∈ events → ∀ i r,
    chunk.record? i = some r → s.disk.record i = some r

section Steps

variable {cfg : ConfigNode} {s s' : Node} {events out : List NodeEvent} {j₀ : Journal}
  {outs : List CollectorOutput} {ls : List (List WriterCommand)} {l : List WriterCommand}

theorem nodeView_new (cfg : ConfigNode) (hasher : RandomState) :
    NodeView cfg (Node.new cfg hasher) [] ⟨0, .empty⟩ [] [] [] where
  order := .nil
  nextSeq := rfl
  collected := rfl
  committed := rfl
  gathers := .nil
  pending := .nil
  sent := rfl
  start := rfl
  accepts := trivial
  sender := by
    refine ⟨rfl, le_rfl, ?_, ?_, ?_⟩
    · intro t h hget
      cases hget
    · intro t h
      constructor
      · rintro ⟨info, hget, -⟩
        cases hget
      · rintro ⟨hget, -⟩
        cases hget
    · intro t info hget
      cases hget
  catalog := by
    refine ⟨.nil, ?_, ?_, ?_, ?_, ?_, ?_, ?_, ⟨rfl, rfl, one_ne_zero⟩, ?_⟩
    · intro chunk hchunk
      cases hchunk
    · intro i r hr
      cases hr
    · intro t h hget
      cases hget
    · intro t h _
      constructor
      · intro hget
        cases hget
      · intro hget
        cases hget
    · intro t m hget
      cases hget
    · intro chunk hchunk
      cases hchunk
    · intro k segment hget
      change (SortedMap.empty.insert 1 (SegmentMeta.empty 1 0)).get? k = some segment at hget
      rw [SortedMap.get?_insert] at hget
      split at hget
      · rename_i heq
        obtain rfl := Option.some.inj hget
        exact ⟨heq.symm, heq ▸ one_lt_two, Or.inl rfl⟩
      · cases hget
    · intro i r hr
      cases hr
  ever := by
    intro seq chunk h
    cases h

/-- What the effects of a push leave in the events. -/
theorem run_perform {effects : List Effect} : ∀ {streams streams' : CommitmentLevel → SenderShared}
    {out : List NodeEvent}, run (Node.perform cfg) streams effects = .ok (streams', out) →
    sentCommands out = commands effects ∧ collectedOutputs out = [] ∧ committedOutputs out = [] ∧
      Continues out := by
  induction effects with
  | nil =>
    intro streams streams' out h
    simp only [run_nil, Except.ok.injEq, Prod.mk.injEq] at h
    obtain ⟨-, rfl⟩ := h
    exact ⟨rfl, rfl, rfl, fun e he => by cases he⟩
  | cons effect effects ih =>
    intro streams streams' out h
    obtain ⟨streams₁, out₁, out₂, h₁, h₂, rfl⟩ := run_cons_ok.mp h
    obtain ⟨hsent, hcollected, hcommitted, hcont⟩ := ih h₂
    have hfirst : sentCommands out₁ = (effect.command?).toList ∧ collectedOutputs out₁ = [] ∧
        committedOutputs out₁ = [] ∧ Continues out₁ := by
      cases effect with
      | received sourceName message =>
        cases h₁
        exact ⟨rfl, rfl, rfl, fun e he => by cases he⟩
      | replayFromSlot slot =>
        cases h₁
        exact ⟨rfl, rfl, rfl, fun e he => by cases he⟩
      | writer command =>
        cases h₁
        exact ⟨rfl, rfl, rfl, fun e he => by rw [List.mem_singleton.mp he]; rfl⟩
      | ring commitment slot message replayIndex =>
        simp only [Node.perform] at h₁
        split at h₁
        · cases h₁
        · cases h₁
          exact ⟨rfl, rfl, rfl, fun e he => by rw [List.mem_singleton.mp he]; rfl⟩
    obtain ⟨hsent₁, hcollected₁, hcommitted₁, hcont₁⟩ := hfirst
    refine ⟨?_, by simp [hcollected, hcollected₁], by simp [hcommitted, hcommitted₁], ?_⟩
    · rw [sentCommands_append, hsent, hsent₁, commands, commands]
      cases hc : effect.command? <;> simp [hc]
    · intro e he
      rcases List.mem_append.mp he with he | he
      · exact hcont₁ e he
      · exact hcont e he

/-- The random state plays no part in the map. -/
theorem senderView_config (hasher : RandomState) {floor : ℕ} {j : Journal} {s : Sender} :
    SenderView (Node.config cfg hasher) floor j s ↔ SenderView cfg.channel floor j s :=
  ⟨fun h => ⟨h.next, h.floor_le, h.heads_lt, h.replay, h.slots⟩,
    fun h => ⟨h.next, h.floor_le, h.heads_lt, h.replay, h.slots⟩⟩

/-- A source event. -/
theorem NodeView.push (hstorage : cfg.channel.storage.isSome)
    (h : NodeView cfg s events j₀ outs ls l) {input : PushInput} {sender : Sender}
    {effects : List Effect} {streams : CommitmentLevel → SenderShared}
    (hpush : s.sender.push (Node.config cfg s.hasher) input = .ok (sender, effects))
    (hrun : run (Node.perform cfg) s.streams effects = .ok (streams, out)) :
    NodeView cfg { s with sender, streams, queue := s.queue ++ commands effects } (events ++ out)
      j₀ outs ls l := by
  obtain ⟨hsent, hcollected, hcommitted, hcont⟩ := run_perform hrun
  have hview := (senderView_config s.hasher).mpr h.sender
  have hp := hview.push (show (Node.config cfg s.hasher).storage.isSome from hstorage) hpush
  have hown : sentCommands (sinceStart (events ++ out)) =
      sentCommands (sinceStart events) ++ commands effects := by
    rw [sinceStart_append hcont, sentCommands_append, hsent]
  refine ⟨h.order, h.nextSeq, ?_, ?_, h.gathers, h.pending, ?_, ?_, ?_, ?_, h.catalog, ?_⟩
  · rw [sinceStart_append hcont, collectedOutputs_append, hcollected, List.append_nil, h.collected]
  · rw [sinceStart_append hcont, committedOutputs_append, hcommitted, List.append_nil, h.committed]
  · rw [hown, h.sent, List.append_assoc]
  · rw [startIndex_append hcont, h.start]
  · rw [hown]
    exact Journal.acceptsAll_append.mpr ⟨h.accepts, hp.accepts⟩
  · rw [hown, Journal.after_append]
    exact (senderView_config s.hasher).mp hp.view
  · intro seq chunk hmem
    rcases List.mem_append.mp hmem with hmem | hmem
    · exact h.ever seq chunk hmem
    · have : (seq, CollectorOutput.rawChunk chunk) ∈ committedOutputs out :=
        List.mem_filterMap.mpr ⟨_, hmem, rfl⟩
      rw [hcommitted] at this
      cases this

/-- A live epoch. -/
theorem NodeView.beginLiveEpoch (h : NodeView cfg s events j₀ outs ls l)
    (streams : CommitmentLevel → SenderShared) :
    NodeView cfg { s with
        disk := { s.disk with catalog := s.disk.catalog.setReplayFloor s.sender.index }
        sender := s.sender.beginLiveEpoch
        streams } (events ++ [.epoch]) j₀ outs ls l := by
  have hcont : Continues [NodeEvent.epoch] := fun e he => by rw [List.mem_singleton.mp he]; rfl
  have hown : sinceStart (events ++ [.epoch]) = sinceStart events ++ [.epoch] :=
    sinceStart_append hcont
  have hfloor := h.sender.floor_le
  have hnext := h.sender.next
  have hsent : sentCommands (sinceStart (events ++ [.epoch])) = sentCommands (sinceStart events) := by
    rw [hown, sentCommands_append]
    exact List.append_nil _
  refine ⟨h.order, h.nextSeq, ?_, ?_, h.gathers, h.pending, ?_, ?_, ?_, ?_,
    h.catalog.setReplayFloor hfloor, ?_⟩
  · rw [hown, collectedOutputs_append, h.collected]
    exact List.append_nil _
  · rw [hown, committedOutputs_append, h.committed]
    exact List.append_nil _
  · rw [hsent, h.sent]
  · rw [startIndex_append hcont, h.start]
  · rw [hsent]
    exact h.accepts.mono hfloor hnext.le
  · rw [hsent]
    refine ⟨hnext, le_rfl, h.sender.heads_lt, fun t n => ?_, fun t info hget => by cases hget⟩
    constructor
    · rintro ⟨info, hget, -⟩
      cases hget
    · rintro ⟨hget, hle⟩
      exact absurd (h.sender.heads_lt t n hget) (not_lt.mpr (hnext.le.trans hle))
  · intro seq chunk hmem
    rcases List.mem_append.mp hmem with hmem | hmem
    · exact h.ever seq chunk hmem
    · cases List.mem_singleton.mp hmem

/-- A turn of the collector. -/
theorem NodeView.collected_step (h : NodeView cfg s events j₀ outs ls l) (input : CollectorInput)
    {queue : List WriterCommand} (hqueue : s.queue = input.commands ++ queue)
    (hstep : s.collected input queue cfg = .ok (s', out)) :
    ∃ new lsnew l', NodeView cfg s' (events ++ out) j₀ (outs ++ new) (ls ++ lsnew) l' := by
  unfold Node.collected at hstep
  split at hstep
  · cases hstep
  · rename_i collector outputs hcollector
    cases hstep
    obtain ⟨new, lsnew, l', hdiv⟩ := Collector.divides_step h.pending hcollector
    have houtputs : outputs = number outs.length new := by rw [hdiv.outputs, h.nextSeq]
    let out : List NodeEvent := outputs.map fun output => .collected output.1 output.2
    have hcont : Continues out := by
      intro e he
      obtain ⟨output, -, rfl⟩ := List.mem_map.mp he
      rfl
    have hcollected : collectedOutputs out = outputs := by
      unfold collectedOutputs
      rw [List.filterMap_map]
      exact List.filterMap_some
    have hnone : ∀ {β : Type} (f : NodeEvent → Option β),
        (∀ seq output, f (.collected seq output) = none) → out.filterMap f = [] := by
      intro β f hf
      refine List.filterMap_eq_nil_iff.mpr fun e he => ?_
      obtain ⟨output, -, rfl⟩ := List.mem_map.mp he
      exact hf _ _
    have hsent : sentCommands (sinceStart (events ++ out)) = sentCommands (sinceStart events) := by
      rw [sinceStart_append hcont, sentCommands_append, sentCommands, sentCommands,
        hnone _ fun _ _ => rfl, List.append_nil]
    have hlen := h.gathers.length_eq
    have hle := h.order.le
    refine ⟨new, lsnew, l', ?_, ?_, ?_, ?_, List.rel_append h.gathers hdiv.gathers,
      hdiv.pending, ?_, ?_, ?_, ?_, ?_, ?_⟩
    · show InOrder _ (s.compressing ++ outputs) _ _
      rw [houtputs]
      exact h.order.produceAll
    · rw [List.length_append, ← h.nextSeq]
      exact hdiv.nextSeq
    · rw [sinceStart_append hcont, collectedOutputs_append, h.collected, hcollected, houtputs,
        number_append, Nat.zero_add]
    · rw [sinceStart_append hcont, committedOutputs_append, h.committed, committedOutputs,
        hnone _ fun _ _ => rfl, List.append_nil, List.take_append_of_le_length hle]
    · rw [hsent, h.sent, hqueue, List.flatten_append]
      simp only [List.append_assoc]
      rw [← List.append_assoc l, hdiv.flatten, List.append_assoc]
    · rw [startIndex_append hcont, h.start]
    · rw [hsent]
      exact h.accepts
    · rw [hsent]
      exact h.sender
    · rw [List.take_append_of_le_length (hle.trans hlen.le)]
      exact h.catalog
    · intro seq chunk hmem
      rcases List.mem_append.mp hmem with hmem | hmem
      · exact h.ever seq chunk hmem
      · obtain ⟨output, -, heq⟩ := List.mem_map.mp hmem
        cases heq

/-- An output on its way is one of those that were not taken. -/
theorem NodeView.compressed (h : NodeView cfg s events j₀ outs ls l) {i : ℕ}
    {output : ℕ × CollectorOutput} (hget : s.compressing[i]? = some output) :
    NodeView cfg { s with
        compressing := s.compressing.eraseIdx i
        writer := { s.writer with pending := s.writer.pending.insert output.1 output.2 } }
      events j₀ outs ls l where
  order := h.order.arrive hget
  nextSeq := h.nextSeq
  collected := h.collected
  committed := h.committed
  gathers := h.gathers
  pending := h.pending
  sent := h.sent
  start := h.start
  accepts := h.accepts
  sender := h.sender
  catalog :=
    let hc := h.catalog
    ⟨hc.sorted, hc.range, hc.written, hc.heads, hc.slots, hc.rows, hc.chunkSegment, hc.segments,
      hc.active, hc.retained⟩
  ever := h.ever

/-- The segment writer starts the next segment. -/
theorem NodeView.rotate (h : NodeView cfg s events j₀ outs ls l) :
    NodeView cfg { s with
        writer := (s.writer.rotateSegment s.disk).1
        disk := (s.writer.rotateSegment s.disk).2 } events j₀ outs ls l where
  order := h.order
  nextSeq := h.nextSeq
  collected := h.collected
  committed := h.committed
  gathers := h.gathers
  pending := h.pending
  sent := h.sent
  start := h.start
  accepts := h.accepts
  sender := h.sender
  catalog := h.catalog.rotateSegment
  ever := h.ever

/-- The commands of an empty chunk change nothing. -/
theorem after_gathers_default {size : ParsedMessage → ℕ} {maxSlots floor : ℕ} {j : Journal}
    (hg : PendingChunk.Gathers size .default l) (ha : j.AcceptsAll maxSlots floor l) :
    j.after l = j := by
  have hcov := hg.covers ha
  have hnext : (j.after l).next = j.next := hcov.next.symm
  have hheads : (j.after l).heads = j.heads := hcov.heads
  cases hj : j.after l
  rw [hj] at hnext hheads
  cases j
  simp only at hnext hheads
  rw [hnext, hheads]

/-- **A commit of the writer.** The output has the commands `l'`. -/
theorem CatalogView.handle {j : Journal} {w : SegmentWriter} {disk : Disk}
    {output : CollectorOutput} {l' : List WriterCommand} {maxSlots : ℕ} (h : CatalogView j w disk)
    (hg : output.Gathers cfg.size l')
    (ha : j.AcceptsAll maxSlots disk.catalog.replayFloor l') :
    CatalogView (j.after l') (w.handle cfg disk output).1 (w.handle cfg disk output).2 := by
  cases output with
  | rawChunk chunk =>
    obtain ⟨hg, hcomplete⟩ := hg
    refine h.appendChunk (hg.covers ha) fun hempty => ?_
    rw [PendingChunk.isComplete, hempty] at hcomplete
    cases hcomplete
  | trim slot upTo =>
    obtain ⟨l', hg, rfl⟩ := hg
    obtain ⟨hinit, ⟨n, rfl, htrim⟩, -⟩ := Journal.acceptsAll_append.mp ha
    rw [Journal.after_append]
    rw [after_gathers_default hg hinit] at htrim ⊢
    exact h.handleTrim htrim

/-- The records that were on the disk, and those of the chunk. -/
theorem CatalogView.record_handle {j : Journal} {w : SegmentWriter} {disk : Disk}
    {output : CollectorOutput} {l' : List WriterCommand} {maxSlots : ℕ} (h : CatalogView j w disk)
    (hg : output.Gathers cfg.size l')
    (ha : j.AcceptsAll maxSlots disk.catalog.replayFloor l') {i : ℕ} {r : RawRecord} :
    (w.handle cfg disk output).2.record i = some r ↔
      disk.record i = some r ∨ ∃ chunk, output = .rawChunk chunk ∧ chunk.record? i = some r := by
  cases output with
  | trim slot upTo => simp [SegmentWriter.handle, SegmentWriter.handleTrim]
  | rawChunk chunk =>
    obtain ⟨hg, hcomplete⟩ := hg
    have hcov := hg.covers ha
    have hne : chunk.records ≠ [] := by
      intro hempty
      rw [PendingChunk.isComplete, hempty] at hcomplete
      cases hcomplete
    show (chunk.record? i).or (disk.record i) = some r ↔ _
    rw [Option.or_eq_some_iff]
    constructor
    · rintro (hr | ⟨-, hr⟩)
      · exact Or.inr ⟨chunk, rfl, hr⟩
      · exact Or.inl hr
    · rintro (hr | ⟨chunk', heq, hr⟩)
      · -- the indices of the chunk are new
        have hlt := h.lt_next (h.written i r hr)
        rw [← (hcov.range hne).1] at hlt
        exact Or.inr ⟨PendingChunk.record?_of_lt hlt, hr⟩
      · cases heq
        exact Or.inl hr

theorem handle_writer (cfg : ConfigNode) (w : SegmentWriter) (disk : Disk)
    (output : CollectorOutput) :
    (w.handle cfg disk output).1.nextSeq = w.nextSeq ∧
      (w.handle cfg disk output).1.pending = w.pending ∧
      (w.handle cfg disk output).2.catalog.replayFloor = disk.catalog.replayFloor := by
  cases output <;> exact ⟨rfl, rfl, rfl⟩

/-- The disk is behind the sender. -/
theorem NodeView.ahead (h : NodeView cfg s events j₀ outs ls l) :
    ∃ rest, sentCommands (sinceStart events) = (ls.take s.writer.nextSeq).flatten ++ rest ∧
      (j₀.after (ls.take s.writer.nextSeq).flatten).AcceptsAll cfg.channel.storageMaxSlots
        s.disk.catalog.replayFloor rest := by
  have hsent := h.sent
  have ha := h.accepts
  rw [← List.take_append_drop s.writer.nextSeq ls, List.flatten_append] at hsent
  simp only [List.append_assoc] at hsent
  rw [hsent] at ha
  exact ⟨_, hsent, (Journal.acceptsAll_append.mp ha).2⟩

/-- The next output of the writer has the next commands. -/
theorem NodeView.next_output (h : NodeView cfg s events j₀ outs ls l) {output : CollectorOutput}
    (hget : s.writer.pending.get? s.writer.nextSeq = some output) :
    ∃ l', output.Gathers cfg.size l' ∧ outs[s.writer.nextSeq]? = some output ∧
      (ls.take (s.writer.nextSeq + 1)).flatten = (ls.take s.writer.nextSeq).flatten ++ l' ∧
      (j₀.after (ls.take s.writer.nextSeq).flatten).AcceptsAll cfg.channel.storageMaxSlots
        s.disk.catalog.replayFloor l' ∧
      ∀ command ∈ l', command ∈ sentCommands (sinceStart events) := by
  obtain ⟨houtput, -⟩ := h.order.take hget
  obtain ⟨hlt, heq⟩ := List.getElem?_eq_some_iff.mp houtput
  have hlt' : s.writer.nextSeq < ls.length := h.gathers.length_eq ▸ hlt
  have hg : output.Gathers cfg.size ls[s.writer.nextSeq] := by
    have := h.gathers.get hlt hlt'
    simp only [List.get_eq_getElem, heq] at this
    exact this
  have htake : (ls.take (s.writer.nextSeq + 1)).flatten =
      (ls.take s.writer.nextSeq).flatten ++ ls[s.writer.nextSeq] := by
    rw [List.take_succ_eq_append_getElem hlt', List.flatten_append, List.flatten_singleton]
  have hsent := h.sent
  rw [← List.take_append_drop (s.writer.nextSeq + 1) ls, List.flatten_append, htake] at hsent
  simp only [List.append_assoc] at hsent
  have ha := h.accepts
  rw [hsent] at ha
  refine ⟨_, hg, houtput, htake,
    (Journal.acceptsAll_append.mp (Journal.acceptsAll_append.mp ha).2).1, fun command hmem => ?_⟩
  rw [hsent]
  exact List.mem_append_right _ (List.mem_append_left _ hmem)

/-- The segment writer takes the next output. -/
theorem NodeView.write (h : NodeView cfg s events j₀ outs ls l) {output : CollectorOutput}
    (hget : s.writer.pending.get? s.writer.nextSeq = some output) :
    NodeView cfg { s with
        writer := { (s.writer.handle cfg s.disk output).1 with
          pending := (s.writer.handle cfg s.disk output).1.pending.erase s.writer.nextSeq
          nextSeq := s.writer.nextSeq + 1 }
        disk := (s.writer.handle cfg s.disk output).2 }
      (events ++ [.committed s.writer.nextSeq output]) j₀ outs ls l := by
  obtain ⟨-, horder⟩ := h.order.take hget
  obtain ⟨l', hg, houtput, htake, ha, -⟩ := h.next_output hget
  obtain ⟨hseq, hpending, hfloor⟩ :=
    handle_writer cfg s.writer s.disk output
  have hcont : Continues [NodeEvent.committed s.writer.nextSeq output] := by
    intro e he
    rw [List.mem_singleton.mp he]
    rfl
  have hsent : sentCommands (sinceStart (events ++ [.committed s.writer.nextSeq output])) =
      sentCommands (sinceStart events) := by
    rw [sinceStart_append hcont, sentCommands_append]
    exact List.append_nil _
  obtain ⟨hlt, heq⟩ := List.getElem?_eq_some_iff.mp houtput
  refine ⟨?_, h.nextSeq, ?_, ?_, h.gathers, h.pending, ?_, ?_, ?_, ?_, ?_, ?_⟩
  · rw [hpending]
    exact horder
  · rw [sinceStart_append hcont, collectedOutputs_append, h.collected]
    exact List.append_nil _
  · rw [sinceStart_append hcont, committedOutputs_append, h.committed,
      List.take_succ_eq_append_getElem hlt, heq, number_append, List.length_take,
      Nat.min_eq_left hlt.le, Nat.zero_add]
    rfl
  · rw [hsent, h.sent]
  · rw [startIndex_append hcont, h.start]
  · rw [hsent, hfloor]
    exact h.accepts
  · rw [hsent, hfloor]
    exact h.sender
  · rw [htake, Journal.after_append]
    have hc := h.catalog.handle hg ha
    exact ⟨hc.sorted, hc.range, hc.written, hc.heads, hc.slots, hc.rows, hc.chunkSegment,
      hc.segments, hc.active, hc.retained⟩
  · intro seq chunk hmem i r hr
    refine (h.catalog.record_handle hg ha).mpr ?_
    rcases List.mem_append.mp hmem with hmem | hmem
    · exact Or.inl (h.ever seq chunk hmem i r hr)
    · cases List.mem_singleton.mp hmem
      exact Or.inr ⟨chunk, rfl, hr⟩

/-- A crash, and the start of the next process. -/
theorem NodeView.restart (hstorage : cfg.channel.storage.isSome)
    (h : NodeView cfg s events j₀ outs ls l) {hasher : RandomState} {nextArc : ℕ}
    (hstart : Node.start cfg hasher s.disk nextArc = .ok s') :
    s'.disk = s.disk ∧ Loaded s.disk s'.sender ∧
    NodeView cfg s' (events ++ [.started s'.sender.index])
      ⟨s.disk.catalog.nextIndex, (j₀.after (ls.take s.writer.nextSeq).flatten).heads⟩ [] [] [] := by
  obtain ⟨catalog, writer, sender, hopen, hsender, rfl⟩ := Node.start_eq_ok hstart
  obtain ⟨rfl, rfl, hcatalog⟩ := h.catalog.opened hopen
  have hloaded := loaded_toSender hstorage (fun t m hm => (h.catalog.rows t m hm).1) hsender
  refine ⟨rfl, hloaded, .nil, rfl, ?_, ?_, .nil, .nil, ?_, ?_, ?_, ?_, hcatalog, ?_⟩
  · rw [sinceStart_started]
    rfl
  · rw [sinceStart_started]
    rfl
  · rw [sinceStart_started]
    rfl
  · rw [startIndex_started]
    exact hloaded.index.symm
  · rw [sinceStart_started]
    trivial
  · rw [sinceStart_started]
    exact h.catalog.senderView hloaded
  · intro seq chunk hmem
    rcases List.mem_append.mp hmem with hmem | hmem
    · exact h.ever seq chunk hmem
    · cases List.mem_singleton.mp hmem

/-- **A step of a node.** -/
theorem nodeView_step (hstorage : cfg.channel.storage.isSome) {action : NodeAction}
    (h : NodeView cfg s events j₀ outs ls l) (hstep : Node.step cfg s action = .ok (s', out)) :
    ∃ j₀ outs ls l, NodeView cfg s' (events ++ out) j₀ outs ls l := by
  cases action with
  | push input =>
    simp only [Node.step] at hstep
    split at hstep
    · cases hstep
    · split at hstep
      · cases hstep
      · rename_i sender effects hpush
        split at hstep
        · cases hstep
        · rename_i streams out hrun
          cases hstep
          exact ⟨j₀, outs, ls, l, h.push hstorage hpush hrun⟩
  | beginLiveEpoch =>
    simp only [Node.step, if_pos hstorage] at hstep
    split at hstep
    · cases hstep
    · cases hstep
      exact ⟨j₀, outs, ls, l, h.beginLiveEpoch _⟩
  | close =>
    cases hstep
    rw [List.append_nil]
    exact ⟨j₀, outs, ls, l, h.order, h.nextSeq, h.collected, h.committed, h.gathers, h.pending, h.sent,
      h.start, h.accepts, h.sender, h.catalog, h.ever⟩
  | collect =>
    simp only [Node.step] at hstep
    split at hstep
    · rename_i command queue hqueue
      obtain ⟨new, lsnew, l', hview⟩ := h.collected_step (.command command) hqueue hstep
      exact ⟨j₀, _, _, l', hview⟩
    · rename_i hqueue
      split at hstep
      · obtain ⟨new, lsnew, l', hview⟩ := h.collected_step .closed hqueue hstep
        exact ⟨j₀, _, _, l', hview⟩
      · cases hstep
  | timeout =>
    obtain ⟨new, lsnew, l', hview⟩ := h.collected_step .timeout rfl hstep
    exact ⟨j₀, _, _, l', hview⟩
  | compressed i =>
    simp only [Node.step] at hstep
    split at hstep
    · cases hstep
    · rename_i output hget
      cases hstep
      rw [List.append_nil]
      exact ⟨j₀, outs, ls, l, h.compressed hget⟩
  | write =>
    simp only [Node.step] at hstep
    split at hstep
    · cases hstep
      rw [List.append_nil]
      exact ⟨j₀, outs, ls, l, h.rotate⟩
    · split at hstep
      · cases hstep
      · rename_i output hget
        cases hstep
        exact ⟨j₀, outs, ls, l, h.write hget⟩
  | restart hasher =>
    simp only [Node.step] at hstep
    split at hstep
    · cases hstep
    · rename_i s₁ hstart
      cases hstep
      exact ⟨_, [], [], [], (h.restart hstorage hstart).2.2⟩

/-- **Every run of a node.** -/
theorem nodeView_run (hstorage : cfg.channel.storage.isSome) {hasher : RandomState}
    {actions : List NodeAction}
    (h : run (Node.step cfg) (Node.new cfg hasher) actions = .ok (s, events)) :
    ∃ j₀ outs ls l, NodeView cfg s events j₀ outs ls l := by
  refine run_induction (P := fun _ s events => ∃ j₀ outs ls l, NodeView cfg s events j₀ outs ls l)
    ⟨_, _, _, _, nodeView_new cfg hasher⟩ ?_ h
  rintro actions s events action s' out - ⟨j₀, outs, ls, l, hview⟩ hstep
  exact nodeView_step hstorage hview hstep

end Steps

end Richat
