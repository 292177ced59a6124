import Richat.Storage.NodeView

/-!
# The order of the journal

`journal_order`: whatever the compressor threads and the timeouts do, the segment writer commits in the
order of the collector, the chunks divide the indices sent since the process started, and a source event
is never cut. No index is used again by a later process.
-/

namespace Richat

open Lib

/-- The index and the commitment of a record. -/
def WriterCommand.record? : WriterCommand → Option (ℕ × CommitmentLevel)
  | .pushMessage _ _ _ index _ commitment => some (index, commitment)
  | _ => none

/-- The records sent to the journal. -/
def sentRecords (commands : List WriterCommand) : List (ℕ × CommitmentLevel) :=
  commands.filterMap (·.record?)

/-- Two records of one source event: the first is not after the second, and the event is not closed by a
processed record between them. -/
def SameEvent (records : List (ℕ × CommitmentLevel)) (i k : ℕ) : Prop :=
  i ≤ k ∧ ∀ r ∈ records, i ≤ r.1 → r.1 < k → r.2 ≠ .processed

def CollectorOutput.chunk? : CollectorOutput → Option PendingChunk
  | .rawChunk chunk => some chunk
  | .trim .. => none

/-- The chunks of some outputs. -/
def chunksOf (outs : List CollectorOutput) : List PendingChunk := outs.filterMap (·.chunk?)

/-- The chunks of commits. -/
def committedChunks (commits : List (ℕ × CollectorOutput)) : List PendingChunk :=
  chunksOf (commits.map Prod.snd)

/-- The journal indices of a chunk. -/
def PendingChunk.indices (chunk : PendingChunk) : List ℕ :=
  List.range' chunk.firstIndex chunk.records.length

section Sent

variable {maxSlots floor : ℕ} {size : ParsedMessage → ℕ} {j : Journal}
  {l l' : List WriterCommand} {outs : List CollectorOutput} {ls : List (List WriterCommand)}
  {chunk : PendingChunk}

@[simp] theorem sentRecords_append :
    sentRecords (l ++ l') = sentRecords l ++ sentRecords l' := List.filterMap_append

/-- The records are sent in the order of their indices, without a hole. -/
theorem indices_sentRecords : ∀ {j : Journal} {l : List WriterCommand},
    j.AcceptsAll maxSlots floor l →
    (sentRecords l).map Prod.fst = List.range' j.next ((j.after l).next - j.next)
  | j, [], _ => by simp [sentRecords]
  | j, command :: l, h => by
    have ih := indices_sentRecords h.2
    have hle := h.2.le
    cases command with
    | pushMessage init slot head index message commitment =>
      obtain ⟨⟨rfl, -⟩, -⟩ := h
      change (sentRecords l).map Prod.fst = List.range' (j.next + 1) _ at ih
      change j.next + 1 ≤ _ at hle
      show j.next :: (sentRecords l).map Prod.fst = _
      rw [ih, Journal.after_cons]
      generalize hn : ((j.apply (.pushMessage init slot head j.next message commitment)).after l).next = n
      rw [hn] at hle
      rw [show n - j.next = (n - (j.next + 1)) + 1 by omega, List.range'_succ]
      rfl
    | restorePayload => exact ih
    | removeReplay => exact ih

/-- The last record of a chunk closes its event. -/
theorem closed_chunk (hg : chunk.Gathers size l) (hcomplete : chunk.isComplete = true)
    (ha : j.AcceptsAll maxSlots floor l) :
    chunk.firstIndex = j.next ∧ chunk.lastIndex + 1 = (j.after l).next ∧
      chunk.firstIndex + chunk.records.length = chunk.lastIndex + 1 ∧
      chunk.firstIndex ≤ chunk.lastIndex ∧ (chunk.lastIndex, .processed) ∈ sentRecords l := by
  have hcov := hg.covers ha
  obtain ⟨r, hr, hprocessed⟩ := (Option.any_eq_true _ _).mp hcomplete
  have hne : chunk.records ≠ [] := by
    intro hempty
    rw [hempty] at hr
    cases hr
  obtain ⟨hfirst, hlast⟩ := hcov.range hne
  have hnext := hcov.next
  have hpos := List.length_pos_iff.mpr hne
  rw [List.getLast?_eq_getElem?] at hr
  obtain ⟨init, head, message, hmem⟩ := hcov.records _ r hr
  refine ⟨hfirst, hlast, by omega, by omega, List.mem_filterMap.mpr ⟨_, hmem, ?_⟩⟩
  rw [show j.next + (chunk.records.length - 1) = chunk.lastIndex by omega,
    of_decide_eq_true hprocessed]
  rfl

theorem sentRecords_default (hg : PendingChunk.Gathers size .default l)
    (ha : j.AcceptsAll maxSlots floor l) : sentRecords l = [] := by
  have hindices := indices_sentRecords ha
  rw [after_gathers_default hg ha, Nat.sub_self] at hindices
  exact List.map_eq_nil_iff.mp hindices

/-- Outputs divide the records sent among their chunks. -/
theorem chunks_sentRecords (hg : List.Forall₂ (·.Gathers size) outs ls) :
    ∀ {j : Journal}, j.AcceptsAll maxSlots floor ls.flatten →
      (chunksOf outs).flatMap (·.indices) = (sentRecords ls.flatten).map Prod.fst := by
  induction hg with
  | nil => exact fun _ => rfl
  | @cons out l outs ls hout hg ih =>
    intro j ha
    obtain ⟨hfirst, hrest⟩ := Journal.acceptsAll_append.mp ha
    rw [List.flatten_cons, sentRecords_append, List.map_append, ← ih hrest]
    cases out with
    | trim slot upTo =>
      obtain ⟨l', hg, rfl⟩ := hout
      rw [sentRecords_append, sentRecords_default hg (Journal.acceptsAll_append.mp hfirst).1]
      rfl
    | rawChunk chunk =>
      obtain ⟨hg, hcomplete⟩ := hout
      obtain ⟨hstart, hend, hlen, -, -⟩ := closed_chunk hg hcomplete hfirst
      rw [indices_sentRecords hfirst, ← hstart,
        show (j.after l).next - chunk.firstIndex = chunk.records.length by omega]
      rfl

/-- After some outputs the last event is closed. -/
theorem closed_outputs (hg : List.Forall₂ (·.Gathers size) outs ls) :
    ∀ {j : Journal}, j.AcceptsAll maxSlots floor ls.flatten →
      (j.after ls.flatten).next = j.next ∨ ∃ index, (j.after ls.flatten).next = index + 1 ∧
        (index, .processed) ∈ sentRecords ls.flatten := by
  induction hg with
  | nil => exact fun _ => Or.inl rfl
  | @cons out l outs ls hout hg ih =>
    intro j ha
    obtain ⟨hfirst, hrest⟩ := Journal.acceptsAll_append.mp ha
    rw [List.flatten_cons, Journal.after_append, sentRecords_append]
    rcases ih hrest with hsame | ⟨index, hindex, hmem⟩
    · rw [hsame]
      cases out with
      | trim slot upTo =>
        obtain ⟨l', hg, rfl⟩ := hout
        rw [Journal.after_append, after_gathers_default hg (Journal.acceptsAll_append.mp hfirst).1]
        exact Or.inl rfl
      | rawChunk chunk =>
        obtain ⟨hg, hcomplete⟩ := hout
        obtain ⟨-, hend, -, -, hclosed⟩ := closed_chunk hg hcomplete hfirst
        exact Or.inr ⟨chunk.lastIndex, hend.symm, List.mem_append_left _ hclosed⟩
    · exact Or.inr ⟨index, hindex, List.mem_append_right _ hmem⟩

end Sent

/-! ### The records of a source event -/

section Route

variable {cfg : Config} {slot slotHead : ℕ}

theorem sentRecords_pushStored (l : List (CommitmentLevel × ParsedMessage)) : ∀ index,
    ∀ r ∈ sentRecords (commands (pushStored cfg slot slotHead index l).2), ∃ p ∈ l, p.1 = r.2 := by
  induction l with
  | nil =>
    intro index r hr
    cases hr
  | cons p l ih =>
    intro index r hr
    unfold pushStored at hr
    dsimp only at hr
    split at hr
    · rcases List.mem_cons.mp hr with rfl | hr
      · exact ⟨p, List.mem_cons_self, rfl⟩
      · obtain ⟨p', hmem, heq⟩ := ih _ r hr
        exact ⟨p', List.mem_cons_of_mem _ hmem, heq⟩
    · obtain ⟨p', hmem, heq⟩ := ih _ r hr
      exact ⟨p', List.mem_cons_of_mem _ hmem, heq⟩

theorem pushStored_append (l l' : List (CommitmentLevel × ParsedMessage)) : ∀ index,
    (pushStored cfg slot slotHead index (l ++ l')).2 =
      (pushStored cfg slot slotHead index l).2 ++
        (pushStored cfg slot slotHead (pushStored cfg slot slotHead index l).1 l').2 := by
  induction l with
  | nil => exact fun _ => rfl
  | cons p l ih =>
    intro index
    rw [List.cons_append, pushStored, pushStored]
    dsimp only
    split <;> rw [ih] <;> rfl

theorem promoted_ne_processed {s : Sender} {cb : Option (Option BankId)} {message : ParsedMessage} :
    ∀ p ∈ promoted cfg s slot cb message, p.1 ≠ .processed := by
  intro p hp
  obtain ⟨arc, message⟩ := message
  cases message with
  | slot msg =>
    simp only [promoted, List.mem_append, List.mem_ite_nil_right, List.mem_singleton,
      List.mem_map] at hp
    rcases hp with (⟨-, rfl⟩ | ⟨-, rfl⟩) | ⟨-, m, -, rfl⟩ <;> simp
  | account | transaction | entry | blockMeta | block | blockFooter | entryUpdateParent =>
    simp only [promoted, List.mem_ite_nil_right, List.mem_singleton] at hp
    rw [hp.2]
    simp

/-- **A source event** sends the records of its higher commitments first, and one processed record closes
it. -/
theorem sentRecords_route (hstorage : cfg.storage.isSome) (slot slotHead : ℕ)
    (cb : Option (Option BankId)) (st : PushState) (message : ParsedMessage) : ∃ l index,
    sentRecords (commands (st.route cfg slot slotHead cb message).2) = l ++ [(index, .processed)] ∧
      ∀ r ∈ l, r.2 ≠ .processed := by
  obtain ⟨storage, hstorage⟩ := Option.isSome_iff_exists.mp hstorage
  have hlast : ∀ index, sentRecords (commands
      (pushStored cfg slot slotHead index [(.processed, message)]).2) = [(index, .processed)] := by
    intro index
    simp [pushStored, hstorage, commands, Effect.command?, sentRecords, WriterCommand.record?]
  let banks := if message.isFinalized ∧ cfg.finalized then
    (st.sender.bankMessages slot cb).map (CommitmentLevel.finalized, ·) else []
  obtain ⟨index, hindex⟩ : ∃ index, index =
    (pushStored cfg slot slotHead st.sender.index (promoted cfg st.sender slot cb message)).1 := ⟨_, rfl⟩
  have hroute : sentRecords (commands (st.route cfg slot slotHead cb message).2) =
      sentRecords (commands
        (pushStored cfg slot slotHead st.sender.index (promoted cfg st.sender slot cb message)).2) ++
      (sentRecords (commands (pushStored cfg slot slotHead index banks).2) ++
        [((pushStored cfg slot slotHead index banks).1, .processed)]) := by
    have hdrained : drained cfg st.sender slot cb message = banks ++ [(.processed, message)] := rfl
    rw [← hlast, ← sentRecords_append, ← commands_append, ← pushStored_append, ← hdrained,
      ← sentRecords_append, ← commands_append, hindex]
    unfold PushState.route
    dsimp only
    split
    · simp [commands, Effect.command?]
    · rfl
  refine ⟨_, _, hroute.trans (List.append_assoc ..).symm, fun r hr => ?_⟩
  rcases List.mem_append.mp hr with hr | hr
  · obtain ⟨p, hp, heq⟩ := sentRecords_pushStored _ _ r hr
    rw [← heq]
    exact promoted_ne_processed p hp
  · obtain ⟨p, hp, heq⟩ := sentRecords_pushStored _ _ r hr
    rw [← heq]
    simp only [banks, List.mem_ite_nil_right, List.mem_map] at hp
    obtain ⟨-, m, -, rfl⟩ := hp
    simp

end Route

/-! ### The order -/

/-- The order of the journal of a node, after the events. -/
structure JournalOrder (cfg : ConfigNode) (s : Node) (events : List NodeEvent) : Prop where
  /-- the writer commits what the collector has handed on, in its order -/
  inOrder : committedOutputs (sinceStart events) <+: collectedOutputs (sinceStart events)
  /-- the indices sent have no hole -/
  sent : ∃ n, (sentRecords (sentCommands (sinceStart events))).map Prod.fst =
    List.range' (startIndex events) n
  /-- the chunks divide them -/
  partition : (committedChunks (committedOutputs (sinceStart events))).flatMap (·.indices) <+:
    (sentRecords (sentCommands (sinceStart events))).map Prod.fst
  count : ∀ chunk ∈ committedChunks (committedOutputs (sinceStart events)),
    chunk.firstIndex ≤ chunk.lastIndex ∧
      chunk.records.length = chunk.lastIndex - chunk.firstIndex + 1
  /-- a source event is in one chunk -/
  together : ∀ i k, i ∈ (sentRecords (sentCommands (sinceStart events))).map Prod.fst →
    SameEvent (sentRecords (sentCommands (sinceStart events))) i k →
    ∀ chunk ∈ committedChunks (committedOutputs (sinceStart events)),
      i ∈ chunk.indices ↔ k ∈ chunk.indices
  /-- an event is what one message sends -/
  event : ∀ slot slotHead cb st message, ∃ l index,
    sentRecords (commands (PushState.route cfg.channel slot slotHead cb st message).2) =
        l ++ [(index, .processed)] ∧ ∀ r ∈ l, r.2 ≠ .processed
  /-- the journal goes on after everything that was ever committed -/
  fresh : ∀ chunk ∈ committedChunks (committedOutputs events), ∀ i ∈ chunk.indices,
    i < s.disk.catalog.nextIndex
  retained : ∀ chunk ∈ s.disk.catalog.chunks, chunk.lastIndex < s.disk.catalog.nextIndex

section Order

variable {cfg : ConfigNode} {s : Node} {events : List NodeEvent} {j₀ : Journal}
  {outs : List CollectorOutput} {ls : List (List WriterCommand)} {l : List WriterCommand}

/-- A committed chunk comes after some outputs. -/
theorem NodeView.mem_committedChunks (h : NodeView cfg s events j₀ outs ls l) {chunk : PendingChunk}
    (hmem : chunk ∈ committedChunks (committedOutputs (sinceStart events))) :
    ∃ (outs₁ : List CollectorOutput) (ls₁ : List (List WriterCommand))
      (l₁ rest : List WriterCommand), List.Forall₂ (·.Gathers cfg.size) outs₁ ls₁ ∧
      chunk.Gathers cfg.size l₁ ∧ chunk.isComplete = true ∧
      sentCommands (sinceStart events) = ls₁.flatten ++ (l₁ ++ rest) := by
  rw [h.committed, committedChunks, map_snd_number] at hmem
  obtain ⟨output, hout, hchunk⟩ := List.mem_filterMap.mp hmem
  cases output with
  | trim slot upTo => cases hchunk
  | rawChunk chunk' =>
    obtain rfl := Option.some.inj hchunk
    obtain ⟨k, hk, hget⟩ := List.getElem_of_mem (List.mem_of_mem_take hout)
    have hk' : k < ls.length := h.gathers.length_eq ▸ hk
    have hg : outs[k].Gathers cfg.size ls[k] := h.gathers.get hk hk'
    rw [hget] at hg
    refine ⟨outs.take k, ls.take k, ls[k], (ls.drop (k + 1)).flatten ++ (l ++ s.queue),
      List.forall₂_take k h.gathers, hg.1, hg.2, ?_⟩
    have hsplit : ls.flatten = (ls.take k).flatten ++ (ls[k] ++ (ls.drop (k + 1)).flatten) := by
      conv_lhs => rw [← List.take_append_drop k ls, ← List.getElem_cons_drop hk']
      rw [List.flatten_append, List.flatten_cons]
    rw [h.sent, hsplit]
    simp only [List.append_assoc]

/-- **Journal order and contiguity.** -/
theorem journal_order (hstorage : cfg.channel.storage.isSome) {hasher : RandomState}
    {actions : List NodeAction}
    (h : run (Node.step cfg) (Node.new cfg hasher) actions = .ok (s, events)) :
    JournalOrder cfg s events := by
  obtain ⟨j₀, outs, ls, l, hv⟩ := nodeView_run hstorage h
  have hindices := indices_sentRecords hv.accepts
  have hcommitted : committedChunks (committedOutputs (sinceStart events)) =
      chunksOf (outs.take s.writer.nextSeq) := by
    rw [hv.committed, committedChunks, map_snd_number]
  constructor
  · rw [hv.committed, hv.collected]
    conv_rhs => rw [← List.take_append_drop s.writer.nextSeq outs, number_append]
    exact List.prefix_append ..
  · exact ⟨_, hindices.trans (by rw [hv.start])⟩
  · have hsent := hv.sent
    have ha := hv.accepts
    rw [← List.take_append_drop s.writer.nextSeq ls, List.flatten_append] at hsent
    rw [hsent] at ha ⊢
    simp only [List.append_assoc] at ha ⊢
    rw [hcommitted, chunks_sentRecords (List.forall₂_take _ hv.gathers)
      (Journal.acceptsAll_append.mp ha).1, sentRecords_append, List.map_append]
    exact List.prefix_append ..
  · intro chunk hmem
    obtain ⟨outs₁, ls₁, l₁, rest, -, hg, hcomplete, hsent⟩ := hv.mem_committedChunks hmem
    have ha := hv.accepts
    rw [hsent] at ha
    have ha := (Journal.acceptsAll_append.mp (Journal.acceptsAll_append.mp ha).2).1
    obtain ⟨-, -, hlen, hle, -⟩ := closed_chunk hg hcomplete ha
    exact ⟨hle, by omega⟩
  · intro i k hi ⟨hik, hopen⟩ chunk hmem
    obtain ⟨outs₁, ls₁, l₁, rest, hgs, hg, hcomplete, hsent⟩ := hv.mem_committedChunks hmem
    have ha := hv.accepts
    rw [hsent] at ha
    obtain ⟨ha₁, ha₂⟩ := Journal.acceptsAll_append.mp ha
    obtain ⟨hfirst, hend, hlen, hle, hclosed⟩ :=
      closed_chunk hg hcomplete (Journal.acceptsAll_append.mp ha₂).1
    rw [hindices, List.mem_range'_1] at hi
    have hrange : ∀ n, n ∈ chunk.indices ↔ chunk.firstIndex ≤ n ∧ n ≤ chunk.lastIndex := by
      intro n
      rw [PendingChunk.indices, List.mem_range'_1]
      omega
    rw [hrange, hrange]
    constructor
    · rintro ⟨h₁, h₂⟩
      refine ⟨h₁.trans hik, not_lt.mp fun hlt => ?_⟩
      -- the last record of the chunk would close the event
      refine hopen (chunk.lastIndex, .processed) ?_ h₂ hlt rfl
      rw [hsent, sentRecords_append, sentRecords_append]
      exact List.mem_append_right _ (List.mem_append_left _ hclosed)
    · rintro ⟨h₁, h₂⟩
      refine ⟨not_lt.mp fun hlt => ?_, hik.trans h₂⟩
      -- and so would the last record before the chunk
      rcases closed_outputs hgs ha₁ with hsame | ⟨index, hindex, hmem⟩
      · omega
      · refine hopen (index, .processed) ?_ (by simp only; omega) (by simp only; omega) rfl
        rw [hsent, sentRecords_append]
        exact List.mem_append_left _ hmem
  · exact fun slot slotHead cb st message => sentRecords_route hstorage slot slotHead cb st message
  · intro chunk hmem i hi
    obtain ⟨output, hout, hchunk⟩ := List.mem_filterMap.mp hmem
    obtain ⟨⟨seq, output'⟩, hcommit, rfl⟩ := List.mem_map.mp hout
    obtain ⟨e, he, heq⟩ := List.mem_filterMap.mp hcommit
    cases output' with
    | trim slot upTo => cases hchunk
    | rawChunk chunk' =>
      obtain rfl := Option.some.inj hchunk
      have hevent : NodeEvent.committed seq (.rawChunk chunk') ∈ events := by
        cases e <;> cases heq
        exact he
      obtain ⟨hle, hlt⟩ := List.mem_range'_1.mp hi
      have hrecord : chunk'.record? i = some chunk'.records[i - chunk'.firstIndex] := by
        rw [PendingChunk.record?, if_pos hle]
        exact List.getElem?_eq_getElem (by omega)
      exact hv.catalog.lt_nextIndex (hv.catalog.written i _ (hv.ever seq chunk' hevent i _ hrecord))
  · exact fun chunk hmem => hv.catalog.lt_nextIndex ⟨chunk, hmem, le_rfl⟩

end Order

/-- A node with a small journal. -/
def ConfigNode.small : ConfigNode where
  channel := { Config.memory with storage := some ⟨7⟩ }
  ring := ⟨4, 100⟩
  storage := ⟨1, 1, 0, fun _ => 10⟩
  size := fun _ => 10

/-- A status is recorded for the three commitments, written, and the process starts again. -/
theorem journal_order_status : ∃ s events,
    run (Node.step .small) (Node.new .small fun _ => 0)
      [.push ⟨false, "a", .slot ⟨5, .slotProcessed, none, []⟩⟩, .collect, .collect, .collect,
        .compressed 0, .write, .write, .restart fun _ => 0] = .ok (s, events) ∧
      committedOutputs events ≠ [] ∧ JournalOrder .small s events := by
  obtain ⟨s, events, hrun, hcommitted⟩ := exists_of_returns
    (p := fun _ events => !(committedOutputs events).isEmpty)
    (x := run (Node.step .small) (Node.new .small fun _ => 0)
      [.push ⟨false, "a", .slot ⟨5, .slotProcessed, none, []⟩⟩, .collect, .collect, .collect,
        .compressed 0, .write, .write, .restart fun _ => 0]) (by decide +kernel)
  exact ⟨s, events, hrun, by simpa using hcommitted, journal_order rfl hrun⟩

end Richat
