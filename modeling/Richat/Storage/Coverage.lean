import Richat.Storage.Accounts
import Richat.Storage.Streams

/-!
# The replay map accounts for the journal

`RecordsView`: every record since the last live epoch, on the disk or on its way to it, is accounted for
by the replay map, and so is every message on the streams of the process. A push keeps this; at the
start of a process it depends on the slots of the catalog (`StartsInOrder`).
-/

namespace Richat

open Lib

/-- A record of the journal since the last live epoch: it is on the disk, or the process sent it. -/
def Journalled (s : Node) (events : List NodeEvent) (commitment : CommitmentLevel) (k : ℕ) (t : Slot) :
    Prop :=
  s.disk.catalog.replayFloor ≤ k ∧
    ((∃ r, s.disk.record k = some r ∧ r.slot = t ∧ r.commitment = commitment) ∨
      ∃ init head message,
        .pushMessage init t head k message commitment ∈ sentCommands (sinceStart events))

/-- A process does not start from a catalog with a late slot. -/
def StartsInOrder (cfg : ConfigNode) (s : Node) : NodeAction → Prop
  | .restart _ => s.disk.NoLateSlot cfg.channel.storageMaxSlots
  | _ => True

/-- The replay map accounts for the journal, of which `j` is what the disk has. -/
structure RecordsView (cfg : ConfigNode) (s : Node) (events : List NodeEvent) (j : Journal) :
    Prop where
  accounts : Accounts cfg.channel.storageMaxSlots s.disk.catalog.replayFloor j s.disk.recorded
  covered : ∀ commitment k t, Journalled s events commitment k t → Covered cfg.channel s.sender t k
  stored : ∀ commitment, ∀ item ∈ sinceEpoch (streamEvents commitment events),
    ∃ k, Covered cfg.channel s.sender item.slot k

/-! ### The events of a step -/

section Events

variable {cfg : ConfigNode} {events out : List NodeEvent}

/-- The items since the last live epoch, after more items. -/
theorem mem_sinceEpoch_append {item : Item} {channelEvents new : List ChannelEvent}
    (h : item ∈ sinceEpoch (channelEvents ++ new)) :
    item ∈ sinceEpoch channelEvents ∨ item ∈ storedItems new := by
  induction new using List.reverseRecOn with
  | nil =>
    rw [List.append_nil] at h
    exact Or.inl h
  | append_singleton new e ih =>
    rw [← List.append_assoc] at h
    unfold sinceEpoch at h ih
    cases e with
    | epoch =>
      rw [List.rtakeWhile_concat_neg _ _ _ (by decide)] at h
      cases h
    | stored item' =>
      rw [List.rtakeWhile_concat_pos _ _ _ (by rfl), storedItems_append] at h
      rw [storedItems_append]
      rcases List.mem_append.mp h with h | h
      · exact (ih h).imp_right (List.mem_append_left _)
      · exact Or.inr (List.mem_append_right _ h)

theorem sinceEpoch_epoch (channelEvents : List ChannelEvent) :
    sinceEpoch (channelEvents ++ [.epoch]) = [] := by
  unfold sinceEpoch
  rw [List.rtakeWhile_concat_neg _ _ _ (by decide)]
  rfl

/-- What a push puts on the streams is of its slot. -/
theorem slot_of_perform {slot : Slot} {effects : List Effect} :
    ∀ {streams streams' : CommitmentLevel → SenderShared} {out : List NodeEvent},
    (∀ e ∈ effects, e.OfSlot slot) → run (Node.perform cfg) streams effects = .ok (streams', out) →
    ∀ commitment item, .stored commitment item ∈ out → item.slot = slot := by
  induction effects with
  | nil =>
    intro streams streams' out _ h commitment item hmem
    simp only [run_nil, Except.ok.injEq, Prod.mk.injEq] at h
    rw [← h.2] at hmem
    cases hmem
  | cons effect effects ih =>
    intro streams streams' out hslot h commitment item hmem
    obtain ⟨streams₁, out₁, out₂, h₁, h₂, rfl⟩ := run_cons_ok.mp h
    rcases List.mem_append.mp hmem with hmem | hmem
    · cases effect with
      | received sourceName message =>
        cases h₁
        cases hmem
      | replayFromSlot slot =>
        cases h₁
        cases hmem
      | writer command =>
        cases h₁
        cases List.mem_singleton.mp hmem
      | ring c t message replayIndex =>
        simp only [Node.perform] at h₁
        split at h₁
        · cases h₁
        · cases h₁
          cases List.mem_singleton.mp hmem
          exact hslot _ List.mem_cons_self
    · exact ih (fun e he => hslot e (List.mem_cons_of_mem _ he)) h₂ commitment item hmem

/-- Only the streams' own items are on a stream. -/
theorem mem_storedItems_filterMap {commitment : CommitmentLevel} {item : Item}
    (h : item ∈ storedItems (out.filterMap (·.channelEvent? commitment))) :
    .stored commitment item ∈ out := by
  obtain ⟨ce, hce, hitem⟩ := List.mem_filterMap.mp h
  obtain ⟨e, he, heq⟩ := List.mem_filterMap.mp hce
  cases e with
  | stored c item' =>
    simp only [NodeEvent.channelEvent?] at heq
    split at heq
    · rename_i hc
      cases heq
      cases hitem
      exact hc ▸ he
    · cases heq
  | epoch =>
    cases heq
    cases hitem
  | sent command => cases heq
  | collected seq output => cases heq
  | committed seq output => cases heq
  | started index => cases heq

end Events

/-! ### The journal of a step -/

section Journal

variable {maxSlots floor : ℕ}

/-- The records of accepted commands are numbered from the next index on. -/
theorem Journal.AcceptsAll.index_mem : ∀ {l : List WriterCommand} {j : Journal},
    j.AcceptsAll maxSlots floor l → ∀ {init slot head index message commitment},
    .pushMessage init slot head index message commitment ∈ l →
    j.next ≤ index ∧ index < (j.after l).next := by
  intro l
  induction l with
  | nil =>
    intro j _ init slot head index message commitment hmem
    cases hmem
  | cons command l ih =>
    intro j ha init slot head index message commitment hmem
    rcases List.mem_cons.mp hmem with rfl | hmem
    · obtain ⟨rfl, -⟩ := ha.1
      exact ⟨le_rfl, ha.2.le⟩
    · obtain ⟨hle, hlt⟩ := ih ha.2 hmem
      exact ⟨ha.1.le.trans hle, hlt⟩

/-- A head that is older than the commands was there before them. -/
theorem Journal.AcceptsAll.head_of_lt : ∀ {l : List WriterCommand} {j : Journal},
    j.AcceptsAll maxSlots floor l → ∀ {t h : ℕ}, (j.after l).heads.get? t = some h → h < j.next →
    j.heads.get? t = some h := by
  intro l
  induction l with
  | nil => exact fun _ _ _ hget _ => hget
  | cons command l ih =>
    intro j ha t h hget hlt
    have happly := ih ha.2 hget (hlt.trans_le ha.1.le)
    cases command with
    | pushMessage init slot head index message commitment =>
      obtain ⟨rfl, hinit, -⟩ := ha.1
      cases init with
      | false => exact happly
      | true =>
        obtain ⟨rfl, -⟩ := hinit rfl
        simp only [Journal.apply, if_true] at happly
        rw [SortedMap.get?_insert] at happly
        split at happly
        · exact absurd hlt (Option.some.inj happly ▸ lt_irrefl _)
        · exact happly
    | restorePayload index message => exact happly
    | removeReplay slot upTo =>
      change (j.heads.erase slot).get? t = some h at happly
      rw [SortedMap.get?_erase] at happly
      split at happly
      · cases happly
      · exact happly

/-- The record of a command of an output. -/
theorem CollectorOutput.Gathers.of_push {size : ParsedMessage → ℕ} {j : Journal}
    {output : CollectorOutput} {l : List WriterCommand} (hg : output.Gathers size l)
    (ha : j.AcceptsAll maxSlots floor l) {init : Bool} {slot : Slot} {head index : ℕ}
    {message : ParsedMessage} {commitment : CommitmentLevel}
    (hmem : .pushMessage init slot head index message commitment ∈ l) :
    ∃ chunk, output = .rawChunk chunk ∧ ∃ r, chunk.record? index = some r ∧ r.slot = slot ∧
      r.commitment = commitment := by
  cases output with
  | rawChunk chunk =>
    have hcov := hg.1.covers ha
    obtain ⟨k, r, hr, rfl, hslot, hcommitment⟩ := hcov.pushes _ _ _ _ _ _ hmem
    have hne : chunk.records ≠ [] := by
      intro hempty
      rw [hempty] at hr
      cases hr
    refine ⟨chunk, rfl, r, ?_, hslot, hcommitment⟩
    unfold PendingChunk.record?
    rw [(hcov.range hne).1, if_pos (Nat.le_add_right _ _), Nat.add_sub_cancel_left, hr]
  | trim slot' upTo =>
    -- what comes before a trim is written
    obtain ⟨l', hg, rfl⟩ := hg
    rcases List.mem_append.mp hmem with hmem | hmem
    · have hcov := hg.covers (Journal.acceptsAll_append.mp ha).1
      obtain ⟨k, r, hr, -⟩ := hcov.pushes _ _ _ _ _ _ hmem
      cases hr
    · cases List.mem_singleton.mp hmem

/-- The command of a record of a chunk. -/
theorem CollectorOutput.Gathers.push_of_record {size : ParsedMessage → ℕ} {j : Journal}
    {chunk : PendingChunk} {l : List WriterCommand}
    (hg : (CollectorOutput.rawChunk chunk).Gathers size l) (ha : j.AcceptsAll maxSlots floor l)
    {k : ℕ} {r : RawRecord} (hr : chunk.record? k = some r) :
    ∃ init head message, .pushMessage init r.slot head k message r.commitment ∈ l := by
  have hcov := hg.1.covers ha
  unfold PendingChunk.record? at hr
  split at hr
  · rename_i hle
    have hne : chunk.records ≠ [] := by
      intro hempty
      rw [hempty] at hr
      cases hr
    obtain ⟨init, head, message, hmem⟩ := hcov.records _ r hr
    rw [← (hcov.range hne).1, Nat.add_sub_cancel' hle] at hmem
    exact ⟨init, head, message, hmem⟩
  · cases hr

end Journal

/-! ### The invariant -/

section Steps

variable {cfg : ConfigNode} {s s' : Node} {events out : List NodeEvent} {j j₀ : Journal}
  {outs : List CollectorOutput} {ls : List (List WriterCommand)} {l : List WriterCommand}

/-- A step that sends nothing, writes no record and leaves the sender alone. -/
theorem RecordsView.congr (h : RecordsView cfg s events j) (hsender : s'.sender = s.sender)
    (hrecord : s'.disk.record = s.disk.record)
    (hfloor : s'.disk.catalog.replayFloor = s.disk.catalog.replayFloor) (hcont : Continues out)
    (hsent : sentCommands out = [])
    (hstreams : ∀ e ∈ out, ∀ commitment, e.channelEvent? commitment = none) :
    RecordsView cfg s' (events ++ out) j := by
  constructor
  · rw [hfloor]
    refine h.accounts.congr fun k t => ?_
    unfold Disk.recorded
    rw [hrecord]
  · intro commitment k t hk
    rw [hsender]
    refine h.covered commitment k t ?_
    unfold Journalled at hk ⊢
    rwa [hfloor, hrecord, sinceStart_append hcont, sentCommands_append, hsent, List.append_nil] at hk
  · intro commitment item hitem
    rw [hsender]
    refine h.stored commitment item ?_
    rwa [streamEvents_append commitment hcont,
      List.filterMap_eq_nil_iff.mpr fun e he => hstreams e he commitment, List.append_nil] at hitem

theorem recordsView_new (cfg : ConfigNode) (hasher : RandomState) :
    RecordsView cfg (Node.new cfg hasher) [] ⟨0, .empty⟩ := by
  refine ⟨⟨?_, ?_, ?_, ?_⟩, ?_, ?_⟩
  · rintro k t ⟨r, hr, -⟩
    cases hr
  · intro t h hget
    cases hget
  · rintro k t ⟨r, hr, -⟩
    cases hr
  · rintro k t ⟨r, hr, -⟩
    cases hr
  · rintro commitment k t ⟨-, ⟨r, hr, -⟩ | ⟨init, head, message, hmem⟩⟩
    · cases hr
    · cases hmem
  · intro commitment item hitem
    cases hitem

/-- A source event. -/
theorem RecordsView.push (hstorage : cfg.channel.storage.isSome)
    (hv : NodeView cfg s events j₀ outs ls l) (h : RecordsView cfg s events j) {input : PushInput}
    {sender : Sender} {effects : List Effect} {streams : CommitmentLevel → SenderShared}
    (hpush : s.sender.push (Node.config cfg s.hasher) input = .ok (sender, effects))
    (hrun : run (Node.perform cfg) s.streams effects = .ok (streams, out)) :
    RecordsView cfg { s with sender, streams, queue := s.queue ++ commands effects } (events ++ out)
      j := by
  obtain ⟨hsent, -, -, hcont⟩ := run_perform hrun
  have hp := ((senderView_config s.hasher).mpr hv.sender).push
    (show (Node.config cfg s.hasher).storage.isSome from hstorage) hpush
  have hslot := ofSlot_push hpush
  refine ⟨h.accounts, ?_, ?_⟩
  · rintro commitment k t ⟨hle, hk⟩
    rw [sinceStart_append hcont, sentCommands_append, hsent] at hk
    have hold : Journalled s events commitment k t → Covered cfg.channel sender t k :=
      fun hk => hp.covered t k (h.covered commitment k t hk)
    rcases hk with hdisk | ⟨init, head, message, hmem⟩
    · exact hold ⟨hle, Or.inl hdisk⟩
    · rcases List.mem_append.mp hmem with hmem | hmem
      · exact hold ⟨hle, Or.inr ⟨init, head, message, hmem⟩⟩
      · -- a record of this push
        obtain ⟨e, he, hcommand⟩ := List.mem_filterMap.mp hmem
        have htslot : t = input.slot := by
          cases e with
          | writer command =>
            obtain rfl := Option.some.inj hcommand
            exact hslot _ he
          | received => cases hcommand
          | ring => cases hcommand
          | replayFromSlot => cases hcommand
        obtain rfl := htslot
        rcases hp.recorded with rfl | hrecorded
        · cases he
        · exact hrecorded k (hv.sender.next.symm.le.trans (hp.accepts.index_mem hmem).1)
  · intro commitment item hitem
    rw [streamEvents_append commitment hcont] at hitem
    rcases mem_sinceEpoch_append hitem with hitem | hitem
    · obtain ⟨k, hk⟩ := h.stored commitment item hitem
      exact ⟨k, hp.covered _ k hk⟩
    · have hmem := mem_storedItems_filterMap hitem
      rcases hp.recorded with rfl | hrecorded
      · simp only [run_nil, Except.ok.injEq, Prod.mk.injEq] at hrun
        rw [← hrun.2] at hmem
        cases hmem
      · rw [slot_of_perform hslot hrun commitment item hmem]
        exact ⟨s.sender.index, hrecorded _ le_rfl⟩

/-- A live epoch: nothing is older. -/
theorem RecordsView.beginLiveEpoch (hv : NodeView cfg s events j₀ outs ls l)
    (h : RecordsView cfg s events (j₀.after (ls.take s.writer.nextSeq).flatten))
    (streams : CommitmentLevel → SenderShared) :
    RecordsView cfg { s with
        disk := { s.disk with catalog := s.disk.catalog.setReplayFloor s.sender.index }
        sender := s.sender.beginLiveEpoch
        streams } (events ++ [.epoch]) (j₀.after (ls.take s.writer.nextSeq).flatten) := by
  have hcont : Continues [NodeEvent.epoch] := fun e he => by rw [List.mem_singleton.mp he]; rfl
  -- the disk is not ahead of the sender
  obtain ⟨rest, hsent, ha⟩ := hv.ahead
  have hnext := ha.le
  rw [← Journal.after_append, ← hsent, hv.sender.next] at hnext
  refine ⟨h.accounts.beginLiveEpoch hv.sender.floor_le hnext, ?_, ?_⟩
  · rintro commitment k t ⟨hle, ⟨r, hr, hslot, -⟩ | ⟨init, head, message, hmem⟩⟩
    · exact absurd (h.accounts.lt_next k t ⟨r, hr, hslot⟩) (not_lt.mpr (hnext.trans hle))
    · rw [sinceStart_append hcont, sentCommands_append] at hmem
      rw [show sentCommands [NodeEvent.epoch] = [] from rfl, List.append_nil] at hmem
      have hlt := (hv.accepts.index_mem hmem).2
      rw [hv.sender.next] at hlt
      exact absurd hlt (not_lt.mpr hle)
  · intro commitment item hitem
    rw [streamEvents_append commitment hcont] at hitem
    change item ∈ sinceEpoch (streamEvents commitment events ++ [.epoch]) at hitem
    rw [sinceEpoch_epoch] at hitem
    cases hitem

/-- The next output is written: its records were sent. -/
theorem RecordsView.write (hv : NodeView cfg s events j₀ outs ls l)
    (h : RecordsView cfg s events (j₀.after (ls.take s.writer.nextSeq).flatten))
    {output : CollectorOutput} (hget : s.writer.pending.get? s.writer.nextSeq = some output) :
    RecordsView cfg { s with
        writer := { (s.writer.handle cfg s.disk output).1 with
          pending := (s.writer.handle cfg s.disk output).1.pending.erase s.writer.nextSeq
          nextSeq := s.writer.nextSeq + 1 }
        disk := (s.writer.handle cfg s.disk output).2 }
      (events ++ [.committed s.writer.nextSeq output])
      (j₀.after (ls.take (s.writer.nextSeq + 1)).flatten) := by
  have hcont : Continues [NodeEvent.committed s.writer.nextSeq output] := by
    intro e he
    rw [List.mem_singleton.mp he]
    rfl
  obtain ⟨l', hg, -, htake, ha, hmem⟩ := hv.next_output hget
  have hfloor := (handle_writer cfg s.writer s.disk output).2.2
  have hrecord : ∀ k r, (s.writer.handle cfg s.disk output).2.record k = some r ↔
      s.disk.record k = some r ∨ ∃ chunk, output = .rawChunk chunk ∧ chunk.record? k = some r :=
    fun k r => hv.catalog.record_handle hg ha
  refine ⟨?_, ?_, ?_⟩
  · rw [htake, Journal.after_append, hfloor]
    refine (h.accounts.after ha).congr fun k t => ?_
    unfold recordedAfter Disk.recorded
    simp only [hrecord]
    constructor
    · rintro (⟨r, hr, hslot⟩ | ⟨init, head, message, commitment, hcommand⟩)
      · exact ⟨r, Or.inl hr, hslot⟩
      · obtain ⟨chunk, rfl, r, hr, hslot, -⟩ := hg.of_push ha hcommand
        exact ⟨r, Or.inr ⟨chunk, rfl, hr⟩, hslot⟩
    · rintro ⟨r, hr | ⟨chunk, rfl, hr⟩, hslot⟩
      · exact Or.inl ⟨r, hr, hslot⟩
      · obtain ⟨init, head, message, hcommand⟩ := hg.push_of_record ha hr
        exact Or.inr ⟨init, head, message, r.commitment, hslot ▸ hcommand⟩
  · rintro commitment k t ⟨hle, hk⟩
    rw [hfloor] at hle
    refine h.covered commitment k t ⟨hle, ?_⟩
    rw [sinceStart_append hcont, sentCommands_append,
      show sentCommands [NodeEvent.committed s.writer.nextSeq output] = [] from rfl,
      List.append_nil] at hk
    refine hk.elim ?_ Or.inr
    rintro ⟨r, hwritten, hslot, hcommitment⟩
    rcases (hrecord k r).mp hwritten with hr | ⟨chunk, rfl, hr⟩
    · exact Or.inl ⟨r, hr, hslot, hcommitment⟩
    · obtain ⟨init, head, message, hcommand⟩ := hg.push_of_record ha hr
      exact Or.inr ⟨init, head, message, hmem _ (hslot ▸ hcommitment ▸ hcommand)⟩
  · intro commitment item hitem
    rw [streamEvents_append commitment hcont] at hitem
    exact h.stored commitment item (by simpa [NodeEvent.channelEvent?] using hitem)

/-- A process that starts from a catalog without a late slot. -/
theorem RecordsView.restart (hstorage : cfg.channel.storage.isSome)
    (hv : NodeView cfg s events j₀ outs ls l)
    (h : RecordsView cfg s events (j₀.after (ls.take s.writer.nextSeq).flatten))
    (hlate : s.disk.NoLateSlot cfg.channel.storageMaxSlots) {hasher : RandomState} {nextArc : ℕ}
    (hstart : Node.start cfg hasher s.disk nextArc = .ok s') :
    RecordsView cfg s' (events ++ [.started s'.sender.index])
      ⟨s.disk.catalog.nextIndex, (j₀.after (ls.take s.writer.nextSeq).flatten).heads⟩ := by
  obtain ⟨hdisk, hloaded, -⟩ := hv.restart hstorage hstart
  refine ⟨?_, ?_, ?_⟩
  · rw [hdisk]
    refine ⟨?_, h.accounts.heads, h.accounts.records, h.accounts.newest⟩
    rintro k t ⟨r, hr, -⟩
    exact hv.catalog.lt_nextIndex (hv.catalog.written k r hr)
  · rintro commitment k t ⟨hle, hk⟩
    rw [hdisk] at hle hk
    rcases hk with ⟨r, hr, hslot, -⟩ | ⟨init, head, message, hmem⟩
    · exact covered_of_loaded hv.catalog hloaded h.accounts hlate ⟨r, hr, hslot⟩ hle
    · rw [sinceStart_started] at hmem
      cases hmem
  · intro commitment item hitem
    rw [streamEvents, sinceStart_started] at hitem
    cases hitem

/-- **A step of a node.** -/
theorem recordsView_step (hstorage : cfg.channel.storage.isSome) {action : NodeAction}
    (hv : NodeView cfg s events j₀ outs ls l)
    (h : RecordsView cfg s events (j₀.after (ls.take s.writer.nextSeq).flatten))
    (hok : StartsInOrder cfg s action) (hstep : Node.step cfg s action = .ok (s', out)) :
    ∃ j₀ outs ls l, NodeView cfg s' (events ++ out) j₀ outs ls l ∧
      RecordsView cfg s' (events ++ out) (j₀.after (ls.take s'.writer.nextSeq).flatten) := by
  -- a turn of the collector
  have hcollected : ∀ (input : CollectorInput) {queue : List WriterCommand},
      s.queue = input.commands ++ queue → s.collected input queue cfg = .ok (s', out) →
      ∃ j₀ outs ls l, NodeView cfg s' (events ++ out) j₀ outs ls l ∧
        RecordsView cfg s' (events ++ out) (j₀.after (ls.take s'.writer.nextSeq).flatten) := by
    intro input queue hqueue hstep
    obtain ⟨new, lsnew, l', hview⟩ := hv.collected_step input hqueue hstep
    refine ⟨j₀, _, _, l', hview, ?_⟩
    have hle := hv.order.le.trans hv.gathers.length_eq.le
    unfold Node.collected at hstep
    split at hstep
    · cases hstep
    · rename_i collector outputs hcollector
      cases hstep
      rw [List.take_append_of_le_length hle]
      have hout : ∀ e ∈ outputs.map fun output => NodeEvent.collected output.1 output.2,
          ∃ seq output, e = .collected seq output := by
        intro e he
        obtain ⟨output, -, rfl⟩ := List.mem_map.mp he
        exact ⟨_, _, rfl⟩
      refine h.congr rfl rfl rfl ?_ (List.filterMap_eq_nil_iff.mpr ?_) ?_
      · intro e he
        obtain ⟨seq, output, rfl⟩ := hout e he
        rfl
      · intro e he
        obtain ⟨seq, output, rfl⟩ := hout e he
        rfl
      · intro e he commitment
        obtain ⟨seq, output, rfl⟩ := hout e he
        rfl
  -- a step without events
  have hquiet : ∀ {s' : Node}, s'.sender = s.sender → s'.disk.record = s.disk.record →
      s'.disk.catalog.replayFloor = s.disk.catalog.replayFloor →
      RecordsView cfg s' events (j₀.after (ls.take s.writer.nextSeq).flatten) := by
    intro s' hsender hrecord hfloor
    have hcont : Continues [] := fun e he => by cases he
    have := h.congr hsender hrecord hfloor hcont rfl fun e he => by cases he
    rwa [List.append_nil] at this
  cases action with
  | push input =>
    simp only [Node.step] at hstep
    split at hstep
    · cases hstep
    · split at hstep
      · cases hstep
      · rename_i sender effects hpush
        split at hstep
        · cases hstep
        · rename_i streams out hrun
          cases hstep
          exact ⟨j₀, outs, ls, l, hv.push hstorage hpush hrun, h.push hstorage hv hpush hrun⟩
  | beginLiveEpoch =>
    simp only [Node.step, if_pos hstorage] at hstep
    split at hstep
    · cases hstep
    · cases hstep
      exact ⟨j₀, outs, ls, l, hv.beginLiveEpoch _, h.beginLiveEpoch hv _⟩
  | close =>
    cases hstep
    rw [List.append_nil]
    exact ⟨j₀, outs, ls, l, ⟨hv.order, hv.nextSeq, hv.collected, hv.committed, hv.gathers, hv.pending,
      hv.sent, hv.start, hv.accepts, hv.sender, hv.catalog, hv.ever⟩, hquiet rfl rfl rfl⟩
  | collect =>
    simp only [Node.step] at hstep
    split at hstep
    · rename_i command queue hqueue
      exact hcollected (.command command) hqueue hstep
    · rename_i hqueue
      split at hstep
      · exact hcollected .closed hqueue hstep
      · cases hstep
  | timeout => exact hcollected .timeout rfl hstep
  | compressed i =>
    simp only [Node.step] at hstep
    split at hstep
    · cases hstep
    · rename_i output hget
      cases hstep
      rw [List.append_nil]
      exact ⟨j₀, outs, ls, l, hv.compressed hget, hquiet rfl rfl rfl⟩
  | write =>
    simp only [Node.step] at hstep
    split at hstep
    · cases hstep
      rw [List.append_nil]
      exact ⟨j₀, outs, ls, l, hv.rotate, hquiet rfl rfl rfl⟩
    · split at hstep
      · cases hstep
      · rename_i output hget
        cases hstep
        exact ⟨j₀, outs, ls, l, hv.write hget, h.write hv hget⟩
  | restart hasher =>
    simp only [Node.step] at hstep
    split at hstep
    · cases hstep
    · rename_i s₁ hstart
      cases hstep
      refine ⟨_, [], [], [], (hv.restart hstorage hstart).2.2, ?_⟩
      rw [List.take_nil]
      exact h.restart hstorage hv hok hstart

/-- **Every run of a node whose processes start in order.** -/
theorem recordsView_run (hstorage : cfg.channel.storage.isSome) {hasher : RandomState}
    {actions : List NodeAction}
    (hall : AllSteps (Node.step cfg) (StartsInOrder cfg) (Node.new cfg hasher) actions)
    (h : run (Node.step cfg) (Node.new cfg hasher) actions = .ok (s, events)) :
    ∃ j₀ outs ls l, NodeView cfg s events j₀ outs ls l ∧
      RecordsView cfg s events (j₀.after (ls.take s.writer.nextSeq).flatten) := by
  refine run_induction_of (P := fun _ s events => ∃ j₀ outs ls l,
    NodeView cfg s events j₀ outs ls l ∧
      RecordsView cfg s events (j₀.after (ls.take s.writer.nextSeq).flatten))
    ⟨_, _, _, _, nodeView_new cfg hasher, recordsView_new cfg hasher⟩ ?_ hall h
  rintro actions s events action s' out - ⟨j₀, outs, ls, l, hv, hr⟩ hok hstep
  exact recordsView_step hstorage hv hr hok hstep

end Steps

end Richat
