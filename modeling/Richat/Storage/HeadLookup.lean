import Richat.Channel.RingState
import Richat.Storage.HandoffSpec
import Richat.Storage.JournalOrder
import Richat.Storage.Process
import Richat.Storage.ReplayPosition

/-!
# The lookup of a journal index in a ring

`getHeadByReplayIndex` is a binary search, guarded by a floor that evictions and live epochs move. It
rests on the order of the records in a ring (`Ascending`, from the effects of a push) and on where the
floor comes from (`StreamHead.floor`). `head_by_replay_index` says what it finds, in every ring that a
client can find.
-/

namespace Richat

open Lib

/-- The messages of the commitment are recorded in the journal. -/
def Config.Stores (cfg : Config) (commitment : CommitmentLevel) : Prop :=
  cfg.storage.any fun storage => commitment = .processed ∨ storage.replayEnabled commitment

instance (cfg : Config) (commitment : CommitmentLevel) : Decidable (cfg.Stores commitment) := by
  unfold Config.Stores
  infer_instance

/-! ### The numbers of the records -/

/-- The messages on the stream of a commitment carry increasing indices, from `i` on and below `j`. -/
inductive Ascending (commitment : CommitmentLevel) : ℕ → List Effect → ℕ → Prop
  | nil {i j : ℕ} : i ≤ j → Ascending commitment i [] j
  | ring {i k j : ℕ} {slot : Slot} {message : ParsedMessage} {effects : List Effect} :
    i ≤ k → Ascending commitment (k + 1) effects j →
      Ascending commitment i (.ring commitment slot message (some k) :: effects) j
  | skip {i j : ℕ} {effect : Effect} {effects : List Effect} :
    (∀ slot message replayIndex, effect ≠ .ring commitment slot message replayIndex) →
      Ascending commitment i effects j → Ascending commitment i (effect :: effects) j

namespace Ascending

variable {commitment : CommitmentLevel} {i i' j k : ℕ} {effects effects' : List Effect}

theorem le (h : Ascending commitment i effects j) : i ≤ j := by
  induction h with
  | nil hle => exact hle
  | ring hle _ ih => omega
  | skip _ _ ih => exact ih

theorem mono (h : Ascending commitment i effects j) (hle : i' ≤ i) :
    Ascending commitment i' effects j := by
  induction h generalizing i' with
  | nil hij => exact .nil (hle.trans hij)
  | ring hik hrest _ => exact .ring (hle.trans hik) hrest
  | skip hne _ ih => exact .skip hne (ih hle)

theorem append (h : Ascending commitment i effects j) (h' : Ascending commitment j effects' k) :
    Ascending commitment i (effects ++ effects') k := by
  induction h with
  | nil hle => exact h'.mono hle
  | ring hle _ ih => exact .ring hle (ih h')
  | skip hne _ ih => exact .skip hne (ih h')

theorem of_append (h : Ascending commitment i (effects ++ effects') j) :
    Ascending commitment i effects j := by
  induction effects generalizing i with
  | nil => exact .nil h.le
  | cons effect effects ih =>
    cases h with
    | ring hle hrest => exact .ring hle (ih hrest)
    | skip hne hrest => exact .skip hne (ih hrest)

end Ascending

/-- Effects that take the index from `i` to `j`. -/
structure Advances (cfg : Config) (i : ℕ) (effects : List Effect) (j : ℕ) : Prop where
  count : i + (sentRecords (commands effects)).length = j
  ascending : ∀ commitment, cfg.Stores commitment → Ascending commitment i effects j

/-- Neither a stream nor the journal gets a message. -/
def Effect.Quiet : Effect → Prop
  | .ring .. => False
  | .writer (.pushMessage ..) => False
  | _ => True

section Advances

variable {cfg : Config} {i j k slot slotHead : ℕ} {effects effects' : List Effect}

theorem Advances.append (h : Advances cfg i effects j) (h' : Advances cfg j effects' k) :
    Advances cfg i (effects ++ effects') k where
  count := by
    rw [commands_append, sentRecords_append, List.length_append, ← h'.count, ← h.count,
      Nat.add_assoc]
  ascending commitment hstores :=
    (h.ascending commitment hstores).append (h'.ascending commitment hstores)

theorem Advances.quiet (hquiet : ∀ effect ∈ effects, effect.Quiet) : Advances cfg i effects i := by
  induction effects with
  | nil => exact ⟨rfl, fun _ _ => .nil le_rfl⟩
  | cons effect effects ih =>
    have hrest := ih fun e he => hquiet e (List.mem_cons_of_mem _ he)
    have heffect := hquiet effect List.mem_cons_self
    refine ⟨?_, fun commitment hstores => .skip ?_ (hrest.ascending commitment hstores)⟩
    · have hnone : sentRecords (commands (effect :: effects)) = sentRecords (commands effects) := by
        cases effect with
        | writer command =>
          cases command with
          | pushMessage => exact heffect.elim
          | restorePayload => rfl
          | removeReplay => rfl
        | received => rfl
        | ring => rfl
        | replayFromSlot => rfl
      rw [hnone]
      exact hrest.count
    · rintro slot message replayIndex rfl
      exact heffect

/-- Messages on the streams. -/
theorem advances_pushStored (l : List (CommitmentLevel × ParsedMessage)) : ∀ index,
    Advances cfg index (pushStored cfg slot slotHead index l).2
      (pushStored cfg slot slotHead index l).1 := by
  induction l with
  | nil =>
    intro index
    exact .quiet fun e he => by cases he
  | cons p l ih =>
    intro index
    obtain ⟨level, message⟩ := p
    unfold pushStored
    dsimp only
    split
    · obtain ⟨hcount, hascending⟩ := ih (index + 1)
      refine ⟨?_, fun commitment hstores => .skip (by simp) ?_⟩
      · rw [← hcount]
        show index + ((sentRecords (commands
          (pushStored cfg slot slotHead (index + 1) l).2)).length + 1) = _
        omega
      · have hrest := hascending commitment hstores
        by_cases hlevel : level = commitment
        · subst hlevel
          exact .ring le_rfl hrest
        · refine .skip ?_ (hrest.mono (Nat.le_succ index))
          rintro slot message replayIndex heq
          cases heq
          exact hlevel rfl
    · rename_i hno
      obtain ⟨hcount, hascending⟩ := ih index
      refine ⟨hcount, fun commitment hstores => .skip ?_ (hascending commitment hstores)⟩
      rintro slot message replayIndex heq
      cases heq
      exact hno hstores

theorem advances_route (cb : Option (Option BankId)) (st : PushState) (message : ParsedMessage) :
    Advances cfg st.sender.index (st.route cfg slot slotHead cb message).2
      (st.route cfg slot slotHead cb message).1.sender.index := by
  unfold PushState.route
  dsimp only
  split
  · refine (advances_pushStored _ _).append ?_
    have hreplay : ∀ n, Advances cfg n [.replayFromSlot (slot + 1)] n := fun n =>
      .quiet fun e he => by
        rw [List.mem_singleton.mp he]
        trivial
    exact (hreplay _).append (advances_pushStored _ _)
  · exact (advances_pushStored _ _).append (advances_pushStored _ _)

theorem advances_publish {cb : Option (Option BankId)} {st st' : PushState} {message : ParsedMessage}
    (h : st.publish cfg slot slotHead cb message = .ok (st', effects)) :
    Advances cfg st.sender.index effects st'.sender.index := by
  unfold PushState.publish at h
  split at h
  · obtain ⟨rfl, rfl⟩ := Prod.ext_iff.mp (Except.ok.inj h)
    exact advances_route cb st message
  · split at h
    · cases h
    · split at h
      · cases h
        refine .quiet fun e he => ?_
        split at he
        · rw [List.mem_singleton.mp he]
          trivial
        · cases he
      · obtain ⟨rfl, rfl⟩ := Prod.ext_iff.mp (Except.ok.inj h)
        exact advances_route cb { st with replay := { st.replay with messages := some _ } } message

theorem advances_run_publish {cb : Option (Option BankId)} {l : List ParsedMessage} :
    ∀ {st st' : PushState} {effects : List Effect},
    run (PushState.publish cfg slot slotHead cb) st l = .ok (st', effects) →
    Advances cfg st.sender.index effects st'.sender.index := by
  induction l with
  | nil =>
    intro st st' effects h
    simp only [run_nil, Except.ok.injEq, Prod.mk.injEq] at h
    obtain ⟨rfl, rfl⟩ := h
    exact .quiet fun e he => by cases he
  | cons message l ih =>
    intro st st' effects h
    obtain ⟨st₁, eff₁, eff₂, h₁, h₂, rfl⟩ := run_cons_ok.mp h
    exact (advances_publish h₁).append (ih h₂)

theorem advances_pushMessage {sourceName : SourceName} {st st' : PushState} {message : Message}
    (h : st.pushMessage cfg slot sourceName message = .ok (st', effects)) :
    Advances cfg st.sender.index effects st'.sender.index := by
  unfold PushState.pushMessage at h
  dsimp only at h
  split at h
  · cases h
  · split at h
    · cases h
    · rename_i hrun
      cases h
      have hreceived : ∀ m, Advances cfg st.sender.index [.received sourceName m] st.sender.index :=
        fun m => .quiet fun e he => by
          rw [List.mem_singleton.mp he]
          trivial
      have hpublish := advances_run_publish hrun
      exact (hreceived _).append hpublish

theorem quiet_trimMessages {first : Slot} {l : List (Σ _ : Slot, ReplayInfo)} :
    ∀ e ∈ Sender.trimMessages first l, e.Quiet := by
  induction l with
  | nil =>
    intro e he
    cases he
  | cons p l ih =>
    intro e he
    unfold Sender.trimMessages at he
    split at he
    · rcases List.mem_cons.mp he with rfl | he
      · trivial
      · exact ih e he
    · cases he

/-- **A push** takes the index of the sender on by its records. -/
theorem advances_push {s s' : Sender} {input : PushInput} (h : s.push cfg input = .ok (s', effects)) :
    Advances cfg s.index effects s'.index := by
  refine Sender.push_rule (P := fun s' effects => Advances cfg s.index effects s'.index)
    (L := fun st effects _ => Advances cfg s.index effects st.sender.index) ?_ ?_ ?_ ?_ h
  · exact .quiet fun e he => by cases he
  · intro s₁ messages _ _ hdedup
    have hindex : s₁.index = s.index := by
      rcases Sender.dedupMessage_cases hdedup with ⟨-, rfl, -⟩ | ⟨-, dedup, -, rfl⟩ <;> rfl
    refine ⟨fun _ => ?_, fun _ => ?_⟩
    · rw [hindex]
      exact .quiet fun e he => by cases he
    · show Advances cfg s.index [] s₁.index
      rw [hindex]
      exact .quiet fun e he => by cases he
  · intro st eff m ms st' eff' heff hstep
    exact heff.append (advances_pushMessage hstep)
  · intro st eff heff
    refine heff.append ?_
    unfold PushState.finish Sender.retain
    dsimp only
    split
    · split <;> exact .quiet quiet_trimMessages
    · split <;> exact .quiet fun e he => by cases he

end Advances

/-! ### The floor of a ring -/

section Floor

variable {size : ParsedMessage → ℕ} {k n position base next : ℕ} {log log' : List Item}
  {s s' s'' : SenderShared} {slot : Slot} {message : ParsedMessage} {replayIndex : Option ℕ}
  {removed removed' : Option Slot}

/-- The floor of the ring stays, or it is after a record that has left. -/
structure FloorMoves (log : List Item) (s s' : SenderShared) : Prop where
  head_le : s.head ≤ s'.head
  floor : s'.shared.replayFloor = s.shared.replayFloor ∨
    ∃ item ∈ log, s'.shared.replayFloor = item.replayIndex + 1 ∧ item.pos < s'.head

theorem FloorMoves.refl : FloorMoves log s s := ⟨le_rfl, Or.inl rfl⟩

theorem FloorMoves.trans (h : FloorMoves log s s') (h' : FloorMoves log s' s'') :
    FloorMoves log s s'' := by
  refine ⟨h.head_le.trans h'.head_le, ?_⟩
  rcases h'.floor with hsame | hraised
  · rw [hsame]
    refine h.floor.imp_right ?_
    rintro ⟨item, hitem, hfloor, hpos⟩
    exact ⟨item, hitem, hfloor, hpos.trans_le h'.head_le⟩
  · exact Or.inr hraised

/-- The oldest message leaves. -/
theorem RingInv.floorMoves (h : RingInv size k log s) {old : Item}
    (hold : log[s.head - (2 ^ k + 1)]? = some old) (hhead : s'.head = s.head + 1)
    (hfloor : s'.shared.replayFloor = (s.shared.raiseFloor old).replayFloor) :
    FloorMoves log s s' := by
  refine ⟨by omega, ?_⟩
  unfold SharedChannel.raiseFloor at hfloor
  split at hfloor
  · exact Or.inl hfloor
  · refine Or.inr ⟨old, List.mem_of_getElem? hold, hfloor, ?_⟩
    have hpos := h.pos _ old hold
    have hfirst := h.keeps.first_le
    omega

theorem RingInv.floorMoves_dropExtra : ∀ {n : ℕ} {s : SenderShared} {removed : Option Slot},
    RingInv size k log s → s.dropExtra size n removed = some (s', removed') → FloorMoves log s s'
  | 0, s, removed, _, h => by
    cases h
    exact .refl
  | n + 1, s, removed, hinv, h => by
    unfold SenderShared.dropExtra at h
    split at h
    · rename_i hextra
      split at h
      · cases h
      · rename_i s₁ removed₁ hdrop
        have hlt : s.head < s.tail := (of_decide_eq_true hextra).2
        obtain ⟨old, hold, hhead, hfloor⟩ := hinv.replayFloor_dropHead hlt hdrop
        exact (hinv.floorMoves hold hhead hfloor).trans
          (floorMoves_dropExtra (hinv.dropHead hlt hdrop).1 h)
    · cases h
      exact .refl

theorem RingInv.floorMoves_push (h : RingInv size k log s)
    (hpush : s.push size slot message replayIndex = some s') :
    FloorMoves (log ++ [s.newItem slot message replayIndex]) s s' := by
  unfold SenderShared.push at hpush
  cases hstore : s.store size slot message replayIndex with
  | mk s₁ removed₁ =>
    rw [hstore] at hpush
    dsimp only at hpush
    split at hpush
    · cases hpush
    · rename_i s₂ removed₂ hdrop
      cases hpush
      have hfirst : FloorMoves (log ++ [s.newItem slot message replayIndex]) s s₁ := by
        rcases h.replayFloor_store hstore with ⟨hhead, hfloor⟩ | ⟨old, hold, hhead, hfloor⟩
        · exact ⟨hhead.ge, Or.inl hfloor⟩
        · obtain ⟨hle, hmoves⟩ := h.floorMoves hold hhead hfloor
          refine ⟨hle, hmoves.imp_right ?_⟩
          rintro ⟨item, hitem, hrest⟩
          exact ⟨item, List.mem_append_left _ hitem, hrest⟩
      refine (hfirst.trans ((h.store hstore).1.floorMoves_dropExtra hdrop)).trans ⟨?_, ?_⟩
      · exact (s₂.publish_fields slot removed₂).1.ge
      · left
        cases removed₂ <;> rfl

/-- A ring whose records are in the order of their indices. The floor is not above `base`, where the
process or the last live epoch began, or it is after a record that has left. -/
structure StreamHead (size : ParsedMessage → ℕ) (k base next : ℕ) (log : List Item) (s : SenderShared) :
    Prop where
  state : RingState size k log s
  sorted : log.Pairwise fun a b => a.replayIndex < b.replayIndex
  lt_next : ∀ item ∈ log, item.replayIndex < next
  floor : s.shared.replayFloor ≤ base ∨
    ∃ item ∈ log, s.shared.replayFloor = item.replayIndex + 1 ∧ item.pos < s.head

namespace StreamHead

theorem new {maxBytes floor : ℕ} (hle : floor ≤ base) : StreamHead size k base next []
    (.new { SharedChannel.new (2 ^ k) with replayFloor := floor } (2 ^ k) maxBytes) where
  state := by
    have hring : RingInv size k [] (.new (.new (2 ^ k)) (2 ^ k) maxBytes) := .new
    exact ⟨hring.congr rfl rfl rfl rfl rfl, ⟨rfl, rfl⟩, fun h => absurd rfl h, fun _ => rfl⟩
  sorted := .nil
  lt_next := by
    intro item hitem
    cases hitem
  floor := Or.inl hle

variable (h : StreamHead size k base next log s)

include h

theorem mono {next' : ℕ} (hle : next ≤ next') : StreamHead size k base next' log s :=
  ⟨h.state, h.sorted, fun item hitem => (h.lt_next item hitem).trans_le hle, h.floor⟩

theorem push {index : ℕ} (hle : next ≤ index)
    (hpush : s.push size slot message (some index) = some s') :
    StreamHead size k base (index + 1) (log ++ [s.newItem slot message (some index)]) s' := by
  obtain ⟨s₁, hpush₁, -, hstate⟩ := h.state.push slot message (some index)
  obtain rfl := Option.some.inj (hpush₁.symm.trans hpush)
  refine ⟨hstate, ?_, ?_, ?_⟩
  · refine List.pairwise_append.mpr ⟨h.sorted, List.pairwise_singleton _ _, ?_⟩
    intro item hitem new hnew
    rw [List.mem_singleton.mp hnew]
    exact (h.lt_next item hitem).trans_le hle
  · intro item hitem
    rcases List.mem_append.mp hitem with hitem | hitem
    · exact ((h.lt_next item hitem).trans_le hle).trans (Nat.lt_succ_self _)
    · rw [List.mem_singleton.mp hitem]
      exact Nat.lt_succ_self _
  · obtain ⟨hhead, hfloor⟩ := h.state.ring.floorMoves_push hpush
    rcases hfloor with hsame | hraised
    · rw [hsame]
      refine h.floor.imp_right ?_
      rintro ⟨item, hitem, heq, hpos⟩
      exact ⟨item, List.mem_append_left _ hitem, heq, hpos.trans_le hhead⟩
    · exact Or.inr hraised

theorem beginLiveEpoch {base' index : ℕ} (hle : index ≤ base') :
    StreamHead size k base' next log (s.beginLiveEpoch index) :=
  ⟨h.state.beginLiveEpoch index, h.sorted, h.lt_next, Or.inl hle⟩

end StreamHead

end Floor

/-! ### The search -/

/-- The position is the first in the ring of a record from the index on, or the next one if there is
none. `items` are the records of the stream. -/
def SenderShared.IsFirstFrom (s : SenderShared) (items : List Item) (index position : ℕ) : Prop :=
  IsLeast (insert (s.shared.tail + 1)
    {p | ∃ item ∈ items, s.Has item ∧ index ≤ item.replayIndex ∧ item.pos = p}) position

/-- A record from the index on has left the ring. -/
def SenderShared.HasEvicted (s : SenderShared) (items : List Item) (index : ℕ) : Prop :=
  ∃ item ∈ items, index ≤ item.replayIndex ∧ item.pos < s.shared.head

section Search

variable {size : ParsedMessage → ℕ} {k n position base next : ℕ} {log : List Item} {s : SenderShared}

/-- What the search finds in a ring whose records are in the order of their indices. -/
theorem StreamHead.found (h : StreamHead size k base next log s)
    (hfound : s.shared.getHeadByReplayIndex n = some position) : s.IsFirstFrom log n position := by
  obtain ⟨hhead, htail⟩ := h.state.published
  obtain ⟨-, hle, hle', hplace⟩ :=
    h.state.ring.headByReplayIndex hhead htail h.sorted hfound
  have hlen := h.state.ring.keeps.tail_eq
  have hfirst := h.state.ring.keeps.first_le
  constructor
  · rcases Nat.lt_or_ge s.tail position with hlt | hge
    · left
      omega
    · -- the cell of the position has a record of the stream
      right
      have hitem := h.state.ring.keeps.kept position hle hge
      rw [← SharedChannel.item_eq h.state.ring.mask] at hitem
      have hpos := h.state.ring.pos _ _ hitem
      have heq : (s.shared.item position).pos = position := by omega
      refine ⟨_, List.mem_of_getElem? hitem, ⟨?_, ?_, by rw [heq]⟩, ?_, heq⟩
      · rw [heq]
        exact hle
      · rw [heq, htail]
        exact hge
      · by_contra hlt
        have := (hplace _ _ hitem (by omega)).mpr (not_le.mp hlt)
        omega
  · rintro q (rfl | ⟨item, hitem, ⟨hq, -, -⟩, hindex, rfl⟩)
    · omega
    · obtain ⟨i, hi⟩ := List.getElem?_of_mem hitem
      have hpos := h.state.ring.pos i item hi
      by_contra hlt
      have := (hplace i item hi (by omega)).mp (by omega)
      omega

/-- Why nothing is found. -/
theorem StreamHead.not_found (h : StreamHead size k base next log s)
    (hnone : s.shared.getHeadByReplayIndex n = none) : s.HasEvicted log n ∨ n < base := by
  unfold SharedChannel.getHeadByReplayIndex at hnone
  split at hnone
  · rename_i hlt
    rcases h.floor with hfloor | ⟨item, hitem, hfloor, hpos⟩
    · exact Or.inr (hlt.trans_le hfloor)
    · refine Or.inl ⟨item, hitem, ?_, ?_⟩
      · omega
      · rw [h.state.published.1]
        exact hpos
  · cases hnone

end Search

/-! ### The indices of a process -/

/-- The next index of the journal, after the events. -/
def journalIndex (events : List NodeEvent) : ℕ :=
  startIndex events + (sentRecords (sentCommands (sinceStart events))).length

def NodeEvent.isEpoch : NodeEvent → Bool
  | epoch => true
  | _ => false

/-- The next index of the journal when the last live epoch began. -/
def epochIndex (events : List NodeEvent) : ℕ := journalIndex (events.rdropWhile (!·.isEpoch))

section Indices

variable {events out : List NodeEvent}

theorem journalIndex_append (h : Continues out) :
    journalIndex (events ++ out) =
      journalIndex events + (sentRecords (sentCommands out)).length := by
  unfold journalIndex
  rw [startIndex_append h, sinceStart_append h, sentCommands_append, sentRecords_append,
    List.length_append, Nat.add_assoc]

theorem epochIndex_append (h : ∀ e ∈ out, e.isEpoch = false) :
    epochIndex (events ++ out) = epochIndex events := by
  unfold epochIndex
  induction out using List.reverseRecOn with
  | nil => rw [List.append_nil]
  | append_singleton out e ih =>
    have he := h e (List.mem_append_right _ (List.mem_singleton.mpr rfl))
    rw [← List.append_assoc, List.rdropWhile_concat_pos _ _ _ (by rw [he]; rfl)]
    exact ih fun e he => h e (List.mem_append_left _ he)

theorem epochIndex_epoch : epochIndex (events ++ [.epoch]) = journalIndex events := by
  unfold epochIndex
  rw [List.rdropWhile_concat_neg _ _ _ (by decide),
    journalIndex_append fun e he => by rw [List.mem_singleton.mp he]; rfl]
  rfl

theorem NodeEvent.isEpoch_of_channelEvent? {e : NodeEvent}
    (h : ∀ commitment, e.channelEvent? commitment = none) : e.isEpoch = false := by
  cases e with
  | epoch => exact absurd (h .processed) (by simp [channelEvent?])
  | sent => rfl
  | stored => rfl
  | collected => rfl
  | committed => rfl
  | started => rfl

end Indices

/-! ### Every ring of a process -/

/-- The rings of a node whose streams are in the journal. -/
structure HeadView (cfg : ConfigNode) (s : Node) (events : List NodeEvent) : Prop where
  index : journalIndex events = s.sender.index
  streams : ∀ k, nextPowerOfTwo cfg.ring.maxMessages = 2 ^ k → ∀ commitment,
    cfg.channel.Stores commitment →
    StreamHead cfg.size k (max (startIndex events) (epochIndex events)) s.sender.index
      (storedItems (streamEvents commitment events)) (s.streams commitment)

section Process

variable {cfg : ConfigNode} {k i j : ℕ} {s s' : Node} {events out : List NodeEvent}
  {streams streams' : CommitmentLevel → SenderShared} {effects : List Effect}
  {commitment : CommitmentLevel} {base : ℕ} {log : List Item}

theorem isEpoch_of_perform : ∀ {streams streams' : CommitmentLevel → SenderShared}
    {out : List NodeEvent}, run (Node.perform cfg) streams effects = .ok (streams', out) →
    ∀ e ∈ out, e.isEpoch = false := by
  induction effects with
  | nil =>
    intro streams streams' out h e he
    simp only [run_nil, Except.ok.injEq, Prod.mk.injEq] at h
    rw [← h.2] at he
    cases he
  | cons effect effects ih =>
    intro streams streams' out h e he
    obtain ⟨streams₁, out₁, out₂, h₁, h₂, rfl⟩ := run_cons_ok.mp h
    rcases List.mem_append.mp he with he | he
    · cases effect with
      | received =>
        cases h₁
        cases he
      | replayFromSlot =>
        cases h₁
        cases he
      | writer command =>
        cases h₁
        rw [List.mem_singleton.mp he]
        rfl
      | ring c slot message replayIndex =>
        simp only [Node.perform] at h₁
        split at h₁
        · cases h₁
        · cases h₁
          rw [List.mem_singleton.mp he]
          rfl
    · exact ih h₂ e he

/-- Effects on the ring of a commitment. -/
theorem StreamHead.perform (hascending : Ascending commitment i effects j) :
    ∀ {log : List Item} {streams streams' : CommitmentLevel → SenderShared} {out : List NodeEvent},
    StreamHead cfg.size k base i log (streams commitment) →
    run (Node.perform cfg) streams effects = .ok (streams', out) →
    StreamHead cfg.size k base j
      (log ++ storedItems (out.filterMap (·.channelEvent? commitment))) (streams' commitment) := by
  induction hascending with
  | nil hle =>
    intro log streams streams' out h hrun
    simp only [run_nil, Except.ok.injEq, Prod.mk.injEq] at hrun
    obtain ⟨rfl, rfl⟩ := hrun
    simpa [storedItems] using h.mono hle
  | @ring i index j slot message effects hle _ ih =>
    intro log streams streams' out h hrun
    obtain ⟨streams₁, out₁, out₂, h₁, h₂, rfl⟩ := run_cons_ok.mp hrun
    simp only [Node.perform] at h₁
    split at h₁
    · cases h₁
    · rename_i stream hpush
      cases h₁
      have hnext := @ih (log ++ [(streams commitment).newItem slot message (some index)]) _ _ _
        (by rw [Function.update_self]; exact h.push hle hpush) h₂
      simpa [storedItems, NodeEvent.channelEvent?, ChannelEvent.item?, SenderShared.newItem] using hnext
  | @skip i j effect effects hne _ ih =>
    intro log streams streams' out h hrun
    obtain ⟨streams₁, out₁, out₂, h₁, h₂, rfl⟩ := run_cons_ok.mp hrun
    -- another stream, or none
    have hother : streams₁ commitment = streams commitment ∧
        out₁.filterMap (·.channelEvent? commitment) = [] := by
      cases effect with
      | received =>
        cases h₁
        exact ⟨rfl, rfl⟩
      | replayFromSlot =>
        cases h₁
        exact ⟨rfl, rfl⟩
      | writer command =>
        cases h₁
        exact ⟨rfl, rfl⟩
      | ring c slot message replayIndex =>
        simp only [Node.perform] at h₁
        split at h₁
        · cases h₁
        · cases h₁
          have hc : c ≠ commitment := by
            rintro rfl
            exact hne slot message replayIndex rfl
          exact ⟨Function.update_of_ne (Ne.symm hc) _ _, by simp [NodeEvent.channelEvent?, hc]⟩
    have hnext := ih (hother.1 ▸ h) h₂
    rwa [List.filterMap_append, hother.2, List.nil_append]

/-- A part of the effects of a source event. -/
theorem HeadView.perform (h : HeadView cfg s events) {input : PushInput} {sender : Sender}
    {done rest : List Effect}
    (hpush : s.sender.push (Node.config cfg s.hasher) input = .ok (sender, done ++ rest))
    (hrun : run (Node.perform cfg) s.streams done = .ok (streams, out))
    (hk : nextPowerOfTwo cfg.ring.maxMessages = 2 ^ k) (hstores : cfg.channel.Stores commitment) :
    StreamHead cfg.size k (max (startIndex (events ++ out)) (epochIndex (events ++ out)))
      sender.index (storedItems (streamEvents commitment (events ++ out))) (streams commitment) := by
  obtain ⟨-, -, -, hcont⟩ := run_perform hrun
  rw [startIndex_append hcont, epochIndex_append (isEpoch_of_perform hrun),
    streamEvents_append commitment hcont, storedItems_append]
  exact .perform ((advances_push hpush).ascending commitment hstores).of_append
    (h.streams k hk commitment hstores) hrun

/-- A source event. -/
theorem HeadView.push (h : HeadView cfg s events) {input : PushInput} {sender : Sender}
    {queue : List WriterCommand}
    (hpush : s.sender.push (Node.config cfg s.hasher) input = .ok (sender, effects))
    (hrun : run (Node.perform cfg) s.streams effects = .ok (streams, out)) :
    HeadView cfg { s with sender, streams, queue } (events ++ out) := by
  obtain ⟨hsent, -, -, hcont⟩ := run_perform hrun
  refine ⟨?_, fun k hk commitment hstores => ?_⟩
  · rw [journalIndex_append hcont, h.index, hsent]
    exact (advances_push hpush).count
  · have hall : s.sender.push (Node.config cfg s.hasher) input = .ok (sender, effects ++ []) := by
      rwa [List.append_nil]
    exact h.perform hall hrun hk hstores

/-- A live epoch: the floor moves to the next index. -/
theorem HeadView.beginLiveEpoch (h : HeadView cfg s events) (disk : Disk) :
    HeadView cfg { s with
        disk
        sender := s.sender.beginLiveEpoch
        streams := fun commitment => (s.streams commitment).beginLiveEpoch s.sender.index }
      (events ++ [.epoch]) := by
  have hcont : Continues [NodeEvent.epoch] := fun e he => by rw [List.mem_singleton.mp he]; rfl
  refine ⟨?_, fun k hk commitment hstores => ?_⟩
  · rw [journalIndex_append hcont, h.index]
    rfl
  · rw [startIndex_append hcont, epochIndex_epoch, h.index, streamEvents_append commitment hcont,
      storedItems_append]
    have hlog : storedItems ([NodeEvent.epoch].filterMap (·.channelEvent? commitment)) = [] := rfl
    rw [hlog, List.append_nil]
    exact (h.streams k hk commitment hstores).beginLiveEpoch (le_max_right _ _)

/-- A step that sends nothing and leaves the sender and the streams alone. -/
theorem HeadView.quiet (h : HeadView cfg s events) (hsender : s'.sender = s.sender)
    (hstreams : s'.streams = s.streams) (hcont : Continues out) (hsent : sentCommands out = [])
    (hout : ∀ e ∈ out, ∀ commitment, e.channelEvent? commitment = none) :
    HeadView cfg s' (events ++ out) := by
  refine ⟨?_, fun k hk commitment hstores => ?_⟩
  · rw [journalIndex_append hcont, hsent, hsender]
    exact h.index
  · rw [startIndex_append hcont,
      epochIndex_append fun e he => NodeEvent.isEpoch_of_channelEvent? (hout e he),
      streamEvents_append commitment hcont,
      List.filterMap_eq_nil_iff.mpr fun e he => hout e he commitment, List.append_nil, hsender,
      hstreams]
    exact h.streams k hk commitment hstores

/-- A process that starts. -/
theorem HeadView.boot {hasher : RandomState} {disk : Disk} {writer : SegmentWriter} {sender : Sender}
    (hown : sinceStart events = []) (hstart : startIndex events = sender.index) :
    HeadView cfg (Node.boot cfg hasher disk writer sender) events := by
  refine ⟨?_, fun k hk commitment hstores => ?_⟩
  · rw [journalIndex, hown, hstart]
    rfl
  · rw [hstart, streamEvents, hown]
    unfold Node.boot
    dsimp only
    rw [hk]
    exact .new (le_max_left _ _)

/-- A step within a process. -/
theorem headView_step {action : NodeAction} (h : HeadView cfg s events)
    (haction : ∀ hasher, action ≠ .restart hasher) (hstep : Node.step cfg s action = .ok (s', out)) :
    HeadView cfg s' (events ++ out) := by
  have hcollected : ∀ {input : CollectorInput} {queue : List WriterCommand},
      s.collected input queue cfg = .ok (s', out) → HeadView cfg s' (events ++ out) := by
    intro input queue hstep
    unfold Node.collected at hstep
    split at hstep
    · cases hstep
    · cases hstep
      refine h.quiet rfl rfl ?_ (List.filterMap_eq_nil_iff.mpr ?_) ?_
      · intro e he
        obtain ⟨output, -, rfl⟩ := List.mem_map.mp he
        rfl
      · intro e he
        obtain ⟨output, -, rfl⟩ := List.mem_map.mp he
        rfl
      · intro e he commitment
        obtain ⟨output, -, rfl⟩ := List.mem_map.mp he
        rfl
  -- a step without events
  have hquiet : ∀ {s' : Node}, s'.sender = s.sender → s'.streams = s.streams →
      HeadView cfg s' (events ++ []) := fun hsender hstreams =>
    h.quiet hsender hstreams (fun e he => by cases he) rfl fun e he => by cases he
  cases action with
  | push input =>
    simp only [Node.step] at hstep
    split at hstep
    · cases hstep
    · split at hstep
      · cases hstep
      · rename_i hpush
        split at hstep
        · cases hstep
        · rename_i hrun
          cases hstep
          exact h.push hpush hrun
  | beginLiveEpoch =>
    simp only [Node.step] at hstep
    split at hstep
    · cases hstep
    · cases hstep
      exact h.beginLiveEpoch _
  | close =>
    cases hstep
    exact hquiet rfl rfl
  | collect =>
    simp only [Node.step] at hstep
    split at hstep
    · exact hcollected hstep
    · split at hstep
      · exact hcollected hstep
      · cases hstep
  | timeout => exact hcollected hstep
  | compressed i =>
    simp only [Node.step] at hstep
    split at hstep
    · cases hstep
    · cases hstep
      exact hquiet rfl rfl
  | write =>
    simp only [Node.step] at hstep
    split at hstep
    · cases hstep
      exact hquiet rfl rfl
    · split at hstep
      · cases hstep
      · cases hstep
        refine h.quiet rfl rfl ?_ rfl ?_
        · intro e he
          rw [List.mem_singleton.mp he]
          rfl
        · intro e he commitment
          rw [List.mem_singleton.mp he]
          rfl
  | restart hasher => exact absurd rfl (haction hasher)

/-- Every run of processes. -/
theorem headView_run {hasher : RandomState} {actions : List ProcessAction} {p : Process}
    (h : run Process.step (.new cfg hasher) actions = .ok (p, events)) :
    HeadView p.cfg p.node events := by
  refine Process.run_rule ?_ ?_ ?_ h
  · exact fun cfg hasher => .boot rfl rfl
  · exact fun cfg s events action s' out hview haction hstep => headView_step hview haction hstep
  · intro cfg₀ cfg s events hasher s' _ hstart
    obtain ⟨catalog, writer, sender, -, -, rfl⟩ := Node.start_eq_ok hstart
    exact .boot (sinceStart_started _) (startIndex_started _)

/-- **The lookup of a journal index.** In every ring of a stored commitment that a client can find, the
position found is the first one of a record from the index on. Nothing is found only when such a record
has left the ring, or the index is before the start of the process or of the last live epoch. -/
theorem head_by_replay_index {hasher : RandomState} {actions : List ProcessAction} {p : Process}
    (h : run Process.step (.new cfg hasher) actions = .ok (p, events))
    (hreaches : p.Reaches streams out) (hstores : p.cfg.channel.Stores commitment) (index : ℕ) :
    (∀ position, (streams commitment).shared.getHeadByReplayIndex index = some position →
      (streams commitment).IsFirstFrom (storedItems (streamEvents commitment (events ++ out))) index
        position) ∧
    ((streams commitment).shared.getHeadByReplayIndex index = none →
      (streams commitment).HasEvicted (storedItems (streamEvents commitment (events ++ out))) index ∨
        index < startIndex (events ++ out) ∨ index < epochIndex (events ++ out)) := by
  have hview := headView_run h
  obtain ⟨k, hk⟩ := exists_nextPowerOfTwo p.cfg.ring.maxMessages
  obtain ⟨next, hstream⟩ : ∃ next, StreamHead p.cfg.size k
      (max (startIndex (events ++ out)) (epochIndex (events ++ out))) next
      (storedItems (streamEvents commitment (events ++ out))) (streams commitment) := by
    rcases hreaches with ⟨rfl, rfl⟩ | ⟨-, input, sender, done, rest, hpush, hrun⟩
    · rw [List.append_nil]
      exact ⟨_, hview.streams k hk commitment hstores⟩
    · exact ⟨_, hview.perform hpush hrun hk hstores⟩
  refine ⟨fun position => hstream.found, fun hnone => ?_⟩
  rw [← lt_max_iff]
  exact hstream.not_found hnone

end Process

/-- Six statuses, each recorded for the three commitments, in rings of four: the first two have left the
processed ring. -/
theorem head_by_replay_index_wrapped : ∃ p events,
    run Process.step (.new .small List.length)
      ((List.range' 5 6).map fun slot =>
        .act (.push ⟨false, "a", .slot ⟨slot, .slotProcessed, none, []⟩⟩)) = .ok (p, events) ∧
      (p.node.streams .processed).IsFirstFrom (storedItems (streamEvents .processed events)) 9 8 ∧
      (p.node.streams .processed).shared.getHeadByReplayIndex 3 = none ∧
      ((p.node.streams .processed).HasEvicted (storedItems (streamEvents .processed events)) 3 ∨
        3 < startIndex events ∨ 3 < epochIndex events) := by
  obtain ⟨p, events, hrun, hfound, hnone, hstores⟩ : ∃ p events,
      run Process.step (.new .small List.length)
        ((List.range' 5 6).map fun slot =>
          .act (.push ⟨false, "a", .slot ⟨slot, .slotProcessed, none, []⟩⟩)) = .ok (p, events) ∧
        (p.node.streams .processed).shared.getHeadByReplayIndex 9 = some 8 ∧
        (p.node.streams .processed).shared.getHeadByReplayIndex 3 = none ∧
        p.cfg.channel.Stores .processed := Process.exists_reached (by decide +kernel)
  have hlookup := head_by_replay_index hrun (Or.inl ⟨rfl, rfl⟩) hstores
  rw [List.append_nil] at hlookup
  exact ⟨p, events, hrun, (hlookup 9).1 8 hfound, hnone, (hlookup 3).2 hnone⟩

end Richat
