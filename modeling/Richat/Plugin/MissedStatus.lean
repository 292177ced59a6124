import Mathlib.Logic.Relation
import Richat.Plugin.ChannelSlots

/-!
# Missed statuses

A push of a status makes up for the ancestors of its slot that have missed it. The walk goes along the parents
that are stored before the message, and stops at the first ancestor that has the status. So it relies on
`LinksClosed`: a slot gets a status after its known parent. A walk keeps this (`Chain.order`), a new link between
two slots may not: `NewLinks` says which messages make only links that do.
-/

namespace Richat.Plugin

open Lib

variable {E C : Type}

/-! ### Statuses and links -/

/-- The message is the status of the slot. -/
def HasStatus (status : SlotStatus) (t : Slot) : ProtobufMessage E C → Prop
  | .slot slot _ status' _ => slot.toNat = t ∧ status' = status
  | _ => False

deriving instance DecidableEq for SlotStatus

instance (status : SlotStatus) (t : Slot) :
    (message : ProtobufMessage E C) → Decidable (HasStatus status t message)
  | .slot slot _ status' _ => inferInstanceAs (Decidable (slot.toNat = t ∧ status' = status))
  | .account .. | .transaction .. | .entry .. | .blockMeta .. | .deshredTransaction .. | .contactInfo ..
  | .contactInfoRemoved .. | .blockFooter .. | .entryUpdateParent .. | .deshredUpdateParent .. => .isFalse id

/-- The statuses that ancestors can miss. -/
def SlotStatus.Closing (status : SlotStatus) : Prop := status = .confirmed ∨ status = .rooted

/-- The slot got the status since it is known. -/
def SlotInfo.has (info : SlotInfo) (status : SlotStatus) : Bool :=
  status.isConfirmed && info.confirmed || status.isRooted && info.finalized

/-- The known parent of the slot. -/
def State.parentOf (state : State) (d : Slot) : Option UInt64 := (state.slots.get? d).bind (·.parentSlot)

/-- The slot `a` is known, and it is the known parent of `d`. -/
def Link (state : State) (d a : Slot) : Prop :=
  ∃ parent, state.parentOf d = some parent ∧ parent.toNat = a ∧ state.slots.contains a = true

/-- Whenever `d` got the status, `a` had got it before. -/
def Before (log : List (Pushed E C)) (status : SlotStatus) (a d : Slot) : Prop :=
  ∀ p ∈ log, HasStatus status d p.message → ∃ q ∈ log, HasStatus status a q.message ∧ q.pos < p.pos

/-- The parent that a message carries. -/
def ProtobufMessage.parent : ProtobufMessage E C → Option UInt64
  | .slot _ parent _ _ => parent
  | _ => none

/-- The message makes no link from a slot with a status to one without it: neither to the parent that it carries,
which was not known as the parent, nor from the slots that know its slot as their parent, while it was not known
itself. -/
structure NewLinks (log : List (Pushed E C)) (s : Shared) (message : ProtobufMessage E C) : Prop where
  parent : ∀ d parent, message.getSlot = some d → message.parent = some parent →
    s.state.parentOf d ≠ some parent → s.state.slots.contains parent.toNat = true →
    ∀ status : SlotStatus, status.Closing → Before log status parent.toNat d ∧
      (HasStatus status d message → ∃ q ∈ log, HasStatus status parent.toNat q.message)
  child : ∀ d parent, message.getSlot = some parent.toNat → s.state.slots.contains parent.toNat = false →
    s.state.parentOf d = some parent → ∀ status : SlotStatus, status.Closing →
    Before log status parent.toNat d

/-- The parent of a slot is below it. -/
def ParentBelow (message : ProtobufMessage E C) : Prop :=
  ∀ d parent, message.getSlot = some d → message.parent = some parent → parent.toNat < d

/-- Every slot got its statuses after its known parent. -/
def LinksClosed (log : List (Pushed E C)) (s : Shared) : Prop :=
  ∀ d a, Link s.state d a → ∀ status : SlotStatus, status.Closing → Before log status a d

/-- The flags of the slots, and their parents. -/
structure FlagInv (k : ℕ) (log : List (Pushed E C)) (s : Shared) : Prop where
  ring : RingInv k log s
  head : ∀ t info, s.state.slots.get? t = some info → info.head ≤ s.state.tail
  has : ∀ t info, s.state.slots.get? t = some info → ∀ status : SlotStatus, status.Closing →
    (info.has status = true ↔ ∃ p ∈ log, HasStatus status t p.message ∧ info.head ≤ p.pos)
  below : ∀ d parent, s.state.parentOf d = some parent → parent.toNat < d

/-! ### One message -/

theorem HasStatus.getSlot {status : SlotStatus} {t : Slot} {message : ProtobufMessage E C}
    (h : HasStatus status t message) : message.getSlot = some t := by
  cases message with
  | slot slot parent status' bankId => exact congrArg some h.1
  | _ => exact h.elim

theorem HasStatus.unique {status status' : SlotStatus} {t u : Slot} {message : ProtobufMessage E C}
    (h : HasStatus status t message) (h' : HasStatus status' u message) : status = status' := by
  cases message with
  | slot slot parent status'' bankId => exact h.2.symm.trans h'.2
  | _ => exact h.elim

theorem SlotInfo.has_update {info : SlotInfo} {message : ProtobufMessage E C} {status : SlotStatus}
    (hstatus : status.Closing) :
    (info.update message).has status = true ↔ info.has status = true ∨ ∃ t, HasStatus status t message := by
  cases message with
  | slot slot parent status' bankId =>
    rcases hstatus with rfl | rfl
    · cases status' <;> simp [SlotInfo.has, SlotInfo.update, HasStatus, SlotStatus.isConfirmed,
        SlotStatus.isRooted]
    · cases status' <;> simp [SlotInfo.has, SlotInfo.update, HasStatus, SlotStatus.isConfirmed,
        SlotStatus.isRooted]
  | _ => simp [SlotInfo.update, HasStatus]

theorem SlotInfo.parentSlot_update (info : SlotInfo) (message : ProtobufMessage E C) :
    (info.update message).parentSlot = message.parent.or info.parentSlot := by
  cases message <;> rfl

namespace FlagInv

variable {k : ℕ} {log : List (Pushed E C)} {s s' : Shared} {message : ProtobufMessage E C} {data : Bytes}

theorem new {config : ConfigChannel} (hk : nextPowerOfTwo config.maxMessages = 2 ^ k) :
    FlagInv (E := E) (C := C) k [] (.new config) where
  ring := .new hk
  head := by
    intro t info h
    cases h
  has := by
    intro t info h
    cases h
  below := by
    intro d parent h
    cases h

variable (h : FlagInv k log s)

include h

/-- The slots after a message is stored. -/
theorem has_store (data : Bytes) {t : Slot} {info : SlotInfo}
    (hinfo : ({ s.state with tail := s.state.tail + 1 }.trackSlot message).get? t = some info) :
    info.head ≤ s.state.tail + 1 ∧ ∀ status : SlotStatus, status.Closing → (info.has status = true ↔
      ∃ p ∈ log ++ [s.pushed message data], HasStatus status t p.message ∧ info.head ≤ p.pos) := by
  have hmem : ∀ P : Pushed E C → Prop, (∃ p ∈ log ++ [s.pushed message data], P p) ↔
      (∃ p ∈ log, P p) ∨ P (s.pushed message data) := by
    intro P
    simp [or_and_right, exists_or]
  have hpos : ∀ p ∈ log, ¬ s.state.tail + 1 ≤ p.pos := fun p hp => by
    have := (h.ring.pos_mem hp).2
    omega
  rw [State.trackSlot_get?] at hinfo
  split at hinfo
  · rename_i hslot
    obtain rfl := Option.some.inj hinfo
    rw [SlotInfo.update_head]
    have hnew : ∀ status : SlotStatus, (∃ t', HasStatus status t' message) ↔ HasStatus status t message := by
      refine fun status => ⟨?_, fun ht => ⟨t, ht⟩⟩
      rintro ⟨t', ht'⟩
      obtain rfl := Option.some.inj (ht'.getSlot.symm.trans hslot)
      exact ht'
    rcases hentry : s.state.slots.get? t with _ | entry
    · refine ⟨le_rfl, fun status hstatus => ?_⟩
      have hnone : (⟨s.state.tail + 1, none, false, false⟩ : SlotInfo).has status = false := by
        simp [SlotInfo.has]
      rw [SlotInfo.has_update hstatus, hnew, hmem]
      simp only [Option.getD_none, hnone, Bool.false_eq_true, false_or]
      constructor
      · exact fun ht => .inr ⟨ht, le_rfl⟩
      · rintro (⟨p, hp, -, hle⟩ | ⟨ht, -⟩)
        · exact absurd hle (hpos p hp)
        · exact ht
    · have hle := h.head t entry hentry
      refine ⟨Nat.le_succ_of_le hle, fun status hstatus => ?_⟩
      rw [SlotInfo.has_update hstatus, hnew, hmem, Option.getD_some, h.has t entry hentry status hstatus]
      exact or_congr Iff.rfl ⟨fun ht => ⟨ht, Nat.le_succ_of_le hle⟩, fun ht => ht.1⟩
  · rename_i hne
    have hle := h.head t info hinfo
    refine ⟨Nat.le_succ_of_le hle, fun status hstatus => ?_⟩
    rw [h.has t info hinfo status hstatus, hmem]
    refine ⟨.inl, fun ht => ht.resolve_right ?_⟩
    rintro ⟨ht, -⟩
    exact hne ht.getSlot

omit h in
/-- The known parents after a message is stored. -/
theorem parentOf_store {d : Slot} {parent : UInt64}
    (hparent : (({ s.state with tail := s.state.tail + 1 }.trackSlot message).get? d).bind (·.parentSlot) =
      some parent) :
    s.state.parentOf d = some parent ∨ message.getSlot = some d ∧ message.parent = some parent := by
  rw [State.trackSlot_get?] at hparent
  split at hparent
  · rename_i hslot
    rw [Option.bind_some, SlotInfo.parentSlot_update] at hparent
    rcases Option.or_eq_some_iff.mp hparent with hcarried | ⟨-, hold⟩
    · exact .inr ⟨hslot, hcarried⟩
    · left
      rcases hentry : s.state.slots.get? d with _ | entry
      · rw [hentry] at hold
        cases hold
      · rw [hentry] at hold
        rw [State.parentOf, hentry]
        exact hold
  · exact .inl hparent

omit h in
/-- The byte loop leaves the slots alone, and it does not fail. -/
theorem dropExtra (n : ℕ) : ∀ {s : Shared} (removed : Option Slot), RingInv k log s →
    ∃ r, Shared.dropExtra n s removed = some r ∧ RingInv k log r.1 ∧
      r.1.state.slots = s.state.slots ∧ r.1.state.tail = s.state.tail := by
  induction n with
  | zero =>
    intro s removed h
    exact ⟨_, rfl, h, rfl, rfl⟩
  | succ n ih =>
    intro s removed h
    rw [Shared.dropExtra]
    split
    · rename_i hextra
      have hlt := (of_decide_eq_true hextra).2
      rcases hdrop : s.dropHead removed with _ | r
      · exact absurd hdrop (h.dropHead_ne_none hlt)
      · obtain ⟨hring, hslots, htail, -⟩ := h.dropHead hlt hdrop
        obtain ⟨r', hr', hring', hslots', htail'⟩ := ih r.2 hring
        exact ⟨r', hr', hring', hslots'.trans hslots, htail'.trans htail⟩
    · exact ⟨_, rfl, h, rfl, rfl⟩

/-- A message is pushed: its slot is tracked, and the slots up to some slot are removed. -/
theorem pushMsg (message : ProtobufMessage E C) (data : Bytes) :
    ∃ s' removed, s.pushMsg message data = some s' ∧ RingInv k (log ++ [s.pushed message data]) s' ∧
      s'.state.tail = s.state.tail + 1 ∧
      ∀ t, s'.state.slots.get? t = if ∃ r, removed = some r ∧ t ≤ r then none
        else ({ s.state with tail := s.state.tail + 1 }.trackSlot message).get? t := by
  obtain ⟨htail, -, hslots, -⟩ := s.store_fields message data
  have hstored : RingInv k (log ++ [s.pushed message data]) (s.store message data).1 := h.ring.store.1
  obtain ⟨r, hr, hring, hslots', htail'⟩ := dropExtra
    ((s.store message data).1.state.tail - (s.store message data).1.state.head)
    (s.store message data).2 hstored
  refine ⟨r.1.removeSlots r.2, r.2, ?_, hring.removeSlots, ?_, fun t => ?_⟩
  · rw [Shared.pushMsg, hr]
  · rw [(r.1.removeSlots_fields r.2).2.1, htail', htail]
  · rw [Shared.removeSlots_get?, hslots', hslots]

/-- A message whose parent is below it is pushed. -/
theorem push (hbelow : ParentBelow message) (data : Bytes) :
    ∃ s' removed, s.pushMsg message data = some s' ∧ FlagInv k (log ++ [s.pushed message data]) s' ∧
      s'.state.tail = s.state.tail + 1 ∧
      ∀ t, s'.state.slots.get? t = if ∃ r, removed = some r ∧ t ≤ r then none
        else ({ s.state with tail := s.state.tail + 1 }.trackSlot message).get? t := by
  obtain ⟨s', removed, hpush, hring, htail, hget⟩ := h.pushMsg message data
  have hkept : ∀ t info, s'.state.slots.get? t = some info →
      ({ s.state with tail := s.state.tail + 1 }.trackSlot message).get? t = some info := by
    intro t info hinfo
    rw [hget] at hinfo
    split at hinfo
    · cases hinfo
    · exact hinfo
  refine ⟨s', removed, hpush, ⟨hring, ?_, ?_, ?_⟩, htail, hget⟩
  · intro t info hinfo
    rw [htail]
    exact (h.has_store data (hkept t info hinfo)).1
  · intro t info hinfo
    exact (h.has_store data (hkept t info hinfo)).2
  · intro d parent hparent
    obtain ⟨info, hinfo, hp⟩ := Option.bind_eq_some_iff.mp hparent
    have hstored := hkept d info hinfo
    have hparent' : (({ s.state with tail := s.state.tail + 1 }.trackSlot message).get? d).bind
        (·.parentSlot) = some parent := by
      rw [hstored]
      exact hp
    rcases parentOf_store hparent' with hold | ⟨hslot, hcarried⟩
    · exact h.below d parent hold
    · exact hbelow d parent hslot hcarried

end FlagInv

/-! ### The walk -/

theorem misses_eq {status : SlotStatus} (hstatus : status.Closing) (info : SlotInfo) :
    State.misses status info = !info.has status := by
  rcases hstatus with rfl | rfl <;>
    simp [State.misses, SlotInfo.has, SlotStatus.isConfirmed, SlotStatus.isRooted]

/-- The messages that a walk from `d` makes, the nearest ancestor first. -/
inductive Chain (state : State) (status : SlotStatus) : Slot → List (ProtobufMessage E C) → Prop where
  | stop {d : Slot} : (∀ parent info, state.parentOf d = some parent →
      state.slots.get? parent.toNat = some info → State.misses status info = false) →
      Chain state status d []
  | step {d : Slot} {parent : UInt64} {info : SlotInfo} {rest : List (ProtobufMessage E C)} :
      state.parentOf d = some parent → state.slots.get? parent.toNat = some info →
      State.misses status info = true → Chain state status parent.toNat rest →
      Chain state status d (.slot parent info.parentSlot status none :: rest)

theorem missedStatuses_chain {state : State} {status : SlotStatus} (n : ℕ) :
    ∀ {slot : UInt64} {missed : List (ProtobufMessage E C)},
      state.missedStatuses status n slot = some missed → Chain state status slot.toNat missed := by
  induction n with
  | zero =>
    intro slot missed h
    cases h
  | succ n ih =>
    intro slot missed h
    rw [State.missedStatuses] at h
    split at h
    · rename_i hnone
      cases h
      refine .stop fun parent info hparent _ => ?_
      rw [State.parentOf, hnone] at hparent
      cases hparent
    · rename_i parent hparent
      split at h
      · rename_i hnone
        cases h
        refine .stop fun parent' info hparent' hinfo => ?_
        obtain rfl := Option.some.inj (hparent.symm.trans hparent')
        rw [hnone] at hinfo
        cases hinfo
      · rename_i info hinfo
        split at h
        · rename_i hmisses
          obtain ⟨rest, hrest, rfl⟩ := Option.map_eq_some_iff.mp h
          exact .step hparent hinfo hmisses (ih hrest)
        · rename_i hhas
          cases h
          refine .stop fun parent' info' hparent' hinfo' => ?_
          obtain rfl := Option.some.inj (hparent.symm.trans hparent')
          obtain rfl := Option.some.inj (hinfo.symm.trans hinfo')
          simpa using hhas

theorem countP_lt {l : List ℕ} {a b : ℕ} (ha : a ∈ l) (hab : a < b) :
    l.countP (· < a) < l.countP (· < b) := by
  induction l with
  | nil => cases ha
  | cons x l ih =>
    have hmono : l.countP (· < a) ≤ l.countP (· < b) := by
      refine List.countP_mono_left fun y _ hy => ?_
      simp only [decide_eq_true_eq] at hy ⊢
      omega
    rw [List.countP_cons, List.countP_cons]
    rcases List.mem_cons.mp ha with rfl | ha
    · simp only [lt_irrefl, decide_false, Bool.false_eq_true, if_false, hab, decide_true, if_true]
      omega
    · have := ih ha
      by_cases hxa : x < a
      · simp only [hxa, hxa.trans hab, decide_true, if_true]
        omega
      · simp only [hxa, decide_false, Bool.false_eq_true, if_false]
        omega

/-- Parents below their slots: the walk ends. -/
theorem missedStatuses_total {state : State} {status : SlotStatus}
    (hbelow : ∀ d parent, state.parentOf d = some parent → parent.toNat < d) (n : ℕ) :
    ∀ slot : UInt64, state.slots.keys.countP (· < slot.toNat) < n →
      ∃ missed : List (ProtobufMessage E C), state.missedStatuses status n slot = some missed := by
  induction n with
  | zero =>
    intro slot h
    exact absurd h (Nat.not_lt_zero _)
  | succ n ih =>
    intro slot h
    rw [State.missedStatuses]
    split
    · exact ⟨[], rfl⟩
    · rename_i parent hparent
      split
      · exact ⟨[], rfl⟩
      · rename_i info hinfo
        split
        · have hlt := countP_lt (SortedMap.mem_keys_of_get? hinfo) (hbelow slot.toNat parent hparent)
          obtain ⟨rest, hrest⟩ := ih parent (by omega)
          exact ⟨_, by rw [hrest]; rfl⟩
        · exact ⟨[], rfl⟩

namespace Chain

variable {state : State} {status : SlotStatus} {d : Slot} {missed : List (ProtobufMessage E C)}

/-- What a walk makes: statuses of known slots that miss them, with the known parents. -/
theorem mem (h : Chain state status d missed)
    (hbelow : ∀ d parent, state.parentOf d = some parent → parent.toNat < d) :
    ∀ y ∈ missed, ∃ slot info, y = .slot slot info.parentSlot status none ∧ slot.toNat < d ∧
      state.slots.get? slot.toNat = some info ∧ State.misses status info = true := by
  induction h with
  | stop =>
    intro y hy
    cases hy
  | @step d parent info rest hparent hinfo hmisses _ ih =>
    have hlt := hbelow d parent hparent
    intro y hy
    rcases List.mem_cons.mp hy with rfl | hy
    · exact ⟨parent, info, rfl, hlt, hinfo, hmisses⟩
    · obtain ⟨slot, info', rfl, hslot, hrest⟩ := ih y hy
      exact ⟨slot, info', rfl, hslot.trans hlt, hrest⟩

/-- Ancestors come before descendants, up to one that has the status; and no status is made twice. -/
theorem order (h : Chain state status d missed) (hstatus : status.Closing)
    (hbelow : ∀ d parent, state.parentOf d = some parent → parent.toNat < d) :
    ∀ x : ProtobufMessage E C, x.getSlot = some d → AtEach (fun pre y => ∀ t, HasStatus status t y →
      (∀ a, Link state t a → (∃ z ∈ pre, HasStatus status a z) ∨
        ∃ info, state.slots.get? a = some info ∧ info.has status = true) ∧
      ∀ z ∈ pre, ¬ HasStatus status t z) (missed.reverse ++ [x]) := by
  induction h with
  | @stop d hstop =>
    intro x hx
    refine atEach_singleton.mpr fun t ht => ⟨?_, by simp⟩
    rintro a ⟨parent, hparent, rfl, hcontains⟩
    right
    obtain rfl := Option.some.inj (ht.getSlot.symm.trans hx)
    obtain ⟨info, hinfo⟩ := Option.isSome_iff_exists.mp hcontains
    refine ⟨info, hinfo, ?_⟩
    have hhas := hstop parent info hparent hinfo
    rw [misses_eq hstatus] at hhas
    simpa using hhas
  | @step d parent info rest hparent hinfo hmisses hrest ih =>
    intro x hx
    rw [List.reverse_cons, atEach_append, atEach_singleton, List.append_nil]
    refine ⟨ih (.slot parent info.parentSlot status none) rfl, fun t ht => ?_⟩
    obtain rfl := Option.some.inj (ht.getSlot.symm.trans hx)
    have hlast : (.slot parent info.parentSlot status none : ProtobufMessage E C) ∈
        rest.reverse ++ [.slot parent info.parentSlot status none] :=
      List.mem_append_right _ (List.mem_singleton_self _)
    constructor
    · rintro a ⟨parent', hparent', rfl, -⟩
      obtain rfl := Option.some.inj (hparent.symm.trans hparent')
      exact .inl ⟨_, hlast, rfl, rfl⟩
    · intro z hz hzt
      have hlt := hbelow t parent hparent
      rcases List.mem_append.mp hz with hz | hz
      · obtain ⟨slot, info', rfl, hslot, -⟩ := hrest.mem hbelow z (List.mem_reverse.mp hz)
        have := hzt.1
        omega
      · obtain rfl := List.mem_singleton.mp hz
        have := hzt.1
        omega

end Chain

/-! ### A push -/

/-- The messages of a push: the walk from the slot of a status, and the message. -/
def Plan (state : State) (message : ProtobufMessage E C) (missed : List (ProtobufMessage E C)) : Prop :=
  match message with
  | .slot slot _ status _ => Chain state status slot.toNat missed
  | _ => missed = []

theorem messages_plan {state : State}
    (hbelow : ∀ d parent, state.parentOf d = some parent → parent.toNat < d)
    (message : ProtobufMessage E C) :
    ∃ missed, state.messages message = some (missed.reverse ++ [message]) ∧ Plan state message missed := by
  cases message with
  | slot slot parent status bankId =>
    have hsize : state.slots.keys.countP (· < slot.toNat) < state.slots.size + 1 := by
      have hle : state.slots.keys.countP (· < slot.toNat) ≤ state.slots.keys.length := List.countP_le_length
      have hlen : state.slots.keys.length = state.slots.size := by simp [SortedMap.keys, List.keys, SortedMap.size]
      omega
    obtain ⟨missed, hmissed⟩ : ∃ missed : List (ProtobufMessage E C),
        state.missedStatuses status (state.slots.size + 1) slot = some missed :=
      missedStatuses_total hbelow _ slot hsize
    refine ⟨missed, ?_, missedStatuses_chain _ hmissed⟩
    rw [State.messages, hmissed]
    rfl
  | _ => exact ⟨[], rfl, rfl⟩

/-- The slot `t` and those below it are not known. -/
def UnknownUpto (state : State) (t : Slot) : Prop := ∀ u ≤ t, state.slots.contains u = false

theorem FlagInv.pushMessages {k : ℕ} {log : List (Pushed E C)} {s : Shared} (h : FlagInv k log s)
    (encode : ProtobufMessage E C → Bytes) (messages : List (ProtobufMessage E C))
    (hbelow : ∀ m ∈ messages, ParentBelow m) :
      ∃ s' out, s.pushMessages encode messages = some (s', out) ∧ FlagInv k (log ++ out) s' ∧
        out.map (·.message) = messages ∧
        (∀ d parent, s'.state.parentOf d = some parent → s.state.parentOf d = some parent ∨
          ∃ m ∈ messages, m.getSlot = some d ∧ m.parent = some parent) ∧
        (∀ t, s'.state.slots.contains t = true → s.state.slots.contains t = true ∨
          ∃ m ∈ messages, m.getSlot = some t) ∧
        ∀ m ∈ messages.getLast?, ∀ t, m.getSlot = some t → UnknownUpto s'.state t ∨
          ∀ parent, m.parent = some parent → s'.state.parentOf t = some parent := by
  induction messages generalizing log s with
  | nil =>
    refine ⟨s, [], rfl, ?_, rfl, fun _ _ => .inl, fun _ => .inl, by simp⟩
    rw [List.append_nil]
    exact h
  | cons m ms ih =>
    obtain ⟨s₁, removed, hpush, hinv, htail, hget⟩ :=
      h.push (hbelow m List.mem_cons_self) (encode m)
    obtain ⟨s', out, hpushes, hinv', hout, hparent, hcontains, hlast⟩ :=
      ih hinv fun m' hm' => hbelow m' (List.mem_cons_of_mem _ hm')
    -- the parent and the slots after the first message
    have hparent₁ : ∀ d parent, s₁.state.parentOf d = some parent →
        s.state.parentOf d = some parent ∨ m.getSlot = some d ∧ m.parent = some parent := by
      intro d parent hd
      rw [State.parentOf, hget] at hd
      split at hd
      · cases hd
      · exact parentOf_store hd
    have hcontains₁ : ∀ t, s₁.state.slots.contains t = true →
        s.state.slots.contains t = true ∨ m.getSlot = some t := by
      intro t ht
      rw [SortedMap.contains, hget] at ht
      split at ht
      · cases ht
      · rw [State.trackSlot_get?] at ht
        split at ht
        · rename_i hslot
          exact .inr hslot
        · exact .inl ht
    refine ⟨s', s.pushed m (encode m) :: out, ?_, ?_, ?_, ?_, ?_, ?_⟩
    · rw [Shared.pushMessages, hpush]
      dsimp only
      rw [hpushes]
    · rw [List.append_assoc] at hinv'
      exact hinv'
    · rw [List.map_cons, hout]
      rfl
    · intro d parent hd
      rcases hparent d parent hd with hold | ⟨m', hm', hrest⟩
      · rcases hparent₁ d parent hold with hold | hnew
        · exact .inl hold
        · exact .inr ⟨m, List.mem_cons_self, hnew⟩
      · exact .inr ⟨m', List.mem_cons_of_mem _ hm', hrest⟩
    · intro t ht
      rcases hcontains t ht with hold | ⟨m', hm', hrest⟩
      · exact (hcontains₁ t hold).imp_right fun hslot => ⟨m, List.mem_cons_self, hslot⟩
      · exact .inr ⟨m', List.mem_cons_of_mem _ hm', hrest⟩
    · cases ms with
      | cons m' ms =>
        rw [List.getLast?_cons_cons]
        exact hlast
      | nil =>
        cases hpushes
        intro m' hm' t hslot
        obtain rfl : m' = m := by simpa using hm'.symm
        by_cases hr : ∃ r, removed = some r ∧ t ≤ r
        · obtain ⟨r, hr, htr⟩ := hr
          left
          intro u hu
          rw [SortedMap.contains, hget, if_pos ⟨r, hr, hu.trans htr⟩]
          rfl
        · right
          intro parent hcarried
          rw [State.parentOf, hget, if_neg hr, State.trackSlot_get?, if_pos hslot, Option.bind_some,
            SlotInfo.parentSlot_update, hcarried]
          rfl

/-- What the planned messages are. -/
theorem Plan.mem {state : State} {message : ProtobufMessage E C} {missed : List (ProtobufMessage E C)}
    (h : Plan state message missed)
    (hbelow : ∀ d parent, state.parentOf d = some parent → parent.toNat < d) :
    ∀ y ∈ missed, ∃ slot info d, y.getSlot = some slot ∧ message.getSlot = some d ∧ slot < d ∧
      state.slots.get? slot = some info ∧ y.parent = info.parentSlot ∧
      ∃ status, HasStatus status slot y ∧ HasStatus status d message ∧ State.misses status info = true := by
  cases message with
  | slot slot parent status bankId =>
    intro y hy
    obtain ⟨slot', info, rfl, hlt, hinfo, hmisses⟩ := Chain.mem h hbelow y hy
    exact ⟨slot'.toNat, info, slot.toNat, rfl, rfl, hlt, hinfo, rfl, status, ⟨rfl, rfl⟩, ⟨rfl, rfl⟩, hmisses⟩
  | _ =>
    obtain rfl : missed = [] := h
    intro y hy
    cases hy

theorem Plan.order {state : State} {message : ProtobufMessage E C} {missed : List (ProtobufMessage E C)}
    (h : Plan state message missed) {status : SlotStatus} (hstatus : status.Closing)
    (hbelow : ∀ d parent, state.parentOf d = some parent → parent.toNat < d) :
    AtEach (fun pre y => ∀ t, HasStatus status t y →
      (∀ a, Link state t a → (∃ z ∈ pre, HasStatus status a z) ∨
        ∃ info, state.slots.get? a = some info ∧ info.has status = true) ∧
      ∀ z ∈ pre, ¬ HasStatus status t z) (missed.reverse ++ [message]) := by
  by_cases hhas : ∃ d, HasStatus status d message
  · obtain ⟨d, hd⟩ := hhas
    cases message with
    | slot slot parent status' bankId =>
      obtain ⟨rfl, rfl⟩ := hd
      exact Chain.order h hstatus hbelow _ rfl
    | _ => exact hd.elim
  · -- no message of the plan is this status
    intro pre y post heq t ht
    have hy : y ∈ missed.reverse ++ [message] := by
      rw [heq]
      exact List.mem_append_right _ List.mem_cons_self
    rcases List.mem_append.mp hy with hy | hy
    · obtain ⟨_, _, d, -, -, -, -, -, status', hy, hd, -⟩ := h.mem hbelow y (List.mem_reverse.mp hy)
      rw [hy.unique ht] at hd
      exact absurd ⟨d, hd⟩ hhas
    · obtain rfl := List.mem_singleton.mp hy
      exact absurd ⟨t, ht⟩ hhas

theorem RingInv.pos_lt {k : ℕ} {log l₁ l₂ : List (Pushed E C)} {s : Shared} {p q : Pushed E C}
    (h : RingInv k log s) (hlog : log = l₁ ++ p :: l₂) (hq : q ∈ l₁) : q.pos < p.pos := by
  obtain ⟨i, hi⟩ := List.mem_iff_getElem?.mp hq
  have hlt := (List.getElem?_eq_some_iff.mp hi).1
  have hqi := h.pos i q (by rw [hlog, List.getElem?_append_left hlt]; exact hi)
  have hpi := h.pos l₁.length p (by rw [hlog, List.getElem?_append_right le_rfl, Nat.sub_self]; rfl)
  omega

/-- What a push leaves: the planned messages are in the log, the links are closed, and the slot of the message
knows the parent that the message carries, unless the slot is not known anymore. -/
structure PushedPlan (k : ℕ) (log : List (Pushed E C)) (s : Shared) (message : ProtobufMessage E C)
    (s' : Shared) (out : List (Pushed E C)) : Prop where
  flags : FlagInv k (log ++ out) s'
  closed : LinksClosed (log ++ out) s'
  plan : ∃ missed, Plan s.state message missed ∧ out.map (·.message) = missed.reverse ++ [message]
  carried : ∀ t, message.getSlot = some t → UnknownUpto s'.state t ∨
    ∀ parent, message.parent = some parent → s'.state.parentOf t = some parent

/-- The links after the planned messages are pushed. -/
theorem LinksClosed.pushed {k : ℕ} {log out : List (Pushed E C)} {s s' : Shared}
    {message : ProtobufMessage E C} {missed : List (ProtobufMessage E C)} (hclosed : LinksClosed log s)
    (h : FlagInv k log s) (hnew : NewLinks log s message) (hplan : Plan s.state message missed)
    (hinv : FlagInv k (log ++ out) s') (hout : out.map (·.message) = missed.reverse ++ [message])
    (hparent : ∀ d parent, s'.state.parentOf d = some parent → s.state.parentOf d = some parent ∨
      ∃ m ∈ missed.reverse ++ [message], m.getSlot = some d ∧ m.parent = some parent)
    (hcontains : ∀ t, s'.state.slots.contains t = true → s.state.slots.contains t = true ∨
      ∃ m ∈ missed.reverse ++ [message], m.getSlot = some t) :
    LinksClosed (log ++ out) s' := by
  rintro d a ⟨parent, hparent', rfl, hknown'⟩ status hstatus p hp hd
  have hmem := hplan.mem h.below
  have hlt : parent.toNat < d := hinv.below d parent hparent'
  -- the missed statuses tell nothing new, so the link is old or the message makes it
  have hlink : s.state.parentOf d = some parent ∨
      message.getSlot = some d ∧ message.parent = some parent := by
    rcases hparent d parent hparent' with hold | ⟨m, hm, hslot, hcarried⟩
    · exact .inl hold
    · rcases List.mem_append.mp hm with hm | hm
      · obtain ⟨slot, info, _, hslot', -, -, hinfo, hinfo', -⟩ := hmem m (List.mem_reverse.mp hm)
        obtain rfl := Option.some.inj (hslot'.symm.trans hslot)
        left
        rw [State.parentOf, hinfo, Option.bind_some, ← hinfo']
        exact hcarried
      · obtain rfl := List.mem_singleton.mp hm
        exact .inr ⟨hslot, hcarried⟩
  have hknown : s.state.slots.contains parent.toNat = true ∨
      s.state.slots.contains parent.toNat = false ∧ message.getSlot = some parent.toNat := by
    rcases hcontains _ hknown' with hold | ⟨m, hm, hslot⟩
    · exact .inl hold
    · rcases List.mem_append.mp hm with hm | hm
      · obtain ⟨slot, info, _, hslot', -, -, hinfo, -⟩ := hmem m (List.mem_reverse.mp hm)
        obtain rfl := Option.some.inj (hslot'.symm.trans hslot)
        left
        rw [SortedMap.contains, hinfo]
        rfl
      · obtain rfl := List.mem_singleton.mp hm
        cases hcontains : s.state.slots.contains parent.toNat with
        | true => exact .inl rfl
        | false => exact .inr ⟨rfl, hslot⟩
  rcases List.mem_append.mp hp with hlog | hpout
  · have hbefore : Before log status parent.toNat d := by
      rcases hknown with hknown | ⟨hunknown, hslot⟩
      · by_cases hold : s.state.parentOf d = some parent
        · exact hclosed d _ ⟨parent, hold, rfl, hknown⟩ status hstatus
        · obtain ⟨hslot, hcarried⟩ := hlink.resolve_left hold
          exact (hnew.parent d parent hslot hcarried hold hknown status hstatus).1
      · refine hnew.child d parent hslot hunknown (hlink.resolve_right fun hown => ?_) status hstatus
        have := Option.some.inj (hslot.symm.trans hown.1)
        omega
    obtain ⟨q, hq, hqa, hpos⟩ := hbefore p hlog hd
    exact ⟨q, List.mem_append_left _ hq, hqa, hpos⟩
  · obtain ⟨o₁, o₂, rfl⟩ := List.append_of_mem hpout
    have hpos : ∀ q ∈ log ++ o₁, q.pos < p.pos := by
      intro q hq
      exact hinv.ring.pos_lt (List.append_assoc ..).symm hq
    -- an ancestor that has the status from before the push
    have hlog : ∀ q ∈ log, HasStatus status parent.toNat q.message →
        ∃ q ∈ log ++ (o₁ ++ p :: o₂), HasStatus status parent.toNat q.message ∧ q.pos < p.pos :=
      fun q hq hqa => ⟨q, List.mem_append_left _ hq, hqa, hpos q (List.mem_append_left _ hq)⟩
    by_cases hold : s.state.parentOf d = some parent ∧ s.state.slots.contains parent.toNat = true
    · have hplanned : missed.reverse ++ [message] =
          o₁.map (·.message) ++ p.message :: o₂.map (·.message) := by
        rw [← hout, List.map_append, List.map_cons]
      obtain ⟨hfound, -⟩ := hplan.order hstatus h.below _ _ _ hplanned d hd
      rcases hfound parent.toNat ⟨parent, hold.1, rfl, hold.2⟩ with ⟨z, hz, hza⟩ | ⟨info, hinfo, hhas⟩
      · obtain ⟨q, hq, rfl⟩ := List.mem_map.mp hz
        exact ⟨q, List.mem_append_right _ (List.mem_append_left _ hq), hza,
          hpos q (List.mem_append_right _ hq)⟩
      · obtain ⟨q, hq, hqa, -⟩ := (h.has _ info hinfo status hstatus).mp hhas
        exact hlog q hq hqa
    · -- the link is new, so it is not one of a missed status
      have hp' : p.message = message := by
        have hpm : p.message ∈ missed.reverse ++ [message] := by
          rw [← hout]
          exact List.mem_map_of_mem hpout
        rcases List.mem_append.mp hpm with hpm | hpm
        · obtain ⟨slot, _, top, hslot, htop, hslt, -⟩ := hmem _ (List.mem_reverse.mp hpm)
          obtain rfl := Option.some.inj (hslot.symm.trans hd.getSlot)
          rcases hknown with hknown | ⟨-, hown⟩
          · obtain ⟨hown, -⟩ := hlink.resolve_left fun hparent => hold ⟨hparent, hknown⟩
            exact absurd (Option.some.inj (htop.symm.trans hown)) hslt.ne'
          · exact absurd (Option.some.inj (htop.symm.trans hown)) (hlt.trans hslt).ne'
        · exact List.mem_singleton.mp hpm
      rw [hp'] at hd
      rcases hknown with hknown | ⟨-, hown⟩
      · have hne : s.state.parentOf d ≠ some parent := fun hparent => hold ⟨hparent, hknown⟩
        obtain ⟨hslot, hcarried⟩ := hlink.resolve_left hne
        obtain ⟨q, hq, hqa⟩ := (hnew.parent d parent hslot hcarried hne hknown status hstatus).2 hd
        exact hlog q hq hqa
      · have := Option.some.inj (hown.symm.trans hd.getSlot)
        omega

theorem FlagInv.pushPlan {k : ℕ} {log : List (Pushed E C)} {s : Shared} {input : PushInput E C}
    (h : FlagInv k log s) (hclosed : LinksClosed log s) (hbelow : ParentBelow input.message)
    (hnew : NewLinks log s input.message) :
    ∃ s' out, Shared.push s input = .ok (s', out) ∧ PushedPlan k log s input.message s' out := by
  obtain ⟨missed, hmessages, hplan⟩ := messages_plan h.below input.message
  have hmem := hplan.mem h.below
  have hbelows : ∀ m ∈ missed.reverse ++ [input.message], ParentBelow m := by
    intro m hm
    rcases List.mem_append.mp hm with hm | hm
    · obtain ⟨slot, info, _, hslot, -, -, hinfo, hparent, -⟩ := hmem m (List.mem_reverse.mp hm)
      intro d parent hd hcarried
      obtain rfl := Option.some.inj (hslot.symm.trans hd)
      refine h.below slot parent ?_
      rw [State.parentOf, hinfo, Option.bind_some, ← hparent]
      exact hcarried
    · obtain rfl := List.mem_singleton.mp hm
      exact hbelow
  obtain ⟨s', out, hpush, hinv, hout, hparent, hcontains, hlast⟩ :=
    h.pushMessages input.encode _ hbelows
  have hinv : FlagInv k (log ++ out) { s' with state.wakers := [] } :=
    ⟨hinv.ring.congr rfl rfl rfl rfl, hinv.head, hinv.has, hinv.below⟩
  refine ⟨{ s' with state.wakers := [] }, out, ?_, hinv, ?_, ⟨missed, hplan, hout⟩, ?_⟩
  · rw [Shared.push, hmessages]
    dsimp only
    rw [hpush]
  · exact hclosed.pushed h hnew hplan hinv hout hparent hcontains
  · intro t ht
    exact hlast input.message (by simp) t ht

/-! ### The closure -/

/-- `a` is tracked, and the slots or the message name it as the parent of `d`. -/
def KnownParent (state : State) (message : ProtobufMessage E C) (d a : Slot) : Prop :=
  state.slots.contains a = true ∧ ∃ parent, parent.toNat = a ∧
    (state.parentOf d = some parent ∨ message.getSlot = some d ∧ message.parent = some parent)

theorem misses_closing {status : SlotStatus} {info : SlotInfo} (h : State.misses status info = true) :
    status.Closing := by
  cases status with
  | confirmed => exact .inl rfl
  | rooted => exact .inr rfl
  | _ => cases h

namespace PushedPlan

variable {k : ℕ} {log out : List (Pushed E C)} {s s' : Shared} {message : ProtobufMessage E C}

theorem link (h : PushedPlan k log s message s' out) (hbelow : ParentBelow message) {d a : Slot}
    (hparent : KnownParent s'.state message d a) : Link s'.state d a := by
  obtain ⟨hknown, parent, rfl, hstored | ⟨hslot, hcarried⟩⟩ := hparent
  · exact ⟨parent, hstored, rfl, hknown⟩
  · rcases h.carried d hslot with hunknown | hcarries
    · have hno := hunknown parent.toNat (hbelow d parent hslot hcarried).le
      rw [hno] at hknown
      cases hknown
    · exact ⟨parent, hcarries parent hcarried, rfl, hknown⟩

/-- The ancestors of a slot got a status before it did. -/
theorem ancestors (h : PushedPlan k log s message s' out) (hbelow : ParentBelow message) {status : SlotStatus}
    (hstatus : status.Closing) {d a : Slot} (hanc : Relation.TransGen (KnownParent s'.state message) d a)
    {p : Pushed E C} (hp : p ∈ log ++ out) (hd : HasStatus status d p.message) :
    ∃ q ∈ log ++ out, HasStatus status a q.message ∧ q.pos < p.pos := by
  induction hanc with
  | single hparent => exact h.closed _ _ (h.link hbelow hparent) status hstatus p hp hd
  | tail _ hparent ih =>
    obtain ⟨q, hq, hqa, hlt⟩ := ih
    obtain ⟨q', hq', hqa', hlt'⟩ := h.closed _ _ (h.link hbelow hparent) status hstatus q hq hqa
    exact ⟨q', hq', hqa', hlt'.trans hlt⟩

/-- A status is made for a slot that did not get it since it is tracked. -/
theorem synthesized (hs : FlagInv k log s) {synthesized : List (Pushed E C)} {p : Pushed E C}
    (h : PushedPlan k log s message s' (synthesized ++ [p])) (hp : p.message = message) :
    ∀ q ∈ synthesized, ∃ status t info, HasStatus status t q.message ∧
      (∃ d, HasStatus status d message) ∧ s.state.slots.get? t = some info ∧
      ∀ r ∈ log ++ synthesized, HasStatus status t r.message → r.pos < q.pos → r.pos < info.head := by
  obtain ⟨missed, hplan, hout⟩ := h.plan
  rw [List.map_append, List.map_singleton, hp] at hout
  have hmissed : synthesized.map (·.message) = missed.reverse := List.append_cancel_right hout
  intro q hq
  obtain ⟨t, info, d, -, -, -, hinfo, -, status, hqt, hd, hmisses⟩ :=
    hplan.mem hs.below q.message (by
      rw [← List.mem_reverse, ← hmissed]
      exact List.mem_map_of_mem hq)
  have hstatus := misses_closing hmisses
  refine ⟨status, t, info, hqt, ⟨d, hd⟩, hinfo, fun r hr hrt hlt => ?_⟩
  obtain ⟨o₁, o₂, rfl⟩ := List.append_of_mem hq
  have hring := h.flags.ring
  rcases List.mem_append.mp hr with hr | hr
  · -- the flag says that the slot misses the status
    by_contra hge
    have hhas := (hs.has t info hinfo status hstatus).mpr ⟨r, hr, hrt, not_lt.mp hge⟩
    rw [misses_eq hstatus, hhas] at hmisses
    cases hmisses
  · rcases List.mem_append.mp hr with hr | hr
    · have hplanned : missed.reverse ++ [message] =
          o₁.map (·.message) ++ q.message :: (o₂.map (·.message) ++ [message]) := by
        rw [← hmissed, List.map_append, List.map_cons, List.append_assoc, List.cons_append]
      obtain ⟨-, hfresh⟩ := hplan.order hstatus hs.below _ _ _ hplanned t hqt
      exact absurd hrt (hfresh r.message (List.mem_map_of_mem hr))
    · -- what comes later has a later position
      rcases List.mem_cons.mp hr with rfl | hr
      · exact absurd hlt (lt_irrefl _)
      · obtain ⟨l₁, l₂, rfl⟩ := List.append_of_mem hr
        have hlog : log ++ (o₁ ++ q :: (l₁ ++ r :: l₂) ++ [p]) =
            (log ++ (o₁ ++ q :: l₁)) ++ r :: (l₂ ++ [p]) := by
          simp only [List.append_assoc, List.cons_append]
        have hle := hring.pos_lt hlog (List.mem_append_right _ (List.mem_append_right _ List.mem_cons_self))
        exact absurd (hlt.trans hle) (lt_irrefl _)

end PushedPlan

/-- Parents are below their slots, and no message links a slot with a status to one without it. -/
def PushInput.Links (s : Shared) (log : List (Pushed E C)) (input : PushInput E C) : Prop :=
  ParentBelow input.message ∧ NewLinks log s input.message

/-- **Missed statuses**: a push of a status comes after the status of every tracked ancestor of its slot,
ancestors before descendants; and a status is made only for a slot that did not get it since it is tracked. -/
theorem Shared.missed_statuses {config : ConfigChannel} {inputs : List (PushInput E C)} {input : PushInput E C}
    (hlinks : AllAlong Shared.push PushInput.Links (.new config) (inputs ++ [input])) :
    ∃ s log s' synthesized p, run Shared.push (.new config) inputs = .ok (s, log) ∧
      Shared.push s input = .ok (s', synthesized ++ [p]) ∧ p.message = input.message ∧
      (∀ status : SlotStatus, status.Closing → ∀ d, HasStatus status d input.message →
        (∀ a, Relation.TransGen (KnownParent s'.state input.message) d a →
          ∃ q ∈ log ++ synthesized, HasStatus status a q.message) ∧
        ∀ c a, Relation.ReflTransGen (KnownParent s'.state input.message) d c →
          KnownParent s'.state input.message c a → Before (log ++ (synthesized ++ [p])) status a c) ∧
      ∀ q ∈ synthesized, ∃ status t info, HasStatus status t q.message ∧
        (∃ d, HasStatus status d input.message) ∧ s.state.slots.get? t = some info ∧
        ∀ r ∈ log ++ synthesized, HasStatus status t r.message → r.pos < q.pos → r.pos < info.head := by
  obtain ⟨k, hk⟩ := exists_nextPowerOfTwo config.maxMessages
  obtain ⟨s, log, hrun, hinv, hclosed⟩ := exists_run_along
    (P := fun s log => FlagInv k log s ∧ LinksClosed log s)
    ⟨.new hk, by
      rintro d a ⟨parent, hparent, -⟩
      cases hparent⟩
    (by
      rintro s log input ⟨hinv, hclosed⟩ ⟨hbelow, hnew⟩
      obtain ⟨s', out, hpush, hpushed⟩ := hinv.pushPlan hclosed hbelow hnew
      exact ⟨s', out, hpush, hpushed.flags, hpushed.closed⟩) hlinks.of_append
  obtain ⟨hbelow, hnew⟩ := hlinks inputs input [] s log rfl hrun
  obtain ⟨s', out, hpush, hpushed⟩ := hinv.pushPlan hclosed hbelow hnew
  obtain ⟨missed, -, hout⟩ := hpushed.plan
  obtain ⟨synthesized, last, rfl, -, hlast⟩ := List.map_eq_append_iff.mp hout
  obtain ⟨p, rfl, hp⟩ := List.map_eq_singleton_iff.mp hlast
  refine ⟨s, log, s', synthesized, p, hrun, hpush, hp, fun status hstatus d hd => ⟨fun a hanc => ?_, ?_⟩,
    hpushed.synthesized hinv hp⟩
  · have hmem : p ∈ log ++ (synthesized ++ [p]) :=
      List.mem_append_right _ (List.mem_append_right _ (List.mem_singleton_self _))
    obtain ⟨q, hq, hqa, hlt⟩ := hpushed.ancestors hbelow hstatus hanc hmem (hp ▸ hd)
    rw [← List.append_assoc] at hq
    rcases List.mem_append.mp hq with hq | hq
    · exact ⟨q, hq, hqa⟩
    · obtain rfl := List.mem_singleton.mp hq
      exact absurd hlt (lt_irrefl _)
  · intro c a _ hparent
    exact hpushed.closed c a (hpushed.link hbelow hparent) status hstatus

/-- No status that ancestors can miss. -/
def ProtobufMessage.isOpen : ProtobufMessage E C → Bool
  | .slot _ _ status _ => !(status.isConfirmed || status.isRooted)
  | _ => true

theorem ProtobufMessage.not_hasStatus {message : ProtobufMessage E C} (h : message.isOpen = true)
    {status : SlotStatus} (hstatus : status.Closing) (t : Slot) : ¬ HasStatus status t message := by
  cases message with
  | slot slot parent status' bankId =>
    rintro ⟨-, rfl⟩
    rcases hstatus with rfl | rfl <;> cases h
  | _ => exact id

/-- There are no such statuses yet, and the parent of the first one is known. -/
def PushInput.checkLinks (s : Shared) (log : List (Pushed E C)) (input : PushInput E C) : Bool :=
  log.all (·.message.isOpen) &&
  match input.message.getSlot, input.message.parent with
  | some slot, some parent =>
    parent.toNat < slot && (input.message.isOpen || s.state.parentOf slot = some parent)
  | _, _ => true

theorem PushInput.links_of_check {s : Shared} {log : List (Pushed E C)} {input : PushInput E C}
    (h : input.checkLinks s log = true) : input.Links s log := by
  obtain ⟨hlog, hinput⟩ := Bool.and_eq_true_iff.mp h
  have hbefore : ∀ status : SlotStatus, status.Closing → ∀ a d, Before log status a d := by
    intro status hstatus a d p hp hd
    exact absurd hd (ProtobufMessage.not_hasStatus (List.all_eq_true.mp hlog p hp) hstatus d)
  refine ⟨fun d parent hslot hcarried => ?_, fun d parent hslot hcarried hne _ status hstatus => ?_,
    fun d parent _ _ _ status hstatus => hbefore status hstatus _ _⟩
  · rw [hslot, hcarried] at hinput
    exact of_decide_eq_true (Bool.and_eq_true_iff.mp hinput).1
  · rw [hslot, hcarried] at hinput
    obtain ⟨-, hopen⟩ := Bool.and_eq_true_iff.mp hinput
    refine ⟨hbefore status hstatus _ _, fun hd => ?_⟩
    rcases Bool.or_eq_true_iff.mp hopen with hopen | hparent
    · exact absurd hd (ProtobufMessage.not_hasStatus hopen hstatus d)
    · exact absurd (of_decide_eq_true hparent) hne

/-- The status of a slot whose parent has missed it. -/
theorem Shared.missed_statuses_slot :
    ∃ s log s' synthesized p, run Shared.push (.new ⟨4, 100⟩)
        [sampleSlot 1 none .processed, sampleSlot 2 (some 1) .processed] = .ok (s, log) ∧
      Shared.push s (sampleSlot 2 (some 1) .confirmed) = .ok (s', synthesized ++ [p]) ∧
      ∃ q ∈ log ++ synthesized, HasStatus .confirmed 1 q.message := by
  have hlinks : AllAlong Shared.push PushInput.Links (.new ⟨4, 100⟩)
      ([sampleSlot 1 none .processed, sampleSlot 2 (some 1) .processed] ++
        [sampleSlot 2 (some 1) .confirmed]) :=
    allAlong_of_checkAlong (p := fun s log input => input.checkLinks s log)
      (fun _ _ _ => PushInput.links_of_check) (by decide +kernel)
  obtain ⟨s, log, s', synthesized, p, hrun, hpush, -, hall, -⟩ := Shared.missed_statuses hlinks
  refine ⟨s, log, s', synthesized, p, hrun, hpush, ?_⟩
  refine (hall .confirmed (.inl rfl) 2 ⟨rfl, rfl⟩).1 1 (.single ?_)
  obtain ⟨s₁, log₁, hrun₁, hcheck⟩ := exists_of_returns
    (x := run Shared.push (.new ⟨4, 100⟩)
      [sampleSlot 1 none .processed, sampleSlot 2 (some 1) .processed])
    (p := fun (s : Shared) _ => returns (fun (s' : Shared) _ => s'.state.slots.contains 1)
      (Shared.push s (sampleSlot 2 (some 1) .confirmed))) (by decide +kernel)
  rw [hrun] at hrun₁
  obtain ⟨rfl, -⟩ := Prod.ext_iff.mp (Except.ok.inj hrun₁)
  obtain ⟨s₂, out, hpush₂, hknown⟩ := exists_of_returns hcheck
  rw [hpush] at hpush₂
  obtain ⟨rfl, -⟩ := Prod.ext_iff.mp (Except.ok.inj hpush₂)
  exact ⟨hknown, 1, rfl, .inr ⟨rfl, rfl⟩⟩

/-- The first message of the slot `2` is its `confirmed` status: the parent that it carries stays without one. -/
theorem Shared.carried_parent_missed :
    ∃ (s : Shared) (log : List (Pushed Unit Unit)), run Shared.push (.new ⟨4, 100⟩)
        [sampleSlot 1 none .processed, sampleSlot 2 (some 1) .confirmed] = .ok (s, log) ∧
      ParentBelow (sampleSlot 2 (some 1) .confirmed).message ∧
      KnownParent s.state (sampleSlot 2 (some 1) .confirmed).message 2 1 ∧
      ∀ q ∈ log, ¬ HasStatus .confirmed 1 q.message := by
  obtain ⟨s, log, hrun, hcheck⟩ := exists_of_returns
    (x := run Shared.push (.new ⟨4, 100⟩) [sampleSlot 1 none .processed, sampleSlot 2 (some 1) .confirmed])
    (p := fun (s : Shared) (log : List (Pushed Unit Unit)) => decide (s.state.slots.contains 1 = true ∧
      s.state.parentOf 2 = some 1 ∧ ∀ q ∈ log, ¬ HasStatus .confirmed 1 q.message)) (by decide +kernel)
  obtain ⟨hknown, hparent, hlog⟩ := of_decide_eq_true hcheck
  refine ⟨s, log, hrun, ?_, ⟨hknown, 1, rfl, .inl hparent⟩, hlog⟩
  rintro d parent hslot hcarried
  obtain rfl := Option.some.inj hslot
  obtain rfl := Option.some.inj hcarried
  decide

end Richat.Plugin
