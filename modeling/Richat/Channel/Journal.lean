import Richat.Channel.PushSpec

/-!
# What a sender sends to the journal

`Journal` is what the commands to the storage writer make of the journal: its next index, and the
index of the first record of every slot that was not trimmed. `Journal.Accepts` says what a command
has to be: the records are numbered without a hole, a slot begins with the record of its first index,
and a trim asks only for the deletion of what lies before the records of all other slots (`floor` is
where the last live epoch began; slots that are older do not count).

`records_pushMessage` is what one message of a push sends: records of its slot, in a row.
-/

namespace Richat

open Lib

structure Journal where
  next : ℕ
  /-- the index of the first record of each slot -/
  heads : SortedMap Slot ℕ

namespace Journal

def apply (j : Journal) : WriterCommand → Journal
  | .pushMessage init slot head index _ _ =>
    ⟨index + 1, if init then j.heads.insert slot head else j.heads⟩
  | .restorePayload .. => j
  | .removeReplay slot _ => { j with heads := j.heads.erase slot }

/-- The journal after the commands. -/
def after (j : Journal) (commands : List WriterCommand) : Journal := commands.foldl apply j

/-- A record of the slot has its place: the slot has begun, or it is below all slots that count, and too
far below one of them. -/
def Placed (maxSlots floor : ℕ) (j : Journal) (slot : Slot) : Prop :=
  (∃ h, j.heads.get? slot = some h ∧ floor ≤ h ∧ h ≤ j.next) ∨
    (∀ t h, j.heads.get? t = some h → floor ≤ h → slot < t) ∧
      ∃ t h, j.heads.get? t = some h ∧ floor ≤ h ∧ slot < t - (maxSlots - 1)

/-- A trim of the slot up to `upTo`: it deletes nothing of a slot that is left, these are above the
slot, and there is one that is too far above. -/
structure AcceptsTrim (maxSlots floor : ℕ) (j : Journal) (slot : Slot) (upTo : ℕ) : Prop where
  above : ∀ t h, j.heads.get? t = some h → floor ≤ h → upTo ≤ h ∧ slot < t
  newest : ∃ t h, j.heads.get? t = some h ∧ upTo ≤ h ∧
    (floor < j.next → floor ≤ h ∧ slot < t - (maxSlots - 1))

def Accepts (maxSlots floor : ℕ) (j : Journal) : WriterCommand → Prop
  | .pushMessage init slot head index _ _ => index = j.next ∧
    (init → head = index ∧ ∀ h, j.heads.get? slot = some h → h < floor) ∧
    (floor ≤ index → init = true ∨ j.Placed maxSlots floor slot)
  | .restorePayload .. => True
  | .removeReplay slot upTo => ∃ n, upTo = some n ∧
    AcceptsTrim maxSlots floor { j with heads := j.heads.erase slot } slot n

def AcceptsAll (maxSlots floor : ℕ) : Journal → List WriterCommand → Prop
  | _, [] => True
  | j, command :: commands =>
    j.Accepts maxSlots floor command ∧ (j.apply command).AcceptsAll maxSlots floor commands

variable {maxSlots floor floor' : ℕ} {j : Journal} {l l' : List WriterCommand}

@[simp] theorem after_nil : j.after [] = j := rfl

@[simp] theorem after_cons (command : WriterCommand) :
    j.after (command :: l) = (j.apply command).after l := rfl

@[simp] theorem after_append : j.after (l ++ l') = (j.after l).after l' := List.foldl_append ..

theorem acceptsAll_append : ∀ {j : Journal} {l : List WriterCommand},
    j.AcceptsAll maxSlots floor (l ++ l') ↔
      j.AcceptsAll maxSlots floor l ∧ (j.after l).AcceptsAll maxSlots floor l'
  | j, [] => by simp [AcceptsAll]
  | j, command :: l => by
    show j.Accepts maxSlots floor command ∧ (j.apply command).AcceptsAll maxSlots floor (l ++ l') ↔
      (j.Accepts maxSlots floor command ∧ (j.apply command).AcceptsAll maxSlots floor l) ∧ _
    rw [acceptsAll_append, and_assoc]
    rfl

theorem Accepts.le {command : WriterCommand} (h : j.Accepts maxSlots floor command) :
    j.next ≤ (j.apply command).next := by
  cases command with
  | pushMessage init slot head index message commitment =>
    obtain ⟨rfl, -⟩ := h
    exact Nat.le_succ _
  | restorePayload => exact le_rfl
  | removeReplay => exact le_rfl

theorem AcceptsAll.le : ∀ {j : Journal} {l : List WriterCommand}, j.AcceptsAll maxSlots floor l →
    j.next ≤ (j.after l).next
  | _, [], _ => le_rfl
  | _, _ :: _, h => h.1.le.trans h.2.le

/-- An epoch that begins after the commands asks for less. -/
theorem AcceptsAll.mono (hle : floor ≤ floor') : ∀ {j : Journal} {l : List WriterCommand},
    j.AcceptsAll maxSlots floor l → (j.after l).next ≤ floor' → j.AcceptsAll maxSlots floor' l
  | _, [], _, _ => trivial
  | j, command :: l, h, hnext => by
    refine ⟨?_, h.2.mono hle hnext⟩
    have hfloor := h.2.le.trans hnext
    have hcommand := h.1
    cases command with
    | pushMessage init slot head index message commitment =>
      obtain ⟨hindex, hinit, -⟩ := hcommand
      exact ⟨hindex, fun h => ⟨(hinit h).1, fun n hn => ((hinit h).2 n hn).trans_le hle⟩,
        fun hle => absurd hfloor (not_le.mpr (Nat.lt_succ_of_le hle))⟩
    | restorePayload => trivial
    | removeReplay slot upTo =>
      obtain ⟨n, rfl, habove, t, h, hget, hupTo, -⟩ := hcommand
      exact ⟨n, rfl, fun t h hget hlt => habove t h hget (hle.trans hlt), t, h, hget, hupTo,
        fun hlt => absurd hfloor (not_le.mpr hlt)⟩

end Journal

/-- Commands that record messages of a slot whose first index is `slotHead`: the slot begins with them
if that is the next index. -/
structure Journal.Records (maxSlots floor : ℕ) (slot slotHead : ℕ) (j : Journal)
    (l : List WriterCommand) (j' : Journal) : Prop where
  le : j.next ≤ j'.next
  accepts : j.AcceptsAll maxSlots floor l
  after : j.after l = j'
  heads : j'.heads =
    if slotHead = j.next ∧ j.next < j'.next then j.heads.insert slot slotHead else j.heads

/-- The slot begins with the next record, or its records have their place. -/
def Journal.Ready (maxSlots floor slot slotHead : ℕ) (j : Journal) : Prop :=
  floor ≤ j.next ∧ (slotHead = j.next ∧ (∀ h, j.heads.get? slot = some h → h < floor) ∨
    slotHead < j.next ∧ j.Placed maxSlots floor slot)

namespace Journal.Records

variable {maxSlots floor slot slotHead : ℕ} {j j₁ j₂ : Journal} {l l' : List WriterCommand}

theorem refl : Records maxSlots floor slot slotHead j [] j where
  le := le_rfl
  accepts := trivial
  after := rfl
  heads := by rw [if_neg fun h => lt_irrefl _ h.2]

theorem restore {index : ℕ} {message : ParsedMessage} :
    Records maxSlots floor slot slotHead j [.restorePayload index message] j where
  le := le_rfl
  accepts := ⟨trivial, trivial⟩
  after := rfl
  heads := by rw [if_neg fun h => lt_irrefl _ h.2]

theorem trans (hle : slotHead ≤ j.next) (h : Records maxSlots floor slot slotHead j l j₁)
    (h' : Records maxSlots floor slot slotHead j₁ l' j₂) :
    Records maxSlots floor slot slotHead j (l ++ l') j₂ where
  le := h.le.trans h'.le
  accepts := acceptsAll_append.mpr ⟨h.accepts, by rw [h.after]; exact h'.accepts⟩
  after := by rw [after_append, h.after, h'.after]
  heads := by
    rw [h'.heads, h.heads]
    rcases h.le.eq_or_lt with heq | hlt
    · rw [← heq, if_neg (fun h : slotHead = j.next ∧ _ => lt_irrefl _ h.2)]
    · -- the slot has begun with the first commands, if at all
      rw [if_neg fun h => absurd h.1 (hle.trans_lt hlt).ne]
      simp only [hlt, hlt.trans_le h'.le, and_true]

end Journal.Records

namespace Journal.Ready

variable {maxSlots floor slot slotHead index : ℕ} {j j' : Journal} {init : Bool}
  {message : ParsedMessage} {commitment : CommitmentLevel} {l : List WriterCommand}

theorem le (h : j.Ready maxSlots floor slot slotHead) : slotHead ≤ j.next := by
  rcases h.2 with ⟨heq, -⟩ | ⟨hlt, -⟩
  · exact heq.le
  · exact hlt.le

/-- The next record of the slot. -/
theorem records (h : j.Ready maxSlots floor slot slotHead) :
    ∃ j', j'.next = j.next + 1 ∧ j'.Ready maxSlots floor slot slotHead ∧ j.Records maxSlots floor slot slotHead
      [.pushMessage (j.next = slotHead) slot slotHead j.next message commitment] j' := by
  obtain ⟨hfloor, hready⟩ := h
  refine ⟨_, ?_, ⟨?_, Or.inr ⟨?_, ?_⟩⟩, ?_, ⟨⟨rfl, ?_, ?_⟩, trivial⟩, rfl, ?_⟩
  · rfl
  · exact hfloor.trans (Nat.le_succ _)
  · rcases hready with ⟨rfl, -⟩ | ⟨hlt, -⟩
    · exact Nat.lt_succ_self _
    · exact hlt.trans (Nat.lt_succ_self _)
  · show (⟨j.next + 1, if decide (j.next = slotHead) then j.heads.insert slot slotHead else j.heads⟩ :
      Journal).Placed maxSlots floor slot
    rcases hready with ⟨rfl, -⟩ | ⟨hlt, ⟨n, hget, hle, hnext⟩ | hbehind⟩
    · refine Or.inl ⟨j.next, ?_, hfloor, Nat.le_succ _⟩
      simp
    · refine Or.inl ⟨n, ?_, hle, hnext.trans (Nat.le_succ _)⟩
      simpa [hlt.ne'] using hget
    · refine Or.inr ?_
      simpa [hlt.ne'] using hbehind
  · exact Nat.le_succ _
  · intro heq
    have heq := of_decide_eq_true heq
    refine ⟨heq.symm, ?_⟩
    rcases hready with ⟨-, hnew⟩ | ⟨hlt, -⟩
    · exact hnew
    · exact absurd heq hlt.ne'
  · intro _
    rcases hready with ⟨rfl, -⟩ | ⟨-, hplaced⟩
    · exact Or.inl (decide_eq_true rfl)
    · exact Or.inr hplaced
  · show (if decide (j.next = slotHead) then _ else _) = ite (_ ∧ j.next < j.next + 1) _ _
    by_cases heq : slotHead = j.next
    · simp [heq]
    · simp [heq, Ne.symm heq]

end Journal.Ready

/-- A message leaves the first index of its slot alone. -/
theorem SlotInfo.receive_index {info info' : SlotInfo} {message : ParsedMessage} {arc : ℕ}
    {selected : Option (Option BankId)} {block : Option ParsedMessage}
    (h : info.receive message arc = .ok (info', selected, block)) : info'.index = info.index := by
  cases hslot : message.message.isSlot with
  | false =>
    obtain ⟨info₁, block₁, hget, heq⟩ := (receive_message hslot).mp h
    cases heq
    exact (getBlockMessage_confirmedBank hget).2
  | true =>
    obtain ⟨a, message⟩ := message
    cases message with
    | slot msg =>
      unfold receive at h
      dsimp only at h
      unfold commit at h
      cases hstatus : msg.status with
      | slotConfirmed =>
        simp only [hstatus] at h
        split at h <;> cases h <;> rfl
      | slotFinalized | slotProcessed | slotFirstShredReceived | slotCompleted | slotCreatedBank
        | slotDead =>
        simp only [hstatus] at h
        cases h
        rfl
    | account | transaction | entry | blockMeta | block | blockFooter | entryUpdateParent =>
      cases hslot

/-! ### The commands of one event -/

/-- The command that an effect sends to the writer. -/
def Effect.command? : Effect → Option WriterCommand
  | .writer command => some command
  | _ => none

/-- The commands to the writer. -/
def commands (effects : List Effect) : List WriterCommand := effects.filterMap (·.command?)

@[simp] theorem commands_append (l l' : List Effect) :
    commands (l ++ l') = commands l ++ commands l' := List.filterMap_append

section Route

variable {cfg : Config} {maxSlots slot slotHead index floor : ℕ} {j : Journal}
  {l : List (CommitmentLevel × ParsedMessage)}

theorem le_pushStored (l : List (CommitmentLevel × ParsedMessage)) : ∀ index,
    index ≤ (pushStored cfg slot slotHead index l).1 := by
  induction l with
  | nil => exact fun index => le_rfl
  | cons p l ih =>
    intro index
    unfold pushStored
    dsimp only
    split
    · exact (Nat.le_succ index).trans (ih (index + 1))
    · exact ih index

variable (cfg maxSlots slot floor) in
/-- The records of some publications. -/
theorem records_pushStored (l : List (CommitmentLevel × ParsedMessage)) :
    ∀ {j : Journal}, j.Ready maxSlots floor slot slotHead → ∃ j',
      j.Records maxSlots floor slot slotHead
        (commands (pushStored cfg slot slotHead j.next l).2) j' ∧
      j'.next = (pushStored cfg slot slotHead j.next l).1 ∧ j'.Ready maxSlots floor slot slotHead := by
  induction l with
  | nil => exact fun {j} h => ⟨j, .refl, rfl, h⟩
  | cons p l ih =>
    intro j hready
    obtain ⟨commitment, message⟩ := p
    unfold pushStored
    dsimp only
    split
    · obtain ⟨j₁, hnext₁, hready₁, hfirst⟩ :=
        hready.records
      obtain ⟨j', h, hnext, hready'⟩ := ih hready₁
      rw [hnext₁] at h hnext
      exact ⟨j', hfirst.trans hready.le h, hnext, hready'⟩
    · exact ih hready

/-- With a journal, a processed message is recorded. -/
theorem lt_pushStored (hstorage : cfg.storage.isSome) {message : ParsedMessage}
    (l : List (CommitmentLevel × ParsedMessage)) : ∀ {index : ℕ},
    (.processed, message) ∈ l → index < (pushStored cfg slot slotHead index l).1 := by
  obtain ⟨storage, hstorage⟩ := Option.isSome_iff_exists.mp hstorage
  induction l with
  | nil =>
    intro index h
    cases h
  | cons p l ih =>
    intro index h
    unfold pushStored
    dsimp only
    split
    · exact le_pushStored l (index + 1)
    · rename_i hno
      rcases List.mem_cons.mp h with rfl | h
      · simp [hstorage] at hno
      · exact ih h

end Route

namespace PushState

variable {cfg : Config} {maxSlots slot slotHead floor : ℕ} {j : Journal} {cb : Option (Option BankId)}
  {st st' : PushState} {eff : List Effect} {message : ParsedMessage}

variable (maxSlots st) in
/-- What a message that takes its route sends. -/
theorem records_route (hnext : j.next = st.sender.index) (hready : j.Ready maxSlots floor slot slotHead) :
    ∃ j', j.Records maxSlots floor slot slotHead
        (commands (st.route cfg slot slotHead cb message).2) j' ∧
      j'.next = (st.route cfg slot slotHead cb message).1.sender.index ∧
      j'.Ready maxSlots floor slot slotHead ∧ (cfg.storage.isSome → j.next < j'.next) := by
  obtain ⟨j₁, h₁, hnext₁, hready₁⟩ :=
    records_pushStored cfg maxSlots slot floor (promoted cfg st.sender slot cb message) hready
  obtain ⟨j₂, h₂, hnext₂, hready₂⟩ :=
    records_pushStored cfg maxSlots slot floor (drained cfg st.sender slot cb message) hready₁
  have hlt : cfg.storage.isSome → j₁.next < j₂.next := by
    intro hstorage
    rw [hnext₂]
    exact lt_pushStored hstorage _ (List.mem_append_right _ (List.mem_singleton.mpr rfl))
  refine ⟨j₂, ?_, ?_, hready₂, fun hstorage => h₁.le.trans_lt (hlt hstorage)⟩
  · have h := h₁.trans hready.le h₂
    rw [hnext₁, hnext] at h
    unfold route
    dsimp only
    split
    · rw [commands_append]
      exact h
    · rw [commands_append]
      exact h
  · rw [hnext₂, hnext₁, hnext]
    unfold route
    dsimp only
    split <;> rfl

/-- What one message of the array sends: a message that was durable at the start restores its payload,
any other one takes its route. -/
theorem records_publish (hnext : j.next = st.sender.index) (hready : j.Ready maxSlots floor slot slotHead)
    (h : st.publish cfg slot slotHead cb message = .ok (st', eff)) :
    ∃ j', j.Records maxSlots floor slot slotHead (commands eff) j' ∧ j'.next = st'.sender.index ∧
      j'.Ready maxSlots floor slot slotHead ∧
      (cfg.storage.isSome → st.replay.messages = none → j.next < j'.next) := by
  unfold publish at h
  split at h
  · obtain ⟨rfl, rfl⟩ := Prod.ext_iff.mp (Except.ok.inj h)
    obtain ⟨j', hrecords, hindex, hready', hlt⟩ := records_route maxSlots st hnext hready
    exact ⟨j', hrecords, hindex, hready', fun hstorage _ => hlt hstorage⟩
  · rename_i messages hmessages
    split at h
    · cases h
    · split at h
      · cases h
        refine ⟨j, ?_, hnext, hready, fun _ hno => by rw [hmessages] at hno; cases hno⟩
        split
        · exact .restore
        · exact .refl
      · rename_i id hid _ hindex
        obtain ⟨rfl, rfl⟩ := Prod.ext_iff.mp (Except.ok.inj h)
        let replay : ReplayInfo := { st.replay with
          messages := some (Function.update messages id (some st.sender.index)) }
        obtain ⟨j', hrecords, hindex, hready', hlt⟩ :=
          records_route maxSlots { st with replay } hnext hready
        exact ⟨j', hrecords, hindex, hready', fun hstorage _ => hlt hstorage⟩

/-- What the publications of a message leave alone. -/
structure SameReplay (st st' : PushState) : Prop where
  head : st'.replay.head = st.replay.head
  messages : st.replay.messages = none → st'.replay.messages = none
  replay : st'.sender.replay = st.sender.replay
  slots : ∀ t info, st'.sender.slots.get? t = some info → st.sender.slots.get? t = some info

variable (cfg slot slotHead cb st message) in
theorem sameReplay_route : SameReplay st (st.route cfg slot slotHead cb message).1 := by
  cases hfinal : message.isFinalized with
  | false =>
    obtain ⟨index, heq⟩ := route_of_not_isFinalized cfg slot slotHead cb st hfinal
    rw [heq]
    exact ⟨rfl, id, rfl, fun t info h => h⟩
  | true =>
    obtain ⟨index, heq⟩ := route_of_isFinalized cfg slot slotHead cb st hfinal
    rw [heq]
    refine ⟨rfl, id, rfl, ?_⟩
    intro t info h
    unfold Sender.finalize at h
    dsimp only at h
    split at h
    · rw [SortedMap.get?_erase] at h
      split at h
      · cases h
      · exact h
    · exact h

theorem sameReplay_publish (h : st.publish cfg slot slotHead cb message = .ok (st', eff)) :
    SameReplay st st' := by
  rcases publish_cases h with ⟨rfl, -⟩ | ⟨replay, -, hhead, hnone, rfl, -⟩
  · exact ⟨rfl, id, rfl, fun t info h => h⟩
  · have hroute := sameReplay_route cfg slot slotHead cb { st with replay } message
    exact ⟨hroute.head.trans hhead, fun h => hroute.messages (hnone h), hroute.replay, hroute.slots⟩

theorem SameReplay.trans {st₁ st₂ st₃ : PushState} (h : SameReplay st₁ st₂)
    (h' : SameReplay st₂ st₃) : SameReplay st₁ st₃ where
  head := h'.head.trans h.head
  messages := h'.messages ∘ h.messages
  replay := h'.replay.trans h.replay
  slots := fun t info hi => h.slots t info (h'.slots t info hi)

/-- The array of a message and its `Block`. -/
theorem records_run_publish : ∀ {l : List ParsedMessage} {j : Journal} {st st' : PushState}
    {eff : List Effect}, j.next = st.sender.index → j.Ready maxSlots floor slot slotHead →
    run (publish cfg slot slotHead cb) st l = .ok (st', eff) →
    ∃ j', j.Records maxSlots floor slot slotHead (commands eff) j' ∧ j'.next = st'.sender.index ∧
      j'.Ready maxSlots floor slot slotHead ∧
      (cfg.storage.isSome → st.replay.messages = none → l ≠ [] → j.next < j'.next) ∧
      SameReplay st st'
  | [], j, st, st', eff, hnext, hready, h => by
    simp only [run_nil, Except.ok.injEq, Prod.mk.injEq] at h
    obtain ⟨rfl, rfl⟩ := h
    exact ⟨j, .refl, hnext, hready, fun _ _ hno => absurd rfl hno, rfl, id, rfl, fun t info h => h⟩
  | m :: l, j, st, st', eff, hnext, hready, h => by
    obtain ⟨st₁, eff₁, eff₂, h₁, h₂, rfl⟩ := run_cons_ok.mp h
    obtain ⟨j₁, hr₁, hnext₁, hready₁, hlt₁⟩ := records_publish hnext hready h₁
    have hsame := sameReplay_publish h₁
    obtain ⟨j₂, hr₂, hnext₂, hready₂, -, hsame₂⟩ := records_run_publish hnext₁ hready₁ h₂
    refine ⟨j₂, ?_, hnext₂, hready₂, ?_, hsame.trans hsame₂⟩
    · rw [commands_append]
      exact hr₁.trans hready.le hr₂
    · intro hstorage hnone _
      exact (hlt₁ hstorage hnone).trans_le hr₂.le

variable (maxSlots floor) in
/-- **What one message of a push sends.** -/
theorem records_pushMessage {sourceName : SourceName} {message : Message}
    (hnext : j.next = st.sender.index) (hready : j.Ready maxSlots floor slot (st.slotInfo slot).index)
    (h : st.pushMessage cfg slot sourceName message = .ok (st', eff)) :
    ∃ j', j.Records maxSlots floor slot (st.slotInfo slot).index (commands eff) j' ∧
      j'.next = st'.sender.index ∧ j'.Ready maxSlots floor slot (st.slotInfo slot).index ∧
      (cfg.storage.isSome → st.replay.messages = none → j.next < j'.next) ∧
      st'.replay.head = st.replay.head ∧
      (st.replay.messages = none → st'.replay.messages = none) ∧
      st'.sender.replay = st.sender.replay ∧
      ∀ t info, st'.sender.slots.get? t = some info →
        (t = slot ∧ info.index = (st.slotInfo slot).index) ∨ st.sender.slots.get? t = some info := by
  unfold pushMessage at h
  dsimp only at h
  split at h
  · cases h
  · rename_i info' selected block hreceive
    split at h
    · cases h
    · rename_i st₁ eff₁ hrun
      cases h
      have hnext' : j.next = (st.setSlotInfo slot info').sender.index := hnext
      obtain ⟨j', hrecords, hindex, hready', hlt, hsame⟩ :=
        records_run_publish hnext' hready hrun
      refine ⟨j', hrecords, hindex, hready', fun hstorage hnone => hlt hstorage hnone (by simp),
        hsame.head, hsame.messages, hsame.replay, ?_⟩
      intro t info hinfo
      have hget := hsame.slots t info hinfo
      change (st.sender.slots.insert slot info').get? t = some info at hget
      rw [SortedMap.get?_insert] at hget
      split at hget
      · rename_i heq
        cases hget
        exact Or.inl ⟨heq, SlotInfo.receive_index hreceive⟩
      · exact Or.inr hget

end PushState

end Richat
