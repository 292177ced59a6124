import Richat.Channel.NewEvent
import Richat.Channel.Completeness

/-!
# The write versions of deduplication

Deduplication numbers the account updates that it passes on: an update without a signature by the
updates without a signature before it, any other by the place of its transaction. `Numbered` says
which number an update gets, `Sender.Numbers` that a run keeps to it, and for a sequence in the
node's order the numbers of the updates of an account are in the order of the write versions that
they replace (`NodeOrder.eq_of_numbered`).
-/

namespace Richat

open Lib

/-- The account updates of a list. -/
def updates (ms : List Message) : List MessageAccount :=
  ms.filterMap fun
    | .account msg => some msg
    | _ => none

theorem mem_updates {ms : List Message} {a : MessageAccount} : a ∈ updates ms ↔ .account a ∈ ms := by
  unfold updates
  rw [List.mem_filterMap]
  constructor
  · rintro ⟨m, hm, h⟩
    cases m <;> cases h
    exact hm
  · exact fun h => ⟨_, h, rfl⟩

/-- The number of updates without a signature. -/
def unsignedCount (ms : List Message) : ℕ :=
  ((updates ms).filter (·.txnSignature = none)).length

/-- The update `b` can follow the update `a`: an account has at most one update without a signature,
before those of its transactions, which come in the order of the transactions. -/
structure Precedes (ms : List Message) (a b : MessageAccount) : Prop where
  writeVersion : a.writeVersion < b.writeVersion
  signed : a.pubkey = b.pubkey → b.txnSignature ≠ none
  index : a.pubkey = b.pubkey → ∀ tx tx', .transaction tx ∈ ms → .transaction tx' ∈ ms →
    ∀ signature signature', a.txnSignature = some signature → b.txnSignature = some signature' →
    tx.signatureBytes = some signature → tx'.signatureBytes = some signature' → tx.index < tx'.index

/-- The order in which the node sends the account updates of a bank. The updates without a signature
fit into the space that is kept for them, and no place in it overflows. -/
structure NodeOrder (ms : List Message) : Prop where
  order : (updates ms).Pairwise (Precedes ms)
  reserved : unsignedCount ms ≤ 1000
  index_lt : ∀ tx, .transaction tx ∈ ms → tx.index + 1000 < 2 ^ 64

/-- Deduplication gives the update `a` the write version `w`. -/
structure Numbered (ms : List Message) (a : MessageAccount) (w : ℕ) : Prop where
  unsigned : a.txnSignature = none → w < unsignedCount ms
  signed : ∀ signature, a.txnSignature = some signature → ∃ tx, .transaction tx ∈ ms ∧
    tx.signatureBytes = some signature ∧ w = transactionWriteVersion tx.index

variable {ms out : List Message} {m : Message} {a c : MessageAccount} {w w' : ℕ}

theorem transactionWriteVersion_of_lt {index : ℕ} (h : index + 1000 < 2 ^ 64) :
    transactionWriteVersion index = index + 1000 := Nat.mod_eq_of_lt h

/-- **The numbers follow the write versions** of the node. -/
theorem NodeOrder.eq_of_numbered (h : NodeOrder ms) (ha : .account a ∈ ms) (hc : .account c ∈ ms)
    (hkey : a.pubkey = c.pubkey) (hle : a.writeVersion ≤ c.writeVersion) (hna : Numbered ms a w)
    (hnc : Numbered ms c w') (hle' : w' ≤ w) : a = c := by
  by_contra hne
  have hsymm : Std.Symm fun a b => Precedes ms a b ∨ Precedes ms b a := ⟨fun _ _ => Or.symm⟩
  have horder : Precedes ms a c ∨ Precedes ms c a :=
    (h.order.imp (S := fun a b => Precedes ms a b ∨ Precedes ms b a) Or.inl).forall
      (mem_updates.mpr ha) (mem_updates.mpr hc) hne
  rcases horder with hp | hp
  · -- `c` is an update of a transaction, whose number is above the numbers of `a`
    have hsigned := hp.signed hkey
    obtain ⟨signature', hc'⟩ := Option.ne_none_iff_exists'.mp hsigned
    obtain ⟨tx', htx', hsig', hw'⟩ := hnc.signed signature' hc'
    rw [hw', transactionWriteVersion_of_lt (h.index_lt tx' htx')] at hle'
    cases ha' : a.txnSignature with
    | none =>
      have hlt := hna.unsigned ha'
      have hreserved := h.reserved
      omega
    | some signature =>
      obtain ⟨tx, htx, hsig, hw⟩ := hna.signed signature ha'
      rw [hw, transactionWriteVersion_of_lt (h.index_lt tx htx)] at hle'
      have hlt := hp.index hkey tx tx' htx htx' signature signature' ha' hc' hsig hsig'
      omega
  · exact absurd hp.writeVersion (Nat.not_lt_of_le hle)

theorem unsignedCount_append (ms ms' : List Message) :
    unsignedCount (ms ++ ms') = unsignedCount ms + unsignedCount ms' := by
  simp [unsignedCount, updates]

theorem Numbered.append (h : Numbered ms a w) (ms' : List Message) : Numbered (ms ++ ms') a w where
  unsigned := by
    intro ha
    rw [unsignedCount_append]
    exact (h.unsigned ha).trans_le (Nat.le_add_right _ _)
  signed := by
    intro signature ha
    obtain ⟨tx, htx, hrest⟩ := h.signed signature ha
    exact ⟨tx, List.mem_append_left _ htx, hrest⟩

/-- The update is one of the list, with its number for write version. -/
def IsNumbered (ms : List Message) (a : MessageAccount) : Prop :=
  ∃ o, .account o ∈ ms ∧ a = o.updateWriteVersion a.writeVersion ∧ Numbered ms o a.writeVersion

theorem IsNumbered.append (h : IsNumbered ms a) (ms' : List Message) : IsNumbered (ms ++ ms') a := by
  obtain ⟨o, ho, heq, hn⟩ := h
  exact ⟨o, List.mem_append_left _ ho, heq, hn.append ms'⟩

/-- The dedup state of a bank, after the messages `ms` of a source. -/
structure DedupInfoBank.Numbers (ms : List Message) (dedup : DedupInfoBank) : Prop where
  phantom : dedup.accountsUpdatesPhantomIndex ≤ unsignedCount ms
  known : ∀ (signature : Signature) index, dedup.transactions signature = some (.index index) →
    ∃ tx, .transaction tx ∈ ms ∧ tx.signatureBytes = some signature.1 ∧
      index = transactionWriteVersion tx.index
  parked : ∀ (signature : Signature) vec, dedup.IsParked signature vec →
    ∀ a ∈ vec, .account a ∈ ms ∧ a.txnSignature = some signature.1

namespace DedupInfoBank

variable {dedup dedup' : DedupInfoBank}

theorem numbers_default (ms : List Message) : DedupInfoBank.default.Numbers ms where
  phantom := Nat.zero_le _
  known := fun _ _ h => (by cases h)
  parked := by
    rintro _ _ (⟨-, rfl⟩ | h)
    · simp
    · cases h

theorem Numbers.append (h : dedup.Numbers ms) (ms' : List Message) : dedup.Numbers (ms ++ ms') where
  phantom := by
    rw [unsignedCount_append]
    exact h.phantom.trans (Nat.le_add_right _ _)
  known := by
    intro signature index hindex
    obtain ⟨tx, htx, hrest⟩ := h.known signature index hindex
    exact ⟨tx, List.mem_append_left _ htx, hrest⟩
  parked := by
    intro signature vec hvec a ha
    exact (h.parked signature vec hvec a ha).imp_left (List.mem_append_left _)

/-- The transactions and the counter stay. -/
theorem Numbers.congr (h : dedup.Numbers ms) (same : dedup'.transactions = dedup.transactions)
    (phantom : dedup'.accountsUpdatesPhantomIndex ≤ unsignedCount ms) : dedup'.Numbers ms where
  phantom := phantom
  known := by
    rw [same]
    exact h.known
  parked := by
    intro signature vec hvec
    exact h.parked signature vec ((isParked_of_same same).mp hvec)

/-- A new message is numbered, and what it releases. -/
theorem Numbers.passes (h : dedup.Numbers ms) (hp : dedup.Passes dedup' m out) :
    dedup'.Numbers (ms ++ [m]) ∧ ∀ a, .account a ∈ out → IsNumbered (ms ++ [m]) a := by
  have h' := h.append [m]
  have hm : m ∈ ms ++ [m] := by simp
  cases hp with
  | other hacc ht same phantom =>
    refine ⟨h'.congr same (phantom ▸ h'.phantom), fun a ha => ?_⟩
    exact absurd (List.mem_singleton.mp ha).symm (hacc a)
  | @unsigned msg hsig same phantom =>
    have hcount : unsignedCount (ms ++ [.account msg]) = unsignedCount ms + 1 := by
      rw [unsignedCount_append]
      simp [unsignedCount, updates, hsig]
    have hlt : dedup.accountsUpdatesPhantomIndex < unsignedCount (ms ++ [.account msg]) :=
      hcount ▸ Nat.lt_succ_of_le h.phantom
    refine ⟨h'.congr same (phantom ▸ hlt), fun a ha => ?_⟩
    cases List.mem_singleton.mp ha
    refine ⟨msg, hm, rfl, fun _ => hlt, fun signature hs => ?_⟩
    rw [hsig] at hs
    cases hs
  | @known msg signature index hsig hknown same phantom =>
    refine ⟨h'.congr same (phantom ▸ h'.phantom), fun a ha => ?_⟩
    cases List.mem_singleton.mp ha
    refine ⟨msg, hm, rfl, fun hnone => ?_, fun signature' hs => ?_⟩
    · rw [hsig] at hnone
      cases hnone
    · rw [hsig] at hs
      cases hs
      exact h'.known signature index hknown
  | @parks msg signature vec hsig hvec set phantom =>
    refine ⟨⟨phantom ▸ h'.phantom, fun s index hindex => ?_, fun s vec' hvec' => ?_⟩, by simp⟩
    · rw [set, Function.update_apply] at hindex
      split at hindex
      · cases hindex
      · exact h'.known s index hindex
    · rw [isParked_of_update set] at hvec'
      split at hvec'
      · rename_i heq
        cases hvec'
        intro a ha
        rcases List.mem_append.mp ha with ha | ha
        · exact heq ▸ h'.parked signature vec hvec a ha
        · rw [List.mem_singleton.mp ha, heq]
          exact ⟨hm, hsig⟩
      · exact h'.parked s vec' hvec'
  | @releases msg signature vec hsig hvec set phantom =>
    refine ⟨⟨phantom ▸ h'.phantom, fun s index hindex => ?_, fun s vec' hvec' => ?_⟩, fun a ha => ?_⟩
    · rw [set, Function.update_apply] at hindex
      split at hindex
      · rename_i heq
        simp only [Option.some.injEq, DedupInfoTransactionIndex.index.injEq] at hindex
        exact ⟨msg, hm, heq ▸ hsig, hindex.symm⟩
      · exact h'.known s index hindex
    · rw [isParked_of_update set] at hvec'
      split at hvec'
      · cases hvec'
      · exact h'.parked s vec' hvec'
    · rcases List.mem_append.mp ha with ha | ha
      · obtain ⟨b, hb, hba⟩ := List.mem_map.mp ha
        cases hba
        obtain ⟨o, ho, rfl⟩ := List.mem_map.mp hb
        obtain ⟨hmem, hosig⟩ := h'.parked signature vec hvec o ho
        refine ⟨o, hmem, rfl, fun hnone => ?_, fun signature' hs => ?_⟩
        · rw [hosig] at hnone
          cases hnone
        · rw [hosig] at hs
          cases hs
          exact ⟨msg, hm, hsig, rfl⟩
      · cases List.mem_singleton.mp ha

end DedupInfoBank

/-- The dedup state of a slot, after the messages `ms` of a source. -/
def DedupInfo.Numbers (ms : List Message) (dedup : DedupInfo) : Prop :=
  ∀ bankId, (dedup.banks bankId).Numbers ms

theorem DedupInfo.Numbers.passes {dedup dedup' : DedupInfo} {sourceName : SourceName}
    (h : dedup.Numbers ms) (hp : dedup.Passes sourceName m dedup' out) :
    dedup'.Numbers (ms ++ [m]) ∧ ∀ a, .account a ∈ out → IsNumbered (ms ++ [m]) a := by
  rcases hp.cases with ⟨hm, rfl, hbanks⟩ | ⟨-, hbank⟩
  · refine ⟨fun bankId => hbanks ▸ (h bankId).append [m], fun a ha => ?_⟩
    rw [← List.mem_singleton.mp ha] at hm
    cases hm
  · obtain ⟨hnumbers, hout⟩ := (h m.bankId).passes hbank
    refine ⟨fun bankId => ?_, hout⟩
    by_cases hb : bankId = m.bankId
    · exact hb ▸ hnumbers
    · rw [hp.other bankId hb]
      exact (h bankId).append [m]

namespace Sender

/-- What deduplication passed on of the messages `ms` of a source is numbered. -/
structure Numbers (ms : List Message) (s : Sender) (tr : List Effect) : Prop where
  dedup : ∀ t d, s.dedup.get? t = some d → d.Numbers ms
  received : ∀ x ∈ received tr, ∀ a, x.message = .account a → IsNumbered ms a

variable {cfg : Config} {s s' s₁ : Sender} {sourceName : SourceName} {tr eff : List Effect}
  {input : PushInput}

theorem Initial.numbers (h : s.Initial) : s.Numbers [] [] where
  dedup := by
    rw [h.dedup]
    simp
  received := by simp

theorem dedup_pushMessage {st st' : PushState} {slot : Slot}
    (h : st.pushMessage cfg slot sourceName m = .ok (st', eff)) :
    st'.sender.dedup = st.sender.dedup := by
  cases hm : m.isSlot with
  | false =>
    obtain ⟨info, block, kept, hstep⟩ := PushState.pushMessage_message hm h
    exact hstep.dedup
  | true =>
    cases m with
    | slot msg =>
      obtain ⟨info, selected, kept, hstep⟩ := PushState.pushMessage_status h
      exact hstep.dedup
    | _ => cases hm

/-- A push receives what deduplication passes on. -/
theorem received_push (h : s.push cfg input = .ok (s', eff)) : ∀ x ∈ received eff,
    s.floor < input.slot ∧
      ∃ s₁ messages, s.dedupMessage input = .ok (s₁, messages) ∧ x.message ∈ messages := by
  refine push_rule (P := fun _ eff => ∀ x ∈ received eff, s.floor < input.slot ∧
      ∃ s₁ messages, s.dedupMessage input = .ok (s₁, messages) ∧ x.message ∈ messages)
    (L := fun _ eff rest => s.floor < input.slot ∧ ∃ s₁ messages,
      s.dedupMessage input = .ok (s₁, messages) ∧ (∀ x ∈ received eff, x.message ∈ messages) ∧
        ∀ m ∈ rest, m ∈ messages) (by simp) ?_ ?_ ?_ h
  · intro s₁ messages hfloor _ hdedup
    exact ⟨fun _ => by simp, fun _ => ⟨hfloor, s₁, messages, hdedup, by simp, fun m hm => hm⟩⟩
  · rintro st eff m ms st' eff' ⟨hfloor, s₁, messages, hdedup, heff, hrest⟩ hpush
    refine ⟨hfloor, s₁, messages, hdedup, fun x hx => ?_, fun m' hm' => hrest m' (by simp [hm'])⟩
    rw [received_append, (received_pushMessage hpush).1, List.mem_append, List.mem_singleton] at hx
    rcases hx with hx | rfl
    · exact heff x hx
    · exact hrest m (by simp)
  · rintro st eff ⟨hfloor, s₁, messages, hdedup, heff, -⟩ x hx
    rw [received_append, received_finish, List.append_nil] at hx
    exact ⟨hfloor, s₁, messages, hdedup, heff x hx⟩

/-- A dedup state after a push is from before the push, or from its deduplication. -/
theorem dedup_push (h : s.push cfg input = .ok (s', eff)) {t : Slot} {d : DedupInfo}
    (hd : s'.dedup.get? t = some d) : s.dedup.get? t = some d ∨ (s.floor < input.slot ∧
      ∃ s₁ messages, s.dedupMessage input = .ok (s₁, messages) ∧ s₁.dedup.get? t = some d) := by
  refine push_rule (P := fun s' _ => s'.dedup.get? t = some d → s.dedup.get? t = some d ∨
      (s.floor < input.slot ∧ ∃ s₁ messages, s.dedupMessage input = .ok (s₁, messages) ∧
        s₁.dedup.get? t = some d))
    (L := fun st _ _ => s.floor < input.slot ∧ ∃ s₁ messages,
      s.dedupMessage input = .ok (s₁, messages) ∧ st.sender.dedup = s₁.dedup) Or.inl ?_ ?_ ?_ h hd
  · intro s₁ messages hfloor _ hdedup
    exact ⟨fun _ hd => Or.inr ⟨hfloor, s₁, messages, hdedup, hd⟩,
      fun _ => ⟨hfloor, s₁, messages, hdedup, rfl⟩⟩
  · rintro st eff m ms st' eff' ⟨hfloor, s₁, messages, hdedup, heq⟩ hpush
    exact ⟨hfloor, s₁, messages, hdedup, (dedup_pushMessage hpush).trans heq⟩
  · rintro st eff ⟨hfloor, s₁, messages, hdedup, heq⟩ hd
    rw [(finishStep cfg input.slot st).dedup, SortedMap.get?_popExcess] at hd
    split at hd
    · cases hd
    · rw [get?_cleaned_dedup] at hd
      split at hd
      · cases hd
      · exact Or.inr ⟨hfloor, s₁, messages, hdedup, heq ▸ hd⟩

/-- **A push keeps to the numbers.** -/
theorem Numbers.push (h : s.Numbers ms tr) (hpasses : ∀ d out, s.floor < m.slotOf →
      ((s.dedup.get? m.slotOf).getD .default).push sourceName m = .ok (d, out) →
      ((s.dedup.get? m.slotOf).getD .default).Passes sourceName m d out)
    (hpush : s.push cfg ⟨true, sourceName, m⟩ = .ok (s', eff)) :
    s'.Numbers (ms ++ [m]) (tr ++ eff) := by
  have hbefore : ((s.dedup.get? m.slotOf).getD .default).Numbers ms := by
    cases hd : s.dedup.get? m.slotOf with
    | none => exact fun _ => DedupInfoBank.numbers_default ms
    | some d => exact h.dedup m.slotOf d hd
  have hdedup : ∀ s₁ messages, s.floor < m.slotOf →
      s.dedupMessage ⟨true, sourceName, m⟩ = .ok (s₁, messages) →
      (∀ t d, s₁.dedup.get? t = some d → d.Numbers (ms ++ [m])) ∧
        ∀ a, .account a ∈ messages → IsNumbered (ms ++ [m]) a := by
    intro s₁ messages hfloor hs₁
    rcases dedupMessage_cases hs₁ with ⟨hno, -⟩ | ⟨-, d, hd, rfl⟩
    · cases hno
    · obtain ⟨hnumbers, hout⟩ := hbefore.passes (hpasses d messages hfloor hd)
      refine ⟨fun t d' hd' => ?_, hout⟩
      rw [SortedMap.get?_insert] at hd'
      split at hd'
      · cases hd'
        exact hnumbers
      · exact fun bankId => (h.dedup t d' hd' bankId).append [m]
  constructor
  · intro t d hd
    rcases dedup_push hpush hd with hold | ⟨hfloor, s₁, messages, hs₁, hd⟩
    · exact fun bankId => (h.dedup t d hold bankId).append [m]
    · exact (hdedup s₁ messages hfloor hs₁).1 t d hd
  · intro x hx a ha
    rw [received_append, List.mem_append] at hx
    rcases hx with hx | hx
    · exact (h.received x hx a ha).append [m]
    · obtain ⟨hfloor, s₁, messages, hs₁, hmem⟩ := received_push hpush x hx
      exact (hdedup s₁ messages hfloor hs₁).2 a (ha ▸ hmem)

end Sender

end Richat
