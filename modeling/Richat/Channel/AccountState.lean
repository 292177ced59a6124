import Richat.Channel.SingleBank

/-!
# The state of the accounts of a bank

One bank of a slot, and the messages of one source for it in the node's order, pushed with and
without deduplication (`TwoRuns`). When nothing waits for its transaction the banks keep the same
account updates (`TwoRuns.sameAccounts`), so the `Block`, the confirmed promotion and the finalized
stream have them (`accounts_transparent`).
-/

namespace Richat

open Lib

/-- Every update in the list has its transaction there. -/
def AllReleased (l : List Message) : Prop := ∀ m ∈ l, ∀ k ∈ m.waitsFor, k ∈ signatures l

/-- No update waits for its transaction where the `Block` stands in the list, and at the end if there
is none. -/
def Delivered (l : List Message) : Prop :=
  ∀ l₁ l₂, l = l₁ ++ l₂ → (∃ b l₃, l₂ = .block b :: l₃) ∨ (l₂ = [] ∧ ∀ b, .block b ∉ l) →
    AllReleased l₁

/-- The update of an account in a list, without its write version. -/
def survivors (pubkey : Pubkey) (l : List MessageAccount) : List MessageAccount :=
  (l.filter (·.pubkey = pubkey)).map (·.updateWriteVersion 0)

def ParsedMessage.getBlock (msg : ParsedMessage) : Option MessageBlock :=
  match msg.message with
  | .block m => some m
  | _ => none

theorem AllReleased.append {l l' : List Message} (h : AllReleased l)
    (h' : ∀ m ∈ l', m.waitsFor = none) : AllReleased (l ++ l') := by
  intro m hm k hk
  rw [signatures_append]
  rcases List.mem_append.mp hm with hm | hm
  · exact List.mem_append_left _ (h m hm k hk)
  · rw [h' m hm] at hk
    cases hk

instance (l : List Message) : Decidable (AllReleased l) :=
  decidable_of_iff (∀ m ∈ l, ∀ k ∈ m.waitsFor, (signatures l).contains k = true) (by simp [AllReleased])

/-- `Delivered`, place by place. -/
def DeliveredPlaces (l : List Message) : Prop :=
  ∀ n ∈ List.range (l.length + 1), n = l.length ∨ (l[n]?).any Message.isBlock →
    AllReleased (l.take n)

instance (l : List Message) : Decidable (DeliveredPlaces l) := by
  unfold DeliveredPlaces
  infer_instance

theorem DeliveredPlaces.delivered {l : List Message} (h : DeliveredPlaces l) : Delivered l := by
  rintro l₁ l₂ rfl hcases
  have hreleased := h l₁.length (by simp)
  rw [List.take_left] at hreleased
  refine hreleased ?_
  rcases hcases with ⟨b, l₃, rfl⟩ | ⟨rfl, -⟩
  · exact Or.inr (by simp)
  · exact Or.inl (by simp)

theorem Delivered.of_status {l : List Message} {m : Message} (h : Delivered (l ++ [m]))
    (hm : m.isSlot) : Delivered l := by
  have hnone := Message.unsigned_of_isSlot hm
  rintro l₁ l₂ rfl (⟨b, l₃, rfl⟩ | ⟨rfl, hno⟩)
  · exact h l₁ (.block b :: (l₃ ++ [m])) (by simp) (Or.inl ⟨b, l₃ ++ [m], rfl⟩)
  · rw [List.append_nil] at h hno
    have hall : AllReleased (l₁ ++ [m]) := by
      refine h (l₁ ++ [m]) [] (List.append_nil _).symm (Or.inr ⟨rfl, fun b hb => ?_⟩)
      rcases List.mem_append.mp hb with hb | hb
      · exact hno b hb
      · rw [← List.mem_singleton.mp hb] at hm
        cases hm
    intro m' hm' k hk
    have hmem := hall m' (List.mem_append_left _ hm') k hk
    rw [signatures_append, List.mem_append] at hmem
    refine hmem.resolve_right fun hno => ?_
    have hnil : signatures [m] = [] := List.filterMap_cons_none hnone.1
    rw [hnil] at hno
    cases hno

theorem pubkey_of_erase {a b : MessageAccount}
    (h : a.updateWriteVersion 0 = b.updateWriteVersion 0) : a.pubkey = b.pubkey := by
  have hpubkey := congrArg MessageAccount.pubkey h
  exact hpubkey

namespace Sender

/-- The banks keep the same updates. -/
def SameAccounts (slot : Slot) (bankId : Option BankId) (s₁ s₂ : Sender) : Prop :=
  ((s₁.bankOf slot bankId).accounts.map (·.updateWriteVersion 0)).Perm
    ((s₂.bankOf slot bankId).accounts.map (·.updateWriteVersion 0))

variable {cfg : Config} {s s' s₁ s₂ s₁' s₂' : Sender} {st st' : PushState} {input : PushInput}
  {out eff tr tr' tr₁ tr₂ out₁ out₂ : List Effect} {slot : Slot} {bankId : Option BankId} {m : Message}
  {ms messages : List Message} {sourceName : SourceName}

/-- An update past deduplication is published, and so it is in the other run. -/
theorem exists_counterpart {blocks : List ParsedMessage} {x : ParsedMessage} {a : MessageAccount}
    (hpublished : ∀ x ∈ received tr, x ∈ stream .processed tr)
    (hperm : ∀ m ∈ published slot tr, m ∈ published slot tr')
    (hgathered : Gathered slot bankId s' tr' blocks) (hx : x ∈ messagesOf slot bankId tr)
    (ha : x.getAccount = some a) :
    ∃ x' ∈ messagesOf slot bankId tr', ∃ a', x'.getAccount = some a' ∧
      a'.updateWriteVersion 0 = a.updateWriteVersion 0 := by
  obtain ⟨hreceived, hkind⟩ := List.mem_filter.mp hx
  obtain ⟨hslot, hbank, -, -⟩ := of_decide_eq_true hkind
  have hmsg : x.message = .account a := by
    obtain ⟨arc, x⟩ := x
    cases x <;> cases ha
    rfl
  have hmem : (Message.account a).erase ∈ published slot tr :=
    List.mem_map.mpr ⟨x, List.mem_filter.mpr ⟨hpublished x hreceived, by simpa using hslot⟩, by rw [hmsg]⟩
  obtain ⟨x', hx', heq⟩ := List.mem_map.mp (hperm _ hmem)
  obtain ⟨hx', hslot'⟩ := List.mem_filter.mp hx'
  obtain ⟨a', ha'⟩ : ∃ a', x'.message = .account a' := by
    obtain ⟨arc, x'⟩ := x'
    cases x' with
    | account msg => exact ⟨msg, rfl⟩
    | _ => cases heq
  have herase : a'.updateWriteVersion 0 = a.updateWriteVersion 0 := by
    rw [ha'] at heq
    exact Message.account.inj heq
  have hget : x'.getAccount = some a' := by
    unfold ParsedMessage.getAccount
    rw [ha']
  have hbank' : x'.bankId = bankId := by
    rw [← hbank, ParsedMessage.bankId, ParsedMessage.bankId, ha', hmsg, ← Message.bankId_erase,
      ← Message.bankId_erase (.account a), show (Message.account a').erase = (Message.account a).erase
        from congrArg Message.account herase]
  rcases hgathered.streams .processed x' hx' (by simpa using hslot') hbank' (by rw [ha']; rfl)
    (by rw [ha']; rfl) with hx' | hx'
  · exact ⟨x', hx', a', hget, herase⟩
  · obtain ⟨msg, hblock, -⟩ := BankInfo.run_block_accounts hgathered.bank x' hx'
    rw [ha'] at hblock
    cases hblock

/-- What is stored of an account came to the bank. -/
theorem Gathered.mem_accounts {blocks : List ParsedMessage} (h : Gathered slot bankId s tr blocks)
    {a : MessageAccount} (ha : a ∈ (s.bankOf slot bankId).accounts) :
    ∃ x ∈ messagesOf slot bankId tr, x.getAccount = some a := by
  obtain ⟨x, hx, hxa⟩ := BankInfo.mem_accounts.mp ha
  rcases BankInfo.run_stored_sub h.bank x hx with hx | hx
  · exact ⟨x, hx, hxa⟩
  · obtain ⟨msg, hblock, -⟩ := BankInfo.run_block_accounts h.bank x hx
    unfold ParsedMessage.getAccount at hxa
    rw [hblock] at hxa
    cases hxa

theorem mem_received_of_messagesOf {x : ParsedMessage} (h : x ∈ messagesOf slot bankId tr) :
    x ∈ received tr := List.mem_of_mem_filter h

theorem getAccount_eq_some {x : ParsedMessage} {a : MessageAccount} (h : x.getAccount = some a) :
    x.message = .account a := by
  obtain ⟨arc, x⟩ := x
  cases x <;> cases h
  rfl

/-- Updates of a list without repeated events are told apart without their write versions. -/
theorem eq_of_erase_eq (hnodup : (ms.map Message.key).Nodup) {a b : MessageAccount}
    (ha : .account a ∈ ms) (hb : .account b ∈ ms)
    (h : a.updateWriteVersion 0 = b.updateWriteVersion 0) : a = b := by
  have hkey : (Message.account a).key = (Message.account b).key := by
    have herase : (Message.account (a.updateWriteVersion 0)).key =
        (Message.account (b.updateWriteVersion 0)).key := by rw [h]
    exact herase
  exact Message.account.inj (List.inj_on_of_nodup_map hnodup ha hb hkey)

/-- **Both banks keep the same updates** when everything published without deduplication is published
with it, and all of it is covered. -/
theorem sameAccounts_of_covered {blocks₁ blocks₂ : List ParsedMessage} (horder : NodeOrder ms)
    (hnodup : (ms.map Message.key).Nodup) (hnumbers : s₁.Numbers ms tr₁)
    (hsource : ∀ x ∈ received tr₂, x.message ∈ ms)
    (hpublished₁ : ∀ x ∈ received tr₁, x ∈ stream .processed tr₁)
    (hpublished₂ : ∀ x ∈ received tr₂, x ∈ stream .processed tr₂)
    (hperm : (published slot tr₁).Perm (published slot tr₂))
    (h₁ : Gathered slot bankId s₁ tr₁ blocks₁) (h₂ : Gathered slot bankId s₂ tr₂ blocks₂)
    (hc₁ : BankInfo.Covered (messagesOf slot bankId tr₁) (s₁.bankOf slot bankId))
    (hc₂ : BankInfo.Covered (messagesOf slot bankId tr₂) (s₂.bankOf slot bankId)) :
    SameAccounts slot bankId s₁ s₂ := by
  have hnodup_erase : ∀ bank : BankInfo, (bank.accounts.map (·.updateWriteVersion 0)).Nodup := by
    intro bank
    refine List.Nodup.of_map (·.pubkey) ?_
    rw [List.map_map]
    exact bank.accounts_nodup
  -- the update that is kept with deduplication is kept without it
  have hforward : ∀ c₁ ∈ (s₁.bankOf slot bankId).accounts, ∃ c₂ ∈ (s₂.bankOf slot bankId).accounts,
      c₂.updateWriteVersion 0 = c₁.updateWriteVersion 0 := by
    intro c₁ hmem₁
    obtain ⟨x₁, hx₁, hxc₁⟩ := h₁.mem_accounts hmem₁
    obtain ⟨x₂, hx₂, a₂, hxa₂, hera₂⟩ := exists_counterpart hpublished₁
      (fun m hm => hperm.subset hm) h₂ hx₁ hxc₁
    obtain ⟨c₂, hmem₂, hkey₂, hle₂⟩ := hc₂ x₂ hx₂ a₂ hxa₂
    obtain ⟨y₂, hy₂, hyc₂⟩ := h₂.mem_accounts hmem₂
    obtain ⟨x₁', hx₁', a₁, hxa₁, hera₁⟩ := exists_counterpart hpublished₂
      (fun m hm => hperm.symm.subset hm) h₁ hy₂ hyc₂
    obtain ⟨c₁', hmem₁', hkey₁, hle₁⟩ := hc₁ x₁' hx₁' a₁ hxa₁
    have hpub₂ : a₂.pubkey = c₁.pubkey := pubkey_of_erase hera₂
    have hpub₁ : a₁.pubkey = c₂.pubkey := pubkey_of_erase hera₁
    have hsame : c₁' = c₁ := BankInfo.accounts_unique hmem₁' hmem₁ (by rw [hkey₁, hpub₁, hkey₂, hpub₂])
    subst hsame
    -- the originals of the two updates
    have ha₂ : Message.account a₂ ∈ ms := by
      rw [← getAccount_eq_some hxa₂]
      exact hsource x₂ (mem_received_of_messagesOf hx₂)
    have hcm₂ : Message.account c₂ ∈ ms := by
      rw [← getAccount_eq_some hyc₂]
      exact hsource y₂ (mem_received_of_messagesOf hy₂)
    obtain ⟨o, ho, heq, hn⟩ := hnumbers.received x₁ (mem_received_of_messagesOf hx₁) c₁'
      (getAccount_eq_some hxc₁)
    obtain ⟨o', ho', heq', hn'⟩ := hnumbers.received x₁' (mem_received_of_messagesOf hx₁') a₁
      (getAccount_eq_some hxa₁)
    have hoa : o = a₂ := eq_of_erase_eq hnodup ho ha₂ (by rw [hera₂, heq]; rfl)
    have hoc : o' = c₂ := eq_of_erase_eq hnodup ho' hcm₂ (by rw [← hera₁, heq']; rfl)
    subst hoa hoc
    have hfinal := horder.eq_of_numbered ha₂ hcm₂ hkey₂.symm hle₂ hn hn' hle₁
    exact ⟨o', hmem₂, by rw [← hfinal, hera₂]⟩
  refine (List.perm_ext_iff_of_nodup (hnodup_erase _) (hnodup_erase _)).mpr fun e => ?_
  simp only [List.mem_map]
  constructor
  · rintro ⟨c₁, hmem₁, rfl⟩
    exact hforward c₁ hmem₁
  · rintro ⟨c₂, hmem₂, rfl⟩
    obtain ⟨y₂, hy₂, hyc₂⟩ := h₂.mem_accounts hmem₂
    obtain ⟨x₁, hx₁, a₁, hxa₁, hera₁⟩ := exists_counterpart hpublished₂
      (fun m hm => hperm.symm.subset hm) h₁ hy₂ hyc₂
    obtain ⟨c₁, hmem₁, hkey₁, -⟩ := hc₁ x₁ hx₁ a₁ hxa₁
    obtain ⟨c₂', hmem₂', hera⟩ := hforward c₁ hmem₁
    have hpub : a₁.pubkey = c₂.pubkey := pubkey_of_erase hera₁
    have hpub' : c₂'.pubkey = c₁.pubkey := pubkey_of_erase hera
    have hsame : c₂' = c₂ := BankInfo.accounts_unique hmem₂' hmem₂ (by rw [hpub', hkey₁, hpub])
    exact ⟨c₁, hmem₁, by rw [← hera, hsame]⟩

end Sender

/-! ### The messages of a push -/

/-- A message that completes the `Block` of a bank puts it on processed. -/
theorem SlotView.block_of_created {v : SlotView} {m : Message} {bankId : Option BankId}
    (h : (v.banks bankId).blockCreated = false)
    (h' : ((v.take m).1.banks bankId).blockCreated) : ∃ b, (v.take m).2 = some (.block b) := by
  have hcreate : ∀ bank : BankView, bank.blockCreated = false → bank.createBlock.1.blockCreated →
      ∃ b, bank.createBlock.2 = some (.block b) := by
    intro bank hb hb'
    unfold BankView.createBlock at hb' ⊢
    split at hb'
    · rw [hb] at hb'
      cases hb'
    · split at hb'
      · rename_i hcount
        rw [if_pos hcount]
        exact ⟨_, rfl⟩
      · rw [hb] at hb'
        cases hb'
  unfold SlotView.take at h' ⊢
  split at h'
  · exfalso
    split at h'
    · dsimp only at h'
      rw [Function.update_apply] at h'
      split at h'
      · cases h'
      · rw [h] at h'
        cases h'
    · rw [h] at h'
      cases h'
  · rename_i heup
    rw [if_neg heup]
    dsimp only at h' ⊢
    rw [Function.update_apply] at h'
    split at h'
    · rename_i hbank
      subst hbank
      unfold BankView.take at h' ⊢
      rw [if_neg (by rw [h]; exact Bool.false_ne_true)] at h' ⊢
      cases m with
      | transaction msg => exact hcreate _ h h'
      | entry msg => exact hcreate _ h h'
      | blockMeta msg => exact hcreate _ h h'
      | _ =>
        rw [h] at h'
        cases h'
    · rw [h] at h'
      cases h'

/-- A message that puts a `Block` on processed completes the one of its bank. -/
theorem SlotView.created_of_block {v : SlotView} {m b : Message} (h : (v.take m).2 = some b) :
    ((v.take m).1.banks m.bankId).blockCreated := by
  have hcreate : ∀ bank : BankView, bank.createBlock.2 = some b → bank.createBlock.1.blockCreated := by
    intro bank hb
    unfold BankView.createBlock at hb ⊢
    split at hb
    · cases hb
    · split at hb
      · rename_i hcount
        rw [if_pos hcount]
      · cases hb
  unfold SlotView.take at h ⊢
  split at h
  · split at h <;> cases h
  · rename_i heup
    rw [if_neg heup]
    dsimp only at h ⊢
    rw [Function.update_self]
    unfold BankView.take at h ⊢
    split at h
    · cases h
    · rename_i hcreated
      rw [if_neg hcreated]
      cases m with
      | transaction msg => exact hcreate _ h
      | entry msg => exact hcreate _ h
      | blockMeta msg => exact hcreate _ h
      | _ => cases h

/-- Deduplication passes on account updates, and after them perhaps the message itself. -/
theorem DedupInfo.Passes.split {sourceName : SourceName} {d d' : DedupInfo} {m : Message}
    {ms : List Message} (h : DedupInfo.Passes sourceName d m d' ms) :
    ∃ (accs : List MessageAccount) (last : Option Message), ms = accs.map .account ++ last.toList ∧
      ∀ y ∈ last, y = m := by
  rcases h.cases with ⟨-, rfl, -⟩ | ⟨-, hbank⟩
  · exact ⟨[], some m, rfl, fun y hy => (Option.some.inj hy).symm⟩
  · cases hbank with
    | other hm ht same phantom => exact ⟨[], some m, rfl, fun y hy => (Option.some.inj hy).symm⟩
    | unsigned hsig same phantom => exact ⟨[_], none, rfl, fun y hy => (nomatch hy)⟩
    | known hsig hknown same phantom => exact ⟨[_], none, rfl, fun y hy => (nomatch hy)⟩
    | parks hsig hvec set phantom => exact ⟨[], none, rfl, fun y hy => (nomatch hy)⟩
    | releases hsig hvec set phantom => exact ⟨_, some _, rfl, fun y hy => (Option.some.inj hy).symm⟩

/-- A source sends no `Block`: deduplication does not return on it. -/
theorem DedupInfo.not_block_of_push {dedup d : DedupInfo} {m : Message}
    {messages : List Message} {sourceName : SourceName}
    (hsource : ∀ source ∈ dedup.source, source = sourceName)
    (h : dedup.push sourceName m = .ok (d, messages)) : m.isBlock = false := by
  cases m with
  | block msg =>
    obtain ⟨accepted, haccept, -⟩ := acceptSource_of_source hsource (Message.block msg).bankId
    rw [push_message rfl haccept] at h
    cases h
  | _ => rfl

theorem NodeOrder.of_append {ms ms' : List Message} (h : NodeOrder (ms ++ ms')) : NodeOrder ms where
  order := by
    have horder := h.order
    rw [updates, List.filterMap_append] at horder
    refine (List.pairwise_append.mp horder).1.imp fun hp => ⟨hp.writeVersion, hp.signed, ?_⟩
    intro hkey tx tx' htx htx'
    exact hp.index hkey tx tx' (List.mem_append_left _ htx) (List.mem_append_left _ htx')
  reserved := by
    have hreserved := h.reserved
    rw [unsignedCount_append] at hreserved
    omega
  index_lt := fun tx htx => h.index_lt tx (List.mem_append_left _ htx)

namespace Sender

section

variable {cfg : Config} {s s' : Sender} {st st' : PushState} {input : PushInput}
  {out eff tr : List Effect} {slot : Slot} {bankId : Option BankId} {m : Message}
  {ms : List Message} {sourceName : SourceName} {is : List PushInput}

theorem bankOf_view (s : Sender) (slot : Slot) (bankId : Option BankId) :
    (s.bankOf slot bankId).view = (s.view slot).banks bankId := by
  unfold bankOf view
  cases s.slots.get? slot <;> rfl

/-- The loop of a push receives its messages in order. -/
theorem messages_run_pushMessage
    (h : run (PushState.pushMessage cfg slot sourceName) st ms = .ok (st', eff)) :
    (received eff).map (·.message) = ms := by
  refine run_induction (P := fun ms _ eff => (received eff).map (·.message) = ms) rfl ?_ h
  intro ms st eff m st' eff' _ ih hpush
  rw [received_append, List.map_append, ih, (received_pushMessage hpush).1]
  rfl

/-- The messages of a bank: account updates, and after them perhaps another message. -/
theorem messagesOf_split {accs : List MessageAccount} {last : Option Message}
    (h : (received out).map (·.message) = accs.map .account ++ last.toList) :
    ∃ (xs : List ParsedMessage) (x : Option ParsedMessage),
      messagesOf slot bankId out = xs ++ x.toList ∧ ∀ y ∈ xs, y.message.isAccount := by
  obtain ⟨l₁, l₂, hl, h₁, h₂⟩ := List.map_eq_append_iff.mp h
  have haccs : ∀ y ∈ l₁, y.message.isAccount := by
    intro y hy
    have hmem : y.message ∈ accs.map Message.account := h₁ ▸ List.mem_map_of_mem hy
    obtain ⟨a, -, ha⟩ := List.mem_map.mp hmem
    rw [← ha]
    rfl
  unfold messagesOf
  rw [hl, List.filter_append]
  cases last with
  | none =>
    rw [List.map_eq_nil_iff.mp h₂]
    exact ⟨_, none, rfl, fun y hy => haccs y (List.mem_of_mem_filter hy)⟩
  | some m =>
    obtain ⟨y, rfl, -⟩ := List.map_eq_singleton_iff.mp h₂
    rw [List.filter_singleton, Bool.cond_eq_ite]
    split
    · exact ⟨_, some y, rfl, fun y hy => haccs y (List.mem_of_mem_filter hy)⟩
    · exact ⟨_, none, rfl, fun y hy => haccs y (List.mem_of_mem_filter hy)⟩

/-- What a push of the bank publishes is of the bank. -/
theorem processed_push (hcontents : s.Contents)
    (hm : input.message.slotOf = slot ∧
      (input.message.bankId = bankId ∨ input.message.isSlot ∧ input.message.bankId = none))
    (hpush : s.push cfg input = .ok (s', out)) :
    ∀ x ∈ stream .processed out, x.slot = slot ∧ (x.message.isSlot = false → x.bankId = bankId) := by
  refine push_rule
    (P := fun _ out => ∀ x ∈ stream .processed out,
      x.slot = slot ∧ (x.message.isSlot = false → x.bankId = bankId))
    (L := fun st eff ms => st.sender.Contents ∧ (∀ x ∈ stream .processed eff,
      x.slot = slot ∧ (x.message.isSlot = false → x.bankId = bankId)) ∧
      ∀ m ∈ ms, m.Alike input.message) (fun x hx => (nomatch hx)) ?_ ?_ ?_ hpush
  · intro s₁ messages _ _ hdedup
    obtain ⟨h₁, halike⟩ := hcontents.dedupMessage hdedup
    exact ⟨fun _ x hx => (nomatch hx), fun _ => ⟨h₁, fun x hx => (nomatch hx), halike⟩⟩
  · rintro st eff m ms st' eff' ⟨hst, heff, hms⟩ hpush'
    have ha := hms m (List.mem_cons_self ..)
    obtain ⟨hst', hslots⟩ := hst.pushMessage ha.slot hpush'
    refine ⟨hst', fun x hx => ?_, fun m' hm' => hms m' (List.mem_cons_of_mem _ hm')⟩
    rw [stream_append, List.mem_append] at hx
    rcases hx with hx | hx
    · exact heff x hx
    · refine ⟨(hslots .processed x hx).trans hm.1, fun hxslot => ?_⟩
      cases hslot : m.isSlot with
      | false =>
        have hbank : m.bankId = bankId := by
          rw [ha.bankId]
          refine hm.2.resolve_right fun hno => ?_
          rw [← ha.isSlot, hslot] at hno
          exact Bool.false_ne_true hno.1
        obtain ⟨info, block, kept, hstep⟩ := PushState.pushMessage_message hslot hpush'
        rcases hstep.mem_stream hx with rfl | hx
        · exact hbank
        · have hblock := ((hst.slotInfo input.slot).getBlockMessage
            (show ParsedMessage.slot ⟨_, m⟩ = input.slot from ha.slot) hstep.receive).2
          exact (hblock x hx).2.trans hbank
      | true =>
        cases m with
        | slot msg =>
          obtain ⟨info, selected, kept, hstep⟩ := PushState.pushMessage_status hpush'
          rw [hstep.processed] at hx
          split at hx
          · rw [List.mem_singleton.mp hx] at hxslot
            cases hxslot
          · cases hx
        | _ => cases hslot
  · rintro st eff ⟨-, heff, -⟩ x hx
    exact heff x (by simpa using hx)

/-- What a run over messages of the bank publishes is of the bank. -/
theorem run_processed (hinit : s.Initial) (hms : SingleBank slot bankId (is.map (·.message)))
    (hrun : run (push cfg) s is = .ok (s', tr)) :
    ∀ x ∈ stream .processed tr, x.slot = slot ∧ (x.message.isSlot = false → x.bankId = bankId) := by
  have hall : s'.Contents ∧ ∀ x ∈ stream .processed tr,
      x.slot = slot ∧ (x.message.isSlot = false → x.bankId = bankId) := by
    refine run_induction (P := fun is s' tr => SingleBank slot bankId (is.map (·.message)) →
      s'.Contents ∧ ∀ x ∈ stream .processed tr,
        x.slot = slot ∧ (x.message.isSlot = false → x.bankId = bankId)) ?_ ?_ hrun hms
    · exact fun _ => ⟨hinit.contents, fun x hx => (nomatch hx)⟩
    · intro is s tr i s' out _ ih hpush hms
      rw [List.map_append, List.map_singleton] at hms
      obtain ⟨hcontents, h⟩ := ih fun m hm => hms m (List.mem_append_left _ hm)
      refine ⟨(hcontents.push hpush).1, fun x hx => ?_⟩
      rw [stream_append, List.mem_append] at hx
      exact hx.elim (h x) (processed_push hcontents (hms i.message (by simp)) hpush x)
  exact hall.2

end

/-! ### The two runs -/

/-- The messages of one bank in the node's order, pushed with deduplication and without. -/
structure TwoRuns (cfg : Config) (sourceName : SourceName) (slot : Slot) (bankId : Option BankId)
    (s : Sender) (ms : List Message) (s₁ : Sender) (tr₁ : List Effect) (s₂ : Sender)
    (tr₂ : List Effect) : Prop where
  initial : s.Initial
  noJournal : s.NoJournal
  max : 0 < cfg.maxUnfinalizedSlots
  singleBank : SingleBank slot bankId ms
  nodup : (ms.map Message.key).Nodup
  order : NodeOrder ms
  dedup : run (push cfg) s (ms.map fun m => ⟨true, sourceName, m⟩) = .ok (s₁, tr₁)
  plain : run (push cfg) s (ms.map fun m => ⟨false, sourceName, m⟩) = .ok (s₂, tr₂)

/-- The updates in front of a `Block` have their transactions there. -/
def BlockReleased (l : List Message) : Prop :=
  ∀ l₁ b l₂, l = l₁ ++ .block b :: l₂ → AllReleased l₁

theorem BlockReleased.of_append {l l' : List Message} (h : BlockReleased (l ++ l')) :
    BlockReleased l := by
  rintro l₁ b l₂ rfl
  exact h l₁ b (l₂ ++ l') (by simp)

namespace TwoRuns

variable {cfg : Config} {sourceName : SourceName} {slot : Slot} {bankId : Option BankId}
  {s s₁ s₂ s₁' s₂' : Sender} {ms : List Message} {m : Message} {tr₁ tr₂ out₁ out₂ : List Effect}

theorem init (h : TwoRuns cfg sourceName slot bankId s (ms ++ [m]) s₁' tr₁ s₂' tr₂) :
    ∃ s₁ tr₁' out₁ s₂ tr₂' out₂, TwoRuns cfg sourceName slot bankId s ms s₁ tr₁' s₂ tr₂' ∧
      s₁.push cfg ⟨true, sourceName, m⟩ = .ok (s₁', out₁) ∧
      s₂.push cfg ⟨false, sourceName, m⟩ = .ok (s₂', out₂) ∧
      tr₁ = tr₁' ++ out₁ ∧ tr₂ = tr₂' ++ out₂ := by
  have h₁ := h.dedup
  have h₂ := h.plain
  rw [List.map_append, List.map_singleton] at h₁ h₂
  obtain ⟨s₁, tr₁', out₁, hrun₁, hpush₁, rfl⟩ := run_snoc.mp h₁
  obtain ⟨s₂, tr₂', out₂, hrun₂, hpush₂, rfl⟩ := run_snoc.mp h₂
  refine ⟨s₁, tr₁', out₁, s₂, tr₂', out₂, ?_, hpush₁, hpush₂, rfl, rfl⟩
  have hnodup := h.nodup
  rw [List.map_append] at hnodup
  exact ⟨h.initial, h.noJournal, h.max, fun m hm => h.singleBank m (List.mem_append_left _ hm),
    hnodup.of_append_left, h.order.of_append, hrun₁, hrun₂⟩

/-- The last message is a new event. -/
theorem key_notMem (h : TwoRuns cfg sourceName slot bankId s (ms ++ [m]) s₁' tr₁ s₂' tr₂) :
    m.key ∉ ms.map Message.key := by
  have hnodup := h.nodup
  rw [List.map_append, List.map_singleton] at hnodup
  exact fun hmem => List.disjoint_of_nodup_append hnodup hmem (List.mem_singleton_self _)

/-- **The rule of the two runs.** -/
theorem induction {P : List Message → Sender → List Effect → Sender → List Effect → Prop}
    (nil : P [] s [] s [])
    (snoc : ∀ ms m s₁ tr₁ s₂ tr₂ s₁' out₁ s₂' out₂,
      TwoRuns cfg sourceName slot bankId s ms s₁ tr₁ s₂ tr₂ → P ms s₁ tr₁ s₂ tr₂ →
      TwoRuns cfg sourceName slot bankId s (ms ++ [m]) s₁' (tr₁ ++ out₁) s₂' (tr₂ ++ out₂) →
      s₁.push cfg ⟨true, sourceName, m⟩ = .ok (s₁', out₁) →
      s₂.push cfg ⟨false, sourceName, m⟩ = .ok (s₂', out₂) →
      P (ms ++ [m]) s₁' (tr₁ ++ out₁) s₂' (tr₂ ++ out₂)) :
    ∀ {ms s₁ tr₁ s₂ tr₂}, TwoRuns cfg sourceName slot bankId s ms s₁ tr₁ s₂ tr₂ →
      P ms s₁ tr₁ s₂ tr₂ := by
  intro ms
  induction ms using List.reverseRecOn with
  | nil =>
    intro s₁ tr₁ s₂ tr₂ h
    have h₁ := h.dedup
    have h₂ := h.plain
    simp only [List.map_nil, run_nil, Except.ok.injEq, Prod.mk.injEq] at h₁ h₂
    obtain ⟨rfl, rfl⟩ := h₁
    obtain ⟨rfl, rfl⟩ := h₂
    exact nil
  | append_singleton ms m ih =>
    intro s₁' tr₁' s₂' tr₂' h
    obtain ⟨s₁, tr₁, out₁, s₂, tr₂, out₂, hinit, hpush₁, hpush₂, rfl, rfl⟩ := h.init
    exact snoc ms m s₁ tr₁ s₂ tr₂ s₁' out₁ s₂' out₂ hinit (ih hinit) h hpush₁ hpush₂

theorem slots_of_singleBank (h : SingleBank slot bankId ms) (b : Bool) :
    ∀ i ∈ ms.map (fun m => (⟨b, sourceName, m⟩ : PushInput)), i.slot = slot := by
  intro i hi
  obtain ⟨m, hm, rfl⟩ := List.mem_map.mp hi
  exact (h m hm).1

theorem singleBank_inputs (h : SingleBank slot bankId ms) (b : Bool) :
    SingleBank slot bankId ((ms.map fun m => (⟨b, sourceName, m⟩ : PushInput)).map (·.message)) := by
  rw [List.map_map]
  intro m hm
  obtain ⟨m', hm', rfl⟩ := List.mem_map.mp hm
  exact h m' hm'

theorem transparent (h : TwoRuns cfg sourceName slot bankId s ms s₁ tr₁ s₂ tr₂) :
    Transparent sourceName (ms.map Message.key) s₁ tr₁ s₂ tr₂ :=
  run_transparent h.initial h.noJournal h.dedup h.plain h.nodup
    (run_slotDropped h.max h.initial (slots_of_singleBank h.singleBank false) h.plain)

/-- What the two runs received. -/
structure Receives (ms : List Message) (s₁ : Sender) (tr₁ tr₂ : List Effect) : Prop where
  numbers : s₁.Numbers ms tr₁
  source : ∀ x ∈ received tr₂, x.message ∈ ms
  noBlock₁ : ∀ x ∈ received tr₁, x.message.isBlock = false
  noBlock₂ : ∀ x ∈ received tr₂, x.message.isBlock = false

theorem receives (h : TwoRuns cfg sourceName slot bankId s ms s₁ tr₁ s₂ tr₂) :
    Receives ms s₁ tr₁ tr₂ := by
  refine TwoRuns.induction (P := fun ms s₁ tr₁ _ tr₂ => Receives ms s₁ tr₁ tr₂) ?_ ?_ h
  · exact ⟨h.initial.numbers, fun x hx => (nomatch hx), fun x hx => (nomatch hx),
      fun x hx => (nomatch hx)⟩
  intro ms m s₁ tr₁ s₂ tr₂ s₁' out₁ s₂' out₂ h ih h' hpush₁ hpush₂
  have hT := h.transparent
  have hnew := h'.key_notMem
  have hnumbers : s₁'.Numbers (ms ++ [m]) (tr₁ ++ out₁) := by
    refine ih.numbers.push (fun d out hfloor hd => hT.passes hnew ?_ hd) hpush₁
    rwa [← hT.floor_eq]
  rcases hT.push_cases hnew hpush₁ hpush₂ with ⟨rfl, rfl, rfl, rfl⟩ |
    ⟨hfloor, d, messages, st₂, eff₂, hp, hdedup, hpush₂', rfl, rfl, hrest⟩
  · simp only [List.append_nil] at hnumbers ⊢
    exact ⟨hnumbers, fun x hx => List.mem_append_left _ (ih.source x hx), ih.noBlock₁, ih.noBlock₂⟩
  · have hm : m.isBlock = false := by
      rcases dedupMessage_cases hdedup with ⟨hno, -⟩ | ⟨-, d', hd', -⟩
      · cases hno
      · exact DedupInfo.not_block_of_push (hT.follows m.slotOf hfloor).source hd'
    have hmessages : ∀ y ∈ messages, y.isBlock = false := by
      obtain ⟨accs, last, rfl, hlast⟩ := hp.split
      intro y hy
      rcases List.mem_append.mp hy with hy | hy
      · obtain ⟨a, -, rfl⟩ := List.mem_map.mp hy
        rfl
      · rw [hlast y (Option.mem_toList.mp hy)]
        exact hm
    have hout₁ : ∀ x ∈ received out₁, x.message.isBlock = false := by
      rcases hrest with ⟨-, -, rfl⟩ | ⟨-, st₁, eff₁, hrun₁, -, rfl⟩
      · exact fun x hx => (nomatch hx)
      · intro x hx
        rw [received_append, received_finish, List.append_nil] at hx
        refine hmessages x.message ?_
        rw [← messages_run_pushMessage hrun₁]
        exact List.mem_map_of_mem hx
    have hout₂ : received (eff₂ ++ (st₂.finish cfg m.slotOf).2) = [⟨s₂.nextArc, m⟩] := by
      rw [received_append, received_finish, List.append_nil, (received_pushMessage hpush₂').1]
    refine ⟨hnumbers, fun x hx => ?_, fun x hx => ?_, fun x hx => ?_⟩
    · rw [received_append, hout₂, List.mem_append, List.mem_singleton] at hx
      rcases hx with hx | rfl
      · exact List.mem_append_left _ (ih.source x hx)
      · exact List.mem_append_right _ (List.mem_singleton_self m)
    · rw [received_append, List.mem_append] at hx
      exact hx.elim (ih.noBlock₁ x) (hout₁ x)
    · rw [received_append, hout₂, List.mem_append, List.mem_singleton] at hx
      rcases hx with hx | rfl
      · exact ih.noBlock₂ x hx
      · exact hm

/-! ### What the two runs have in common -/

theorem publishesAll (h : TwoRuns cfg sourceName slot bankId s ms s₁ tr₁ s₂ tr₂) :
    PublishesAll tr₁ ∧ PublishesAll tr₂ :=
  ⟨run_publishesAll h.noJournal h.dedup, run_publishesAll h.noJournal h.plain⟩

/-- Statuses and `EntryUpdateParent` messages are received as they are published. -/
theorem mem_published_iff {tr : List Effect} (hp : PublishesAll tr) (hslot : m.slotOf = slot)
    (hm : m.isSlot ∨ m.isEntryUpdateParent) :
    m ∈ published slot tr ↔ ∃ x ∈ received tr, x.message = m := by
  have herase : m.erase = m := by
    cases m with
    | account msg => rcases hm with hm | hm <;> cases hm
    | block msg => rcases hm with hm | hm <;> cases hm
    | _ => rfl
  unfold published
  rw [List.mem_map]
  constructor
  · rintro ⟨x, hx, heq⟩
    obtain ⟨hx, -⟩ := List.mem_filter.mp hx
    have hmessage : x.message = m := by
      obtain ⟨arc, x⟩ := x
      cases x with
      | account msg =>
        rw [← heq] at hm
        rcases hm with hm | hm <;> cases hm
      | block msg =>
        rw [← heq] at hm
        rcases hm with hm | hm <;> cases hm
      | _ => exact heq
    refine ⟨x, (hp.received x hx).resolve_right fun hblock => ?_, hmessage⟩
    rw [hmessage] at hblock
    cases m with
    | block msg => rcases hm with hm | hm <;> cases hm
    | _ => cases hblock
  · rintro ⟨x, hx, rfl⟩
    exact ⟨x, List.mem_filter.mpr ⟨hp.of_received x hx, decide_eq_true hslot⟩, herase⟩

theorem received_iff (h : TwoRuns cfg sourceName slot bankId s ms s₁ tr₁ s₂ tr₂)
    (hslot : m.slotOf = slot) (hm : m.isSlot ∨ m.isEntryUpdateParent) :
    (∃ x ∈ received tr₁, x.message = m) ↔ ∃ x ∈ received tr₂, x.message = m := by
  have hwaits : m.waitsFor = none := by
    cases m with
    | account msg => rcases hm with hm | hm <;> cases hm
    | _ => rfl
  rw [← mem_published_iff h.publishesAll.1 hslot hm, ← mem_published_iff h.publishesAll.2 hslot hm,
    (h.transparent.perm slot).mem_iff]
  unfold released
  rw [List.mem_filter, hwaits]
  simp

theorem isConfirmed_iff (h : TwoRuns cfg sourceName slot bankId s ms s₁ tr₁ s₂ tr₂) :
    IsConfirmed slot tr₁ ↔ IsConfirmed slot tr₂ := by
  unfold IsConfirmed
  refine exists_congr fun msg => ?_
  constructor
  · rintro ⟨hx, hslot, hstatus⟩
    exact ⟨(h.received_iff (m := .slot msg) hslot (Or.inl rfl)).mp hx, hslot, hstatus⟩
  · rintro ⟨hx, hslot, hstatus⟩
    exact ⟨(h.received_iff (m := .slot msg) hslot (Or.inl rfl)).mpr hx, hslot, hstatus⟩

theorem cleared_iff (h : TwoRuns cfg sourceName slot bankId s ms s₁ tr₁ s₂ tr₂) :
    Cleared slot bankId tr₁ ↔ Cleared slot bankId tr₂ := by
  constructor
  · rintro ⟨x, hx, hslot, hrest⟩
    obtain ⟨y, hy, heq⟩ := (h.received_iff (m := x.message) hslot (Or.inr hrest.2.2)).mp ⟨x, hx, rfl⟩
    refine ⟨y, hy, ?_⟩
    rw [ParsedMessage.slot, ParsedMessage.bankId, heq]
    exact ⟨hslot, hrest⟩
  · rintro ⟨x, hx, hslot, hrest⟩
    obtain ⟨y, hy, heq⟩ := (h.received_iff (m := x.message) hslot (Or.inr hrest.2.2)).mpr ⟨x, hx, rfl⟩
    refine ⟨y, hy, ?_⟩
    rw [ParsedMessage.slot, ParsedMessage.bankId, heq]
    exact ⟨hslot, hrest⟩

/-- The `Block` is complete in both runs or in none. -/
theorem blockCreated_eq (h : TwoRuns cfg sourceName slot bankId s ms s₁ tr₁ s₂ tr₂)
    (hopen : s₂.floor < slot) :
    (s₁.bankOf slot bankId).blockCreated = (s₂.bankOf slot bankId).blockCreated := by
  have hview := h.transparent.view slot hopen
  have hbanks : (s₁.bankOf slot bankId).view = (s₂.bankOf slot bankId).view := by
    rw [bankOf_view, bankOf_view, hview]
  exact congrArg BankView.blockCreated hbanks

/-- The messages of the last push, shaped as deduplication passes them on. -/
theorem split_out (h : TwoRuns cfg sourceName slot bankId s ms s₁ tr₁ s₂ tr₂)
    (hnew : m.key ∉ ms.map Message.key)
    (hpush₁ : s₁.push cfg ⟨true, sourceName, m⟩ = .ok (s₁', out₁))
    (hpush₂ : s₂.push cfg ⟨false, sourceName, m⟩ = .ok (s₂', out₂)) :
    (∃ (accs : List MessageAccount) (last : Option Message),
      (received out₁).map (·.message) = accs.map .account ++ last.toList) ∧
    ∃ (accs : List MessageAccount) (last : Option Message),
      (received out₂).map (·.message) = accs.map .account ++ last.toList := by
  rcases h.transparent.push_cases hnew hpush₁ hpush₂ with ⟨rfl, rfl, rfl, rfl⟩ |
    ⟨-, d, messages, st₂, eff₂, hp, -, hpush₂', -, rfl, hrest⟩
  · exact ⟨⟨[], none, rfl⟩, [], none, rfl⟩
  · refine ⟨?_, [], some m, ?_⟩
    · rcases hrest with ⟨-, -, rfl⟩ | ⟨-, st₁, eff₁, hrun₁, -, rfl⟩
      · exact ⟨[], none, rfl⟩
      · obtain ⟨accs, last, heq, -⟩ := hp.split
        refine ⟨accs, last, ?_⟩
        rw [received_append, received_finish, List.append_nil, messages_run_pushMessage hrun₁, heq]
    · rw [received_append, received_finish, List.append_nil, (received_pushMessage hpush₂').1]
      rfl

end TwoRuns

/-- The bank runs on over the messages of a push. -/
theorem Gathered.runs_on {s s' : Sender} {slot : Slot} {bankId : Option BankId} {tr out : List Effect}
    {blocks blocks' : List ParsedMessage} (h : Gathered slot bankId s tr blocks)
    (h' : Gathered slot bankId s' (tr ++ out) blocks') : ∃ new,
      run BankInfo.step (s.bankOf slot bankId) (messagesOf slot bankId out) =
        .ok (s'.bankOf slot bankId, new) := by
  have hrun := h'.bank
  rw [messagesOf_append] at hrun
  obtain ⟨mid, o₁, o₂, hmid, hnew, -⟩ := run_append.mp hrun
  rw [h.bank, Except.ok.injEq, Prod.mk.injEq] at hmid
  exact ⟨o₂, hmid.1 ▸ hnew⟩

/-- With the message that completes the `Block` every update of the bank is covered. -/
theorem Gathered.covered {s s' : Sender} {slot : Slot} {bankId : Option BankId}
    {tr out : List Effect} {blocks blocks' : List ParsedMessage}
    (h : Gathered slot bankId s tr blocks) (h' : Gathered slot bankId s' (tr ++ out) blocks')
    (hcreated : (s.bankOf slot bankId).blockCreated = false)
    (hs : (s.bankOf slot bankId).view.Settled)
    (hsplit : ∃ (accs : List MessageAccount) (last : Option Message),
      (received out).map (·.message) = accs.map .account ++ last.toList) :
    BankInfo.Covered (messagesOf slot bankId (tr ++ out)) (s'.bankOf slot bankId) := by
  obtain ⟨accs, last, hreceived⟩ := hsplit
  obtain ⟨xs, x, hmessages, hxs⟩ : ∃ (xs : List ParsedMessage) (x : Option ParsedMessage),
      messagesOf slot bankId out = xs ++ x.toList ∧ ∀ y ∈ xs, y.message.isAccount :=
    messagesOf_split hreceived
  obtain ⟨new, hrun⟩ := h.runs_on h'
  rw [hmessages] at hrun
  rw [messagesOf_append, hmessages]
  exact BankInfo.run_covered_append h.bank hcreated hs hxs hrun

namespace TwoRuns

variable {cfg : Config} {sourceName : SourceName} {slot : Slot} {bankId : Option BankId}
  {s s₁ s₂ s₁' s₂' : Sender} {ms : List Message} {m : Message} {tr₁ tr₂ out₁ out₂ : List Effect}

/-- The push that completes the `Block` publishes its message and the `Block`. -/
theorem published_of_created (h : TwoRuns cfg sourceName slot bankId s ms s₁ tr₁ s₂ tr₂)
    (hslot : m.slotOf = slot) (hpush₂ : s₂.push cfg ⟨false, sourceName, m⟩ = .ok (s₂', out₂))
    (hopen : s₂'.floor < slot) (hbefore : (s₂.bankOf slot bankId).blockCreated = false)
    (hafter : (s₂'.bankOf slot bankId).blockCreated) :
    ∃ b, published slot out₂ = [m.erase, .block b] := by
  have hT := h.transparent
  have hopen₀ : s₂.floor < slot := (push_floor_le hpush₂).trans_lt hopen
  have hview : ∀ s : Sender, (s.bankOf slot bankId).blockCreated =
      ((s.view slot).banks bankId).blockCreated := fun s =>
    congrArg BankView.blockCreated (s.bankOf_view slot bankId)
  rw [hview] at hbefore hafter
  rcases push_nodedup_cases hpush₂ with ⟨-, rfl, rfl⟩ | ⟨-, -, st, eff, hpush, rfl, rfl⟩
  · rw [hbefore] at hafter
    cases hafter
  · have hfinish : (st.finish cfg m.slotOf).1.view slot = st.sender.view slot := by
      rw [Sender.view, get?_finish_slots hopen, Sender.view]
    rw [hfinish] at hafter
    rw [hslot] at hpush
    cases hm : m.isSlot with
    | true =>
      cases m with
      | slot msg =>
        have hle : st.sender.slotFinalized < slot := by
          rw [← (finishStep cfg (Message.slot msg).slotOf st).slotFinalized]
          exact (le_max_left _ _).trans_lt hopen
        have hsame : st.sender.view slot = s₂.view slot := view_pushStatus hpush hle
        rw [hsame, hbefore] at hafter
        cases hafter
      | _ => cases hm
    | false =>
      have hloop := PushState.loop_pushMessage (hT.noJournal₂.replayInfo slot) hm hslot hT.contents₂
        (hT.settled slot hopen₀) hpush
      have hrun := hloop.view
      rw [run_singleton, SlotView.step, Except.ok.injEq, Prod.mk.injEq] at hrun
      have hviewSt : (s₂.view slot).take m = (st.sender.view slot, ((s₂.view slot).take m).2) :=
        Prod.ext hrun.1 rfl
      obtain ⟨b, hb⟩ := SlotView.block_of_created (m := m) hbefore (by rw [hviewSt]; exact hafter)
      refine ⟨b, ?_⟩
      rw [published_finish, published_of_slot hloop.ofSlot, ← hrun.2, hb]
      rfl

/-- **The `Block` freezes the same updates**, if none in front of it waits for its transaction. -/
theorem sameAccounts_of_created (h : TwoRuns cfg sourceName slot bankId s ms s₁ tr₁ s₂ tr₂) :
    s₂.floor < slot → ¬ Cleared slot bankId tr₂ → BlockReleased (published slot tr₂) →
      (s₂.bankOf slot bankId).blockCreated → SameAccounts slot bankId s₁ s₂ := by
  refine TwoRuns.induction (P := fun _ s₁ _ s₂ tr₂ => s₂.floor < slot → ¬ Cleared slot bankId tr₂ →
    BlockReleased (published slot tr₂) → (s₂.bankOf slot bankId).blockCreated →
      SameAccounts slot bankId s₁ s₂) ?_ ?_ h
  · intro _ _ _ _
    exact List.Perm.refl _
  intro ms m s₁ tr₁ s₂ tr₂ s₁' out₁ s₂' out₂ h ih h' hpush₁ hpush₂ hopen' hcleared' hreleased' hafter
  have hT := h.transparent
  have hopen : s₂.floor < slot := (push_floor_le hpush₂).trans_lt hopen'
  have hcleared : ¬ Cleared slot bankId tr₂ := fun hc => hcleared' (hc.append out₂)
  have hgathers : ∀ {ms s₁ tr₁ s₂ tr₂}, TwoRuns cfg sourceName slot bankId s ms s₁ tr₁ s₂ tr₂ →
      s₂.floor < slot → ¬ Cleared slot bankId tr₂ →
      (∃ blocks, Gathered slot bankId s₁ tr₁ blocks) ∧ ∃ blocks, Gathered slot bankId s₂ tr₂ blocks := by
    intro ms s₁ tr₁ s₂ tr₂ h hopen hcleared
    refine ⟨(run_gathers h.initial h.dedup).gathered ?_ fun hc => hcleared (h.cleared_iff.mp hc),
      (run_gathers h.initial h.plain).gathered hopen hcleared⟩
    rwa [h.transparent.floor_eq]
  obtain ⟨⟨blocks₁, hg₁⟩, blocks₂, hg₂⟩ := hgathers h hopen hcleared
  obtain ⟨⟨blocks₁', hg₁'⟩, blocks₂', hg₂'⟩ := hgathers h' hopen' hcleared'
  cases hbefore : (s₂.bankOf slot bankId).blockCreated with
  | true =>
    -- the updates stay as they were
    have hsame := ih hopen hcleared ((published_append slot tr₂ out₂ ▸ hreleased').of_append) hbefore
    obtain ⟨new₁, hrun₁⟩ := hg₁.runs_on hg₁'
    obtain ⟨new₂, hrun₂⟩ := hg₂.runs_on hg₂'
    unfold SameAccounts
    rw [(BankInfo.run_accounts_frozen hrun₁ ((h.blockCreated_eq hopen).trans hbefore)).2,
      (BankInfo.run_accounts_frozen hrun₂ hbefore).2]
    exact hsame
  | false =>
    -- both runs complete the `Block` in this push
    have hslot : m.slotOf = slot := (h'.singleBank m (by simp)).1
    obtain ⟨b, hb⟩ := h.published_of_created hslot hpush₂ hopen' hbefore hafter
    have hall : AllReleased (published slot (tr₂ ++ out₂)) := by
      rw [published_append, hb] at hreleased' ⊢
      have hfront : AllReleased (published slot tr₂ ++ [m.erase]) := hreleased' _ b [] (by simp)
      rw [show [m.erase, Message.block b] = [m.erase] ++ [.block b] from rfl, ← List.append_assoc]
      refine hfront.append fun m' hm' => ?_
      rw [List.mem_singleton.mp hm']
      rfl
    have hperm : (published slot (tr₁ ++ out₁)).Perm (published slot (tr₂ ++ out₂)) := by
      have hperm := h'.transparent.perm slot
      rwa [released_eq_self hall] at hperm
    obtain ⟨hsplit₁, hsplit₂⟩ := h.split_out h'.key_notMem hpush₁ hpush₂
    have hsettled : (s₂.bankOf slot bankId).view.Settled := by
      rw [bankOf_view]
      exact hT.settled slot hopen bankId
    have hsettled₁ : (s₁.bankOf slot bankId).view.Settled := by
      rw [bankOf_view, hT.view slot hopen]
      exact hT.settled slot hopen bankId
    have hreceives := h'.receives
    exact sameAccounts_of_covered h'.order h'.nodup hreceives.numbers hreceives.source
      h'.publishesAll.1.of_received h'.publishesAll.2.of_received hperm hg₁' hg₂'
      (hg₁.covered hg₁' ((h.blockCreated_eq hopen).trans hbefore) hsettled₁ hsplit₁)
      (hg₂.covered hg₂' hbefore hsettled hsplit₂)

/-- A `Block` that was published is complete. -/
theorem created_of_block (h : TwoRuns cfg sourceName slot bankId s ms s₁ tr₁ s₂ tr₂)
    {blocks : List ParsedMessage} (hg : Gathered slot bankId s₂ tr₂ blocks) {x : ParsedMessage}
    (hx : x ∈ stream .processed tr₂) (hblock : x.message.isBlock) :
    x ∈ blocks ∧ (s₂.bankOf slot bankId).blockCreated := by
  have hkind : x.message.isSlot = false ∧ x.message.isEntryUpdateParent = false := by
    cases hm : x.message with
    | block msg => exact ⟨rfl, rfl⟩
    | _ =>
      rw [hm] at hblock
      cases hblock
  obtain ⟨hslot, hbank⟩ := run_processed h.initial (singleBank_inputs h.singleBank false) h.plain x hx
  rcases hg.streams .processed x hx hslot (hbank hkind.1) hkind.1 hkind.2 with hx | hx
  · rw [h.receives.noBlock₂ x (mem_received_of_messagesOf hx)] at hblock
    cases hblock
  · exact ⟨hx, (BankInfo.run_blockCreated hg.bank).mpr (List.ne_nil_of_mem hx)⟩

/-- **Both banks keep the same updates** as long as the slot is open. -/
theorem sameAccounts (h : TwoRuns cfg sourceName slot bankId s ms s₁ tr₁ s₂ tr₂)
    (hopen : s₂.floor < slot) (hdelivered : Delivered (published slot tr₂)) :
    SameAccounts slot bankId s₁ s₂ := by
  have hopen₁ : s₁.floor < slot := by rwa [h.transparent.floor_eq]
  by_cases hcleared : Cleared slot bankId tr₂
  · unfold SameAccounts
    rw [bankOf_of_cleared h.initial h.dedup hopen₁ (h.cleared_iff.mpr hcleared),
      bankOf_of_cleared h.initial h.plain hopen hcleared]
  · obtain ⟨blocks₁, hg₁⟩ := (run_gathers h.initial h.dedup).gathered hopen₁
      fun hc => hcleared (h.cleared_iff.mp hc)
    obtain ⟨blocks₂, hg₂⟩ := (run_gathers h.initial h.plain).gathered hopen hcleared
    cases hcreated : (s₂.bankOf slot bankId).blockCreated with
    | true =>
      refine h.sameAccounts_of_created hopen hcleared (fun l₁ b l₂ heq => ?_) hcreated
      exact hdelivered l₁ (.block b :: l₂) heq (Or.inl ⟨b, l₂, rfl⟩)
    | false =>
      have hnoBlock : ∀ b, Message.block b ∉ published slot tr₂ := by
        intro b hb
        obtain ⟨x, hx, heq⟩ := List.mem_map.mp hb
        have hblock : x.message.isBlock := by
          cases hm : x.message with
          | block msg => rfl
          | _ =>
            rw [hm] at heq
            cases heq
        rw [(h.created_of_block hg₂ (List.mem_of_mem_filter hx) hblock).2] at hcreated
        cases hcreated
      have hall : AllReleased (published slot tr₂) :=
        hdelivered _ [] (List.append_nil _).symm (Or.inr ⟨rfl, hnoBlock⟩)
      have hperm : (published slot tr₁).Perm (published slot tr₂) := by
        have hperm := h.transparent.perm slot
        rwa [released_eq_self hall] at hperm
      have hreceives := h.receives
      exact sameAccounts_of_covered h.order h.nodup hreceives.numbers hreceives.source
        h.publishesAll.1.of_received h.publishesAll.2.of_received hperm hg₁ hg₂
        (BankInfo.run_covered hg₁.bank ((h.blockCreated_eq hopen).trans hcreated))
        (BankInfo.run_covered hg₂.bank hcreated)

end TwoRuns

/-! ### What survives -/

/-- A bank has one update of an account, so the same updates survive in the same order. -/
theorem survivors_eq {bank₁ bank₂ : BankInfo} (h : (bank₁.accounts.map (·.updateWriteVersion 0)).Perm
      (bank₂.accounts.map (·.updateWriteVersion 0))) (pubkey : Pubkey) :
    survivors pubkey bank₁.accounts = survivors pubkey bank₂.accounts := by
  have hfilter : ∀ bank : BankInfo, survivors pubkey bank.accounts =
      (bank.accounts.map (·.updateWriteVersion 0)).filter (·.pubkey = pubkey) := by
    intro bank
    unfold survivors
    rw [List.filter_map]
    rfl
  have hone : ∀ bank : BankInfo, (survivors pubkey bank.accounts).length ≤ 1 := by
    intro bank
    have hnodup : ((bank.accounts.filter (·.pubkey = pubkey)).map (·.pubkey)).Nodup :=
      bank.accounts_nodup.sublist (List.filter_sublist.map _)
    have hconst : (bank.accounts.filter (·.pubkey = pubkey)).map (·.pubkey) =
        List.replicate (bank.accounts.filter (·.pubkey = pubkey)).length pubkey := by
      refine List.eq_replicate_iff.mpr ⟨List.length_map _, fun k hk => ?_⟩
      obtain ⟨a, ha, rfl⟩ := List.mem_map.mp hk
      simpa using (List.mem_filter.mp ha).2
    rw [hconst] at hnodup
    rw [survivors, List.length_map]
    exact List.nodup_replicate.mp hnodup
  have hperm : (survivors pubkey bank₁.accounts).Perm (survivors pubkey bank₂.accounts) := by
    rw [hfilter, hfilter]
    exact h.filter _
  have hone₂ := hone bank₂
  cases hsurvivors : survivors pubkey bank₂.accounts with
  | nil =>
    rw [hsurvivors] at hperm
    exact hperm.eq_nil
  | cons a l =>
    rw [hsurvivors, List.length_cons] at hone₂
    have hnil : l = [] := List.eq_nil_of_length_eq_zero (by omega)
    subst hnil
    rw [hsurvivors] at hperm
    exact List.perm_singleton.mp hperm

/-- The account updates on a stream. -/
def accountsOf (l : List ParsedMessage) : List MessageAccount := l.filterMap (·.getAccount)

/-- The `Block` messages on processed. -/
def blocksOf (effects : List Effect) : List MessageBlock :=
  (stream .processed effects).filterMap (·.getBlock)

/-- The status takes the messages of its bank to the commitment. -/
def Promotes (cfg : Config) (msg : MessageSlot) (confirmed : Prop) : CommitmentLevel → Prop
  | .processed => False
  | .confirmed => cfg.confirmed ∧ msg.status = .slotConfirmed ∧ ¬ confirmed
  | .finalized => cfg.finalized ∧ msg.status = .slotFinalized

section

variable {cfg : Config} {s s' : Sender} {input : PushInput} {msg : MessageSlot}
  {out tr : List Effect} {slot : Slot} {bankId : Option BankId} {c : CommitmentLevel}

/-- **A status promotes the updates of the bank**, or none. -/
theorem accounts_of_status (hc : CandidateOf slot bankId s tr) (hopen : s.floor < slot)
    (hmsg : input.message = .slot msg) (hslot : msg.slot = slot)
    (hbank : (Message.slot msg).bankId = bankId ∨ (Message.slot msg).bankId = none)
    (hpush : s.push cfg input = .ok (s', out)) (haccepted : stream .processed out ≠ [])
    (hcommitment : c ≠ .processed) :
    (Promotes cfg msg (IsConfirmed slot tr) c →
      accountsOf (stream c out) = (s.bankOf slot bankId).accounts) ∧
    (¬ Promotes cfg msg (IsConfirmed slot tr) c → accountsOf (stream c out) = []) := by
  rcases push_status hmsg hpush with hnone | ⟨replay, info, selected, hcommit, -, hconfirmed, hfinalized⟩
  · exact absurd (hnone .processed) haccepted
  rw [hslot] at hcommit
  have hinfo : OneCandidate bankId (IsConfirmed slot tr) (PushState.slotInfo ⟨s, replay, false⟩ slot) :=
    hc hopen replay.head
  have hbanks := (SlotInfo.commit_banks (PushState.slotInfo ⟨s, replay, false⟩ slot) msg.status
    (Message.slot msg).bankId).1
  rw [hcommit] at hbanks
  have hmessages : ∀ k, info.getMessages k =
      (PushState.slotInfo ⟨s, replay, false⟩ slot).getMessages k := by
    intro k
    unfold SlotInfo.getMessages
    rw [show info.banks = _ from hbanks]
  have haccounts : accountsOf (info.getMessages ((PushState.slotInfo ⟨s, replay, false⟩ slot).selectBank
      (Message.slot msg).bankId)) = (s.bankOf slot bankId).accounts := by
    have hbankOf : s.bankOf slot bankId = (PushState.slotInfo ⟨s, replay, false⟩ slot).bank bankId :=
      bankOf_slotInfo ⟨s, replay, false⟩ slot bankId
    rw [hmessages, hbankOf]
    exact hinfo.accounts_selected hbank
  have hstatus : ∀ l : List ParsedMessage,
      accountsOf (⟨s.nextArc, .slot msg⟩ :: l) = accountsOf l := fun _ => rfl
  unfold SlotInfo.commit at hcommit
  cases c with
  | processed => exact absurd rfl hcommitment
  | confirmed =>
    rw [hconfirmed]
    unfold Promotes
    by_cases hcfg : cfg.confirmed
    · rw [if_pos hcfg, hstatus]
      by_cases hst : msg.status = .slotConfirmed
      · rw [if_pos hst]
        rw [hst] at hcommit
        dsimp only at hcommit
        rw [← hinfo.isSome]
        split at hcommit
        · rename_i hnone
          cases hcommit
          rw [Option.isNone_iff_eq_none] at hnone
          refine ⟨fun _ => haccounts, fun hnot => absurd ⟨hcfg, hst, ?_⟩ hnot⟩
          rw [hnone]
          exact Bool.false_ne_true
        · rename_i hsome
          cases hcommit
          refine ⟨fun hp => absurd ?_ hp.2.2, fun _ => rfl⟩
          rw [Option.isNone_iff_eq_none] at hsome
          exact Option.isSome_iff_ne_none.mpr hsome
      · rw [if_neg hst]
        exact ⟨fun hp => absurd hp.2.1 hst, fun _ => rfl⟩
    · rw [if_neg hcfg]
      exact ⟨fun hp => absurd hp.1 hcfg, fun _ => rfl⟩
  | finalized =>
    rw [hfinalized]
    unfold Promotes
    by_cases hcfg : cfg.finalized
    · rw [if_pos hcfg, hstatus]
      by_cases hst : msg.status = .slotFinalized
      · rw [if_pos hst]
        rw [hst] at hcommit
        cases hcommit
        exact ⟨fun _ => haccounts, fun hnot => absurd ⟨hcfg, hst⟩ hnot⟩
      · rw [if_neg hst]
        exact ⟨fun hp => absurd hp.2 hst, fun _ => rfl⟩
    · rw [if_neg hcfg]
      exact ⟨fun hp => absurd hp.1 hcfg, fun _ => rfl⟩

/-- The `Block` messages of a list, counted on what is published of the slot. -/
theorem length_blocksOf (h : ∀ x ∈ stream .processed out, x.slot = slot) :
    (blocksOf out).length = (published slot out).countP (·.isBlock) := by
  have hcount : ∀ l : List ParsedMessage, (l.filterMap (·.getBlock)).length =
      (l.map (·.message.erase)).countP (·.isBlock) := by
    intro l
    induction l with
    | nil => rfl
    | cons x l ih =>
      obtain ⟨arc, x⟩ := x
      rw [List.map_cons]
      cases x with
      | block msg =>
        have hcons : ((⟨arc, .block msg⟩ : ParsedMessage) :: l).filterMap (·.getBlock) =
            msg :: l.filterMap (·.getBlock) := rfl
        rw [hcons, List.length_cons, List.countP_cons_of_pos rfl, ih]
      | _ => rw [List.filterMap_cons_none rfl, List.countP_cons_of_neg (by simp [Message.erase]), ih]
  rw [blocksOf, hcount, published_of_slot h]

end

namespace TwoRuns

variable {cfg : Config} {sourceName : SourceName} {slot : Slot} {bankId : Option BankId}
  {s s₁ s₂ s₁' s₂' : Sender} {ms : List Message} {m : Message} {tr₁ tr₂ out₁ out₂ : List Effect}

theorem slotDropped (h : TwoRuns cfg sourceName slot bankId s ms s₁ tr₁ s₂ tr₂) :
    s₂.slotDropped = s.slotDropped :=
  run_slotDropped h.max h.initial (slots_of_singleBank h.singleBank false) h.plain

/-- As many `Block` messages are published in both runs. -/
theorem countP_published (h : TwoRuns cfg sourceName slot bankId s ms s₁ tr₁ s₂ tr₂) :
    (published slot tr₁).countP (·.isBlock) = (published slot tr₂).countP (·.isBlock) := by
  rw [(h.transparent.perm slot).countP_eq, released, List.countP_filter]
  refine List.countP_congr fun m _ => ?_
  cases m <;> simp [Message.waitsFor]

theorem length_blocksOf_eq (h : TwoRuns cfg sourceName slot bankId s ms s₁ tr₁ s₂ tr₂)
    (h' : TwoRuns cfg sourceName slot bankId s (ms ++ [m]) s₁' (tr₁ ++ out₁) s₂' (tr₂ ++ out₂)) :
    (blocksOf out₁).length = (blocksOf out₂).length := by
  have hslots : ∀ {b s' tr out}, run (push cfg) s ((ms ++ [m]).map fun m => ⟨b, sourceName, m⟩) =
      .ok (s', tr ++ out) → ∀ x ∈ stream .processed out, x.slot = slot := by
    intro b s' tr out hrun x hx
    refine (run_processed h'.initial (singleBank_inputs h'.singleBank b) hrun x ?_).1
    rw [stream_append]
    exact List.mem_append_right _ hx
  have hbefore := h.countP_published
  have hafter := h'.countP_published
  rw [published_append, published_append, List.countP_append, List.countP_append] at hafter
  rw [length_blocksOf (hslots h'.dedup), length_blocksOf (hslots h'.plain)]
  omega

/-- The push that publishes the `Block` leaves the slot open. -/
theorem open_of_block (h : TwoRuns cfg sourceName slot bankId s ms s₁ tr₁ s₂ tr₂)
    (h' : TwoRuns cfg sourceName slot bankId s (ms ++ [m]) s₁' (tr₁ ++ out₁) s₂' (tr₂ ++ out₂))
    (hpush₂ : s₂.push cfg ⟨false, sourceName, m⟩ = .ok (s₂', out₂)) {x : ParsedMessage}
    (hx : x ∈ stream .processed out₂) (hblock : x.message.isBlock) :
    s₂'.floor < slot ∧ (s₂'.bankOf slot bankId).blockCreated := by
  have hT := h.transparent
  obtain ⟨hslot, hbank⟩ := h'.singleBank m (by simp)
  rcases push_nodedup_cases hpush₂ with ⟨-, rfl, rfl⟩ | ⟨hfloor, -, st, eff, hpush, rfl, rfl⟩
  · cases hx
  rw [stream_append, stream_finish, List.append_nil] at hx
  rw [hslot] at hpush hfloor
  cases hm : m.isSlot with
  | true =>
    cases m with
    | slot msg =>
      obtain ⟨info, selected, kept, hstep⟩ := PushState.pushMessage_status hpush
      rw [hstep.processed] at hx
      split at hx
      · rw [List.mem_singleton.mp hx] at hblock
        cases hblock
      · cases hx
    | _ => cases hm
  | false =>
    have hloop := PushState.loop_pushMessage (hT.noJournal₂.replayInfo slot) hm hslot hT.contents₂
      (hT.settled slot hfloor) hpush
    have hopen : (st.finish cfg m.slotOf).1.floor < slot := by
      have hdropped : (st.finish cfg m.slotOf).1.slotDropped = s₂.slotDropped :=
        h'.slotDropped.trans h.slotDropped.symm
      rw [floor, (finishStep cfg m.slotOf st).slotFinalized, hdropped, hloop.slotFinalized]
      exact hfloor
    refine ⟨hopen, ?_⟩
    have hmBlock : m.isBlock = false := by
      refine h'.receives.noBlock₂ ⟨s₂.nextArc, m⟩ ?_
      simp [(received_pushMessage hpush).1]
    have hrun := hloop.view
    rw [run_singleton, SlotView.step, Except.ok.injEq, Prod.mk.injEq] at hrun
    have hmem : x.message.erase ∈ m.erase :: ((s₂.view slot).take m).2.toList :=
      hrun.2 ▸ List.mem_map_of_mem hx
    have herase : ∀ m : Message, m.erase.isBlock = m.isBlock := by
      intro m
      cases m <;> rfl
    rcases List.mem_cons.mp hmem with heq | hmem
    · rw [← herase, heq, herase, hmBlock] at hblock
      cases hblock
    · have hcreated := SlotView.created_of_block (Option.mem_toList.mp hmem)
      have hview : (st.finish cfg m.slotOf).1.view slot = ((s₂.view slot).take m).1 := by
        rw [Sender.view, get?_finish_slots hopen, ← Sender.view, hrun.1]
      have hbank' : m.bankId = bankId := by
        refine hbank.resolve_right fun hno => ?_
        rw [hm] at hno
        exact Bool.false_ne_true hno.1
      have hbankView := (st.finish cfg m.slotOf).1.bankOf_view slot bankId
      rw [hview, ← hbank'] at hbankView
      rw [← hbank', show (((st.finish cfg m.slotOf).1.bankOf slot m.bankId).blockCreated) =
        ((((s₂.view slot).take m).1.banks m.bankId).blockCreated) from
          congrArg BankView.blockCreated hbankView]
      exact hcreated

/-- A `Block` has the updates of the bank. -/
theorem accounts_of_block {tr : List Effect} {blocks : List ParsedMessage}
    (hg : Gathered slot bankId s tr blocks)
    (hprocessed : ∀ x ∈ stream .processed tr, x.slot = slot ∧ (x.message.isSlot = false → x.bankId = bankId))
    (hnoBlock : ∀ x ∈ received tr, x.message.isBlock = false) {b : MessageBlock}
    (hb : b ∈ blocksOf tr) : b.accounts = (s.bankOf slot bankId).accounts := by
  obtain ⟨x, hx, hxb⟩ := List.mem_filterMap.mp hb
  have hmessage : x.message = .block b := by
    obtain ⟨arc, x⟩ := x
    cases x <;> cases hxb
    rfl
  obtain ⟨hslot, hbank⟩ := hprocessed x hx
  rcases hg.streams .processed x hx hslot (hbank (by rw [hmessage]; rfl)) (by rw [hmessage]; rfl)
    (by rw [hmessage]; rfl) with hx | hx
  · have hno := hnoBlock x (mem_received_of_messagesOf hx)
    rw [hmessage] at hno
    cases hno
  · obtain ⟨msg, hmsg, haccounts⟩ := BankInfo.run_block_accounts hg.bank x hx
    rw [hmessage, Message.block.injEq] at hmsg
    rw [hmsg, haccounts]

/-- **The `Block` messages of a push** have the same updates. -/
theorem survivors_block (h : TwoRuns cfg sourceName slot bankId s ms s₁ tr₁ s₂ tr₂)
    (h' : TwoRuns cfg sourceName slot bankId s (ms ++ [m]) s₁' (tr₁ ++ out₁) s₂' (tr₂ ++ out₂))
    (hpush₂ : s₂.push cfg ⟨false, sourceName, m⟩ = .ok (s₂', out₂))
    (hdelivered : Delivered (published slot (tr₂ ++ out₂))) (pubkey : Pubkey) :
    (blocksOf out₁).map (fun b => survivors pubkey b.accounts) =
      (blocksOf out₂).map fun b => survivors pubkey b.accounts := by
  have hlength := h.length_blocksOf_eq h'
  cases hblocks : blocksOf out₂ with
  | nil =>
    rw [hblocks, List.length_nil] at hlength
    rw [List.eq_nil_of_length_eq_zero hlength]
  | cons b₀ l =>
    rw [← hblocks]
    obtain ⟨x, hx, hxb⟩ := List.mem_filterMap.mp (show b₀ ∈ blocksOf out₂ by rw [hblocks]; exact List.mem_cons_self)
    have hblock : x.message.isBlock := by
      obtain ⟨arc, x⟩ := x
      cases x <;> cases hxb
      rfl
    obtain ⟨hopen, hcreated⟩ := h.open_of_block h' hpush₂ hx hblock
    have hopen₁ : s₁'.floor < slot := by rwa [h'.transparent.floor_eq]
    have hcleared : ¬ Cleared slot bankId (tr₂ ++ out₂) := by
      intro hc
      rw [bankOf_of_cleared h'.initial h'.plain hopen hc] at hcreated
      cases hcreated
    obtain ⟨blocks₁, hg₁⟩ := (run_gathers h'.initial h'.dedup).gathered hopen₁
      fun hc => hcleared (h'.cleared_iff.mp hc)
    obtain ⟨blocks₂, hg₂⟩ := (run_gathers h'.initial h'.plain).gathered hopen hcleared
    have hmem : ∀ {tr out : List Effect} {b}, b ∈ blocksOf out → b ∈ blocksOf (tr ++ out) := by
      intro tr out b hb
      rw [blocksOf, stream_append, List.filterMap_append]
      exact List.mem_append_right _ hb
    have hreceives := h'.receives
    have hsame : ∀ b₁ ∈ blocksOf out₁, ∀ b₂ ∈ blocksOf out₂,
        survivors pubkey b₁.accounts = survivors pubkey b₂.accounts := by
      intro b₁ hb₁ b₂ hb₂
      rw [accounts_of_block hg₁ (run_processed h'.initial (singleBank_inputs h'.singleBank true) h'.dedup)
          hreceives.noBlock₁ (hmem hb₁),
        accounts_of_block hg₂ (run_processed h'.initial (singleBank_inputs h'.singleBank false) h'.plain)
          hreceives.noBlock₂ (hmem hb₂)]
      exact survivors_eq (h'.sameAccounts hopen hdelivered) pubkey
    refine List.ext_getElem (by rw [List.length_map, List.length_map, hlength]) fun i hi₁ hi₂ => ?_
    rw [List.getElem_map, List.getElem_map]
    exact hsame _ (List.getElem_mem _) _ (List.getElem_mem _)

/-- **The promotions of a status** have the same updates. -/
theorem survivors_status (h : TwoRuns cfg sourceName slot bankId s ms s₁ tr₁ s₂ tr₂)
    (h' : TwoRuns cfg sourceName slot bankId s (ms ++ [m]) s₁' (tr₁ ++ out₁) s₂' (tr₂ ++ out₂))
    (hpush₁ : s₁.push cfg ⟨true, sourceName, m⟩ = .ok (s₁', out₁))
    (hpush₂ : s₂.push cfg ⟨false, sourceName, m⟩ = .ok (s₂', out₂)) (hm : m.isSlot)
    (hdelivered : Delivered (published slot (tr₂ ++ out₂))) (pubkey : Pubkey) {c : CommitmentLevel}
    (hc : c ≠ .processed) :
    survivors pubkey (accountsOf (stream c out₁)) = survivors pubkey (accountsOf (stream c out₂)) := by
  cases m with
  | slot msg =>
    have hT := h.transparent
    obtain ⟨hslot, hbank⟩ := h'.singleBank (.slot msg) (by simp)
    have hslot' : msg.slot = slot := hslot
    rcases hT.push_cases h'.key_notMem hpush₁ hpush₂ with ⟨-, rfl, -, rfl⟩ |
      ⟨hfloor, d, messages, st₂, eff₂, hp, -, hpush₂', -, hout₂, hrest⟩
    · rfl
    have hmessages : messages = [.slot msg] := by
      rcases hp.cases with ⟨-, heq, -⟩ | ⟨hno, -⟩
      · exact heq
      · cases hno
    subst hmessages
    rw [hslot] at hfloor
    have hreceived₁ : received out₁ ≠ [] := by
      rcases hrest with ⟨hno, -⟩ | ⟨-, st₁, eff₁, hrun₁, -, rfl⟩
      · cases hno
      · simp [(received_pushMessage (run_singleton.mp hrun₁)).1]
    have hreceived₂ : received out₂ ≠ [] := by
      rw [hout₂]
      simp [(received_pushMessage hpush₂').1]
    have haccepted : ∀ {out}, PublishesAll out → received out ≠ [] → stream .processed out ≠ [] := by
      intro out hp hne
      obtain ⟨x, hx⟩ := List.exists_mem_of_ne_nil _ hne
      exact List.ne_nil_of_mem (hp.of_received x hx)
    have hpublished : published slot out₂ = [.slot msg] := by
      obtain ⟨info, selected, kept, hstep⟩ := PushState.pushMessage_status hpush₂'
      have hprocessed := hstep.processed
      rw [if_pos (hstep.kept_fresh (hT.noJournal₂.replayInfo _)).1] at hprocessed
      rw [hout₂, published_finish, published_of_slot, hprocessed]
      · rfl
      · intro x hx
        rw [hprocessed, List.mem_singleton] at hx
        rw [hx]
        exact hslot
    rw [published_append, hpublished] at hdelivered
    have hsame := h.sameAccounts hfloor (hdelivered.of_status rfl)
    have hbank' := hbank.imp_right And.right
    have hstatus₁ := accounts_of_status (run_candidateOf h.initial (singleBank_inputs h.singleBank true) h.dedup)
      (by rwa [hT.floor_eq]) rfl hslot' hbank' hpush₁
      (haccepted (hT.noJournal₁.push hpush₁).2 hreceived₁) hc
    have hstatus₂ := accounts_of_status (run_candidateOf h.initial (singleBank_inputs h.singleBank false) h.plain)
      hfloor rfl hslot' hbank' hpush₂ (haccepted (hT.noJournal₂.push hpush₂).2 hreceived₂) hc
    rw [propext h.isConfirmed_iff] at hstatus₁
    by_cases hpromotes : Promotes cfg msg (IsConfirmed slot tr₂) c
    · rw [hstatus₁.1 hpromotes, hstatus₂.1 hpromotes]
      exact survivors_eq hsame pubkey
    · rw [hstatus₁.2 hpromotes, hstatus₂.2 hpromotes]
  | _ => cases hm

end TwoRuns

/-- An update of an account of bank `7`. -/
def lamportsUpdate (lamports writeVersion : ℕ) (txnSignature : Option Bytes) : Message :=
  .account ⟨5, some 7, default, default, lamports, false, 0, [], writeVersion, txnSignature, false⟩

/-- The update of the transaction of slot `5`. -/
def signedLamports (lamports writeVersion : ℕ) : Message :=
  lamportsUpdate lamports writeVersion (some (List.replicate 64 0))

/-- The update without a signature comes after the one of the transaction. -/
def unsignedLast : List Message :=
  [signedLamports 1 1, transactionOf 5, lamportsUpdate 2 2 none, .blockMeta ⟨5, 7, 1, 0, ⟨0, 0⟩, []⟩,
    statusOf .slotConfirmed, statusOf .slotFinalized]

end Sender

end Richat
