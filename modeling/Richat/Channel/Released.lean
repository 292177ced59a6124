import Richat.Channel.NewEvent
import Richat.Channel.SlotView

/-!
# The account updates that wait for their transaction

Without deduplication everything of a slot is published. With deduplication an account update waits
for its transaction, so what is published is what `released` leaves of the list. `Follows` relates
the dedup state of a slot to the list published without deduplication; a new event keeps it, and
keeps the two publications in step (`Follows.released_perm`).
-/

namespace Richat

open Lib

namespace Message

/-- Bank and signature of an account update of a transaction. -/
def waitsFor : Message → Option (Option BankId × Bytes)
  | account msg => msg.txnSignature.map fun signature => ((account msg).bankId, signature)
  | _ => none

/-- Bank and signature of a transaction. -/
def releases : Message → Option (Option BankId × Bytes)
  | transaction msg => msg.signatureBytes.map fun signature => ((transaction msg).bankId, signature)
  | _ => none

@[simp] theorem waitsFor_erase (m : Message) : m.erase.waitsFor = m.waitsFor := by
  cases m <;> rfl

@[simp] theorem releases_erase (m : Message) : m.erase.releases = m.releases := by
  cases m <;> rfl

@[simp] theorem erase_updateWriteVersion (msg : MessageAccount) (writeVersion : ℕ) :
    (account (msg.updateWriteVersion writeVersion)).erase = (account msg).erase := rfl

theorem unsigned_of_isSlot {m : Message} (h : m.isSlot) : m.releases = none ∧ m.waitsFor = none := by
  cases m <;> first | exact ⟨rfl, rfl⟩ | cases h

theorem unsigned_of_other {m : Message} (hm : ∀ msg, m ≠ account msg)
    (ht : ∀ msg, m ≠ transaction msg) : m.releases = none ∧ m.waitsFor = none := by
  cases m <;> first | exact ⟨rfl, rfl⟩ | exact absurd rfl (hm _) | exact absurd rfl (ht _)

theorem bankId_of_waitsFor {m : Message} {bankId : Option BankId} {signature : Bytes}
    (h : m.waitsFor = some (bankId, signature)) : bankId = m.bankId := by
  cases m with
  | account msg =>
    obtain ⟨_, -, heq⟩ := Option.map_eq_some_iff.mp h
    exact (Prod.mk.inj heq).1.symm
  | _ => cases h

theorem bankId_of_releases {m : Message} {bankId : Option BankId} {signature : Bytes}
    (h : m.releases = some (bankId, signature)) : bankId = m.bankId := by
  cases m with
  | transaction msg =>
    obtain ⟨_, -, heq⟩ := Option.map_eq_some_iff.mp h
    exact (Prod.mk.inj heq).1.symm
  | _ => cases h

/-- What tells the events of a source apart. -/
def key (m : Message) : Slot × Option BankId × Event := (m.slotOf, m.bankId, m.event)

end Message

/-- The signatures of the transactions in a list. -/
def signatures (l : List Message) : List (Option BankId × Bytes) := l.filterMap Message.releases

/-- Without the updates whose transaction is not in the list. -/
def released (l : List Message) : List Message :=
  l.filter fun m => ∀ k ∈ m.waitsFor, k ∈ signatures l

@[simp] theorem signatures_append (l l' : List Message) :
    signatures (l ++ l') = signatures l ++ signatures l' := by
  simp [signatures]

theorem released_eq_self {l : List Message}
    (h : ∀ m ∈ l, ∀ k ∈ m.waitsFor, k ∈ signatures l) : released l = l :=
  List.filter_eq_self.mpr fun m hm => decide_eq_true (h m hm)

/-- Messages that release nothing. -/
theorem released_append {l new : List Message} (h : ∀ m ∈ new, m.releases = none) :
    released (l ++ new) = released l ++ new.filter fun m => ∀ k ∈ m.waitsFor, k ∈ signatures l := by
  have hnone : signatures new = [] := List.filterMap_eq_nil_iff.mpr h
  unfold released
  rw [signatures_append, hnone, List.append_nil, List.filter_append]

theorem filter_or_perm {α : Type*} {l : List α} {p q : α → Bool}
    (h : ∀ a ∈ l, p a = true → q a = false) :
    (l.filter fun a => p a || q a).Perm (l.filter p ++ l.filter q) := by
  refine (List.filter_append_perm p _).symm.trans ?_
  rw [List.filter_filter, List.filter_filter]
  refine List.Perm.of_eq (congrArg₂ _ ?_ ?_)
  · refine List.filter_congr fun a _ => ?_
    cases p a <;> rfl
  · refine List.filter_congr fun a ha => ?_
    cases hp : p a with
    | false => rfl
    | true => rw [h a ha hp]; rfl

/-- A transaction releases the updates that wait for it. -/
theorem released_append_transaction {l new : List Message} {k : Option BankId × Bytes}
    (hnew : signatures new = [k]) (hwaits : ∀ m ∈ new, m.waitsFor = none) (hk : k ∉ signatures l) :
    (released (l ++ new)).Perm
      (released l ++ (l.filter fun m => m.waitsFor = some k) ++ new) := by
  have hnewKeep : new.filter (fun m => ∀ k' ∈ m.waitsFor, k' ∈ signatures (l ++ new)) = new := by
    refine List.filter_eq_self.mpr fun m hm => decide_eq_true ?_
    rw [hwaits m hm]
    simp
  unfold released
  rw [List.filter_append, hnewKeep]
  refine List.Perm.append_right new ?_
  rw [signatures_append, hnew]
  have hor : ∀ m : Message, decide (∀ k' ∈ m.waitsFor, k' ∈ signatures l ++ [k]) =
      (decide (∀ k' ∈ m.waitsFor, k' ∈ signatures l) || decide (m.waitsFor = some k)) := by
    intro m
    cases m.waitsFor <;> simp
  rw [List.filter_congr fun m _ => hor m]
  refine filter_or_perm fun m _ hall => decide_eq_false fun heq => ?_
  exact hk (of_decide_eq_true hall k heq)

/-! ### The dedup state of a slot -/

/-- The dedup state of a slot, against what was published of the slot without deduplication. -/
structure Follows (sourceName : SourceName) (slot : Slot) (seen : List (Slot × Option BankId × Event))
    (l : List Message) (dedup : DedupInfo) : Prop where
  source : ∀ source ∈ dedup.source, source = sourceName
  holds : ∀ bankId event, dedup.Holds bankId event → (slot, bankId, event) ∈ seen
  known : ∀ bankId (signature : Signature),
    (bankId, signature.1) ∈ signatures l ↔ (dedup.banks bankId).IsKnown signature
  parked : ∀ bankId (signature : Signature) vec, (dedup.banks bankId).IsParked signature vec →
    (vec.map fun msg => (Message.account msg).erase).Perm
      (l.filter fun m => m.waitsFor = some (bankId, signature.1))

variable {sourceName : SourceName} {slot : Slot} {seen : List (Slot × Option BankId × Event)}
  {l l₁ : List Message} {dedup dedup' : DedupInfo} {m : Message} {ms : List Message}
  {block : Option Message}

theorem follows_default (h : l = []) : Follows sourceName slot seen l .default where
  source := fun _ hs => (by cases hs)
  holds := fun bankId event hp => absurd hp (DedupInfo.not_holds_default bankId event)
  known := by
    subst h
    intro bankId signature
    constructor
    · intro hk
      cases hk
    · rintro ⟨_, hk⟩
      cases hk
  parked := by
    rintro bankId signature vec (⟨-, rfl⟩ | hvec)
    · subst h
      exact List.Perm.refl _
    · cases hvec

theorem Follows.mono (h : Follows sourceName slot seen l dedup)
    (k : Slot × Option BankId × Event) : Follows sourceName slot (seen ++ [k]) l dedup :=
  ⟨h.source, fun b e hp => List.mem_append_left _ (h.holds b e hp), h.known, h.parked⟩

/-- What a bank knows of a signature and has parked under it, once `m` is published as well. -/
@[mk_iff] structure BankFollows (l : List Message) (m : Message) (bankId : Option BankId) (bank : DedupInfoBank)
    (signature : Signature) : Prop where
  known : (bankId, signature.1) ∈ signatures l ∨ m.releases = some (bankId, signature.1) ↔
    bank.IsKnown signature
  parked : ∀ vec, bank.IsParked signature vec →
    (vec.map fun msg => (Message.account msg).erase).Perm
      (l.filter (fun m' => m'.waitsFor = some (bankId, signature.1)) ++
        if m.waitsFor = some (bankId, signature.1) then [m.erase] else [])

theorem Follows.bank (h : Follows sourceName slot seen l dedup) {bank' : DedupInfoBank}
    (hp : (dedup.banks m.bankId).Passes bank' m ms) (signature : Signature) :
    BankFollows l m m.bankId bank' signature := by
  have hknown := h.known m.bankId signature
  have hparked := h.parked m.bankId signature
  rw [bankFollows_iff, hknown]
  cases hp with
  | other hm ht same =>
    have hnone := Message.unsigned_of_other hm ht
    rw [hnone.1, hnone.2, DedupInfoBank.isKnown_of_same same]
    simp only [DedupInfoBank.isParked_of_same same]
    simpa using hparked
  | @unsigned msg hsig same =>
    have hnone : (Message.account msg).waitsFor = none := by simp [Message.waitsFor, hsig]
    rw [hnone, show (Message.account msg).releases = none from rfl,
      DedupInfoBank.isKnown_of_same same]
    simp only [DedupInfoBank.isParked_of_same same]
    simpa using hparked
  | @known msg s index hsig hindex same =>
    rw [show (Message.account msg).releases = none from rfl, DedupInfoBank.isKnown_of_same same]
    refine ⟨by simp, fun vec hvec => ?_⟩
    rw [DedupInfoBank.isParked_of_same same] at hvec
    have hne : signature ≠ s := by
      rintro rfl
      exact hvec.not_isKnown ⟨index, hindex⟩
    have hother : ¬ (Message.account msg).waitsFor =
        some ((Message.account msg).bankId, signature.1) := by
      simp only [Message.waitsFor, hsig, Option.map_some, Option.some.injEq, Prod.mk.injEq, true_and]
      exact fun heq => hne (Subtype.ext heq.symm)
    rw [if_neg hother, List.append_nil]
    exact hparked vec hvec
  | @parks msg s vec₀ hsig hvec₀ set =>
    rw [show (Message.account msg).releases = none from rfl, DedupInfoBank.isKnown_of_update set]
    by_cases heq : signature = s
    · subst heq
      have hwaits : (Message.account msg).waitsFor =
          some ((Message.account msg).bankId, signature.1) := by simp [Message.waitsFor, hsig]
      rw [if_pos rfl, if_pos hwaits]
      refine ⟨by simpa using hvec₀.not_isKnown, fun vec hvec => ?_⟩
      rw [DedupInfoBank.isParked_of_update set, if_pos rfl] at hvec
      cases hvec
      rw [List.map_append]
      exact (hparked vec₀ hvec₀).append_right _
    · have hother : ¬ (Message.account msg).waitsFor =
          some ((Message.account msg).bankId, signature.1) := by
        simp only [Message.waitsFor, hsig, Option.map_some, Option.some.injEq, Prod.mk.injEq, true_and]
        exact fun he => heq (Subtype.ext he.symm)
      rw [if_neg heq, if_neg hother, List.append_nil]
      refine ⟨by simp, fun vec hvec => ?_⟩
      rw [DedupInfoBank.isParked_of_update set, if_neg heq] at hvec
      exact hparked vec hvec
  | @releases msg s vec₀ hsig hvec₀ set =>
    have hreleases : (Message.transaction msg).releases =
        some ((Message.transaction msg).bankId, s.1) := by simp [Message.releases, hsig]
    rw [show (Message.transaction msg).waitsFor = none from rfl, hreleases,
      DedupInfoBank.isKnown_of_update set]
    by_cases heq : signature = s
    · subst heq
      rw [if_pos rfl]
      refine ⟨by simp, fun vec hvec => ?_⟩
      rw [DedupInfoBank.isParked_of_update set, if_pos rfl] at hvec
      cases hvec
    · rw [if_neg heq]
      constructor
      · simp only [Option.some.injEq, Prod.mk.injEq, true_and]
        exact or_iff_left fun he => heq (Subtype.ext he.symm)
      · intro vec hvec
        rw [DedupInfoBank.isParked_of_update set, if_neg heq] at hvec
        simpa using hparked vec hvec

/-- **The dedup state follows** what is published without deduplication: the message, and perhaps
the `Block` it completes. -/
theorem Follows.passes (h : Follows sourceName slot seen l dedup) (hslot : m.slotOf = slot)
    (hp : DedupInfo.Passes sourceName dedup m dedup' ms)
    (hblock : ∀ b ∈ block, b.releases = none ∧ b.waitsFor = none) :
    Follows sourceName slot (seen ++ [m.key]) (l ++ m.erase :: block.toList) dedup' := by
  have hsignatures : ∀ k, k ∈ signatures (l ++ m.erase :: block.toList) ↔
      k ∈ signatures l ∨ m.releases = some k := by
    intro k
    have hnone : signatures block.toList = [] :=
      List.filterMap_eq_nil_iff.mpr fun b hb => (hblock b (Option.mem_toList.mp hb)).1
    rw [signatures_append, List.mem_append, show m.erase :: block.toList = [m.erase] ++ block.toList
      from rfl, signatures_append, hnone, List.append_nil]
    cases hm : m.releases with
    | none => simp [signatures, hm]
    | some k' => simp [signatures, hm, eq_comm]
  have hfilter : ∀ k, (l ++ m.erase :: block.toList).filter (fun m' => m'.waitsFor = some k) =
      l.filter (fun m' => m'.waitsFor = some k) ++ if m.waitsFor = some k then [m.erase] else [] := by
    intro k
    have hnone : block.toList.filter (fun m' => decide (m'.waitsFor = some k)) = [] := by
      refine List.filter_eq_nil_iff.mpr fun b hb => ?_
      simp [(hblock b (Option.mem_toList.mp hb)).2]
    rw [List.filter_append, List.filter_cons, hnone, Message.waitsFor_erase]
    by_cases hk : m.waitsFor = some k <;> simp [hk]
  have hcases : ∀ bankId (signature : Signature),
      BankFollows l m bankId (dedup'.banks bankId) signature := by
    intro bankId signature
    have hidle : dedup'.banks bankId = dedup.banks bankId →
        m.releases ≠ some (bankId, signature.1) → m.waitsFor ≠ some (bankId, signature.1) →
        BankFollows l m bankId (dedup'.banks bankId) signature := by
      intro hsame hreleases hwaits
      constructor
      · rw [or_iff_left hreleases, hsame]
        exact h.known bankId signature
      · rw [if_neg hwaits, hsame, List.append_nil]
        exact h.parked bankId signature
    rcases hp.cases with ⟨hm, -, hbanks⟩ | ⟨-, hbank⟩
    · obtain ⟨hreleases, hwaits⟩ := Message.unsigned_of_isSlot hm
      exact hidle (by rw [hbanks]) (by simp [hreleases]) (by simp [hwaits])
    · by_cases hb : bankId = m.bankId
      · subst hb
        exact h.bank hbank signature
      · exact hidle (hp.other bankId hb) (fun hr => hb (Message.bankId_of_releases hr))
          fun hw => hb (Message.bankId_of_waitsFor hw)
  constructor
  · exact hp.source
  · intro bankId event hh
    rcases hp.holds bankId event hh with hh | ⟨rfl, rfl⟩
    · exact List.mem_append_left _ (h.holds bankId event hh)
    · exact List.mem_append_right _ (List.mem_singleton.mpr (by rw [← hslot]; rfl))
  · intro bankId signature
    rw [hsignatures]
    exact (hcases bankId signature).known
  · intro bankId signature vec hvec
    rw [hfilter]
    exact (hcases bankId signature).parked vec hvec

/-- **What is published with deduplication**, against what is published without it. -/
theorem Follows.released_perm (h : Follows sourceName slot seen l dedup)
    (hp : DedupInfo.Passes sourceName dedup m dedup' ms)
    (hblock : ∀ b ∈ block, b.releases = none ∧ b.waitsFor = none) (hperm : l₁.Perm (released l)) :
    (l₁ ++ (ms.map Message.erase ++ block.toList)).Perm
      (released (l ++ m.erase :: block.toList)) := by
  have hb : ∀ b ∈ block.toList, b.releases = none ∧ b.waitsFor = none :=
    fun b hb => hblock b (Option.mem_toList.mp hb)
  have hkeepBlock : block.toList.filter (fun m' => ∀ k ∈ m'.waitsFor, k ∈ signatures l) =
      block.toList := by
    refine List.filter_eq_self.mpr fun b hmem => decide_eq_true ?_
    rw [(hb b hmem).2]
    simp
  -- a message that is no transaction: it is published on both sides, or waits
  have hplain : m.releases = none → ms.map Message.erase =
      (if ∀ k ∈ m.waitsFor, k ∈ signatures l then [m.erase] else []) →
      (l₁ ++ (ms.map Message.erase ++ block.toList)).Perm
        (released (l ++ m.erase :: block.toList)) := by
    intro hnone hms
    have hnew : ∀ m' ∈ m.erase :: block.toList, m'.releases = none := by
      intro m' hm'
      rcases List.mem_cons.mp hm' with rfl | hm'
      · simpa using hnone
      · exact (hb m' hm').1
    rw [released_append hnew, List.filter_cons, hkeepBlock, hms, Message.waitsFor_erase]
    refine hperm.append ?_
    by_cases hk : ∀ k ∈ m.waitsFor, k ∈ signatures l
    · rw [if_pos hk, if_pos (decide_eq_true hk)]
      exact List.Perm.refl _
    · rw [if_neg hk, if_neg (by simpa using hk)]
      exact List.Perm.refl _
  rcases hp.cases with ⟨hm, rfl, -⟩ | ⟨-, hbank⟩
  · have hnone := Message.unsigned_of_isSlot hm
    exact hplain hnone.1 (by simp [hnone.2])
  · have hknown := fun s => h.known m.bankId s
    have hparked := fun s => h.parked m.bankId s
    cases hbank with
    | other hm ht same =>
      have hnone := Message.unsigned_of_other hm ht
      exact hplain hnone.1 (by simp [hnone.2])
    | @unsigned msg hsig same =>
      exact hplain rfl (by simp [Message.waitsFor, hsig])
    | @known msg s index hsig hindex same =>
      refine hplain rfl ?_
      rw [if_pos]
      · rfl
      · simp only [Message.waitsFor, hsig, Option.map_some, Option.mem_def, Option.some.injEq,
          forall_eq']
        exact (hknown s).mpr ⟨index, hindex⟩
    | @parks msg s vec hsig hvec set =>
      refine hplain rfl ?_
      rw [if_neg]
      · rfl
      · simp only [Message.waitsFor, hsig, Option.map_some, Option.mem_def, Option.some.injEq,
          forall_eq']
        exact fun hmem => hvec.not_isKnown ((hknown s).mp hmem)
    | @releases msg s vec hsig hvec set =>
      have hreleases : (Message.transaction msg).releases =
          some ((Message.transaction msg).bankId, s.1) := by simp [Message.releases, hsig]
      have hsignatures : signatures ((Message.transaction msg).erase :: block.toList) =
          [((Message.transaction msg).bankId, s.1)] := by
        have hnone : signatures block.toList = [] :=
          List.filterMap_eq_nil_iff.mpr fun b hmem => (hb b hmem).1
        rw [show (Message.transaction msg).erase :: block.toList =
          [(Message.transaction msg).erase] ++ block.toList from rfl, signatures_append, hnone]
        simp [signatures, hreleases]
      have hwaits : ∀ m' ∈ (Message.transaction msg).erase :: block.toList, m'.waitsFor = none := by
        intro m' hm'
        rcases List.mem_cons.mp hm' with rfl | hm'
        · rfl
        · exact (hb m' hm').2
      have hnot : ((Message.transaction msg).bankId, s.1) ∉ signatures l := fun hmem =>
        hvec.not_isKnown ((hknown s).mp hmem)
      have hreleased := released_append_transaction hsignatures hwaits hnot
      have herase : ∀ w, ((vec.map (·.updateWriteVersion w)).map Message.account).map Message.erase =
          vec.map fun msg => (Message.account msg).erase := by
        intro w
        rw [List.map_map, List.map_map]
        rfl
      refine List.Perm.trans ?_ hreleased.symm
      rw [List.map_append, herase, List.append_assoc, List.append_assoc]
      exact hperm.append ((hparked s vec hvec).append_right _)

/-- What deduplication passes on of a message does to the view of the slot what the message does. -/
theorem DedupInfo.Passes.run_view (hp : DedupInfo.Passes sourceName dedup m dedup' ms)
    (hm : m.isSlot = false) (v : SlotView) : run SlotView.step v ms =
      .ok ((v.take m).1, ms.map Message.erase ++ (v.take m).2.toList) := by
  have hsingle : run SlotView.step v [m] =
      .ok ((v.take m).1, [m].map Message.erase ++ (v.take m).2.toList) := run_singleton.mpr rfl
  have haccount : ∀ msg, v.take (.account msg) = (v, none) := by
    intro msg
    have hstep := SlotView.step_account v msg
    unfold SlotView.step at hstep
    obtain ⟨h₁, h₂⟩ := Prod.mk.inj (Except.ok.inj hstep)
    refine Prod.ext h₁ ?_
    cases hb : (v.take (.account msg)).2 with
    | none => rfl
    | some b =>
      rw [hb] at h₂
      simp at h₂
  rcases hp.cases with ⟨hm', -, -⟩ | ⟨-, hbank⟩
  · rw [hm] at hm'
    cases hm'
  · cases hbank with
    | other => exact hsingle
    | unsigned =>
      rw [haccount]
      exact run_singleton.mpr (SlotView.step_account v _)
    | known =>
      rw [haccount]
      exact run_singleton.mpr (SlotView.step_account v _)
    | parks =>
      rw [haccount]
      rfl
    | @releases msg s vec hsig hvec set =>
      refine run_append.mpr ⟨v, _, _, SlotView.run_accounts v _, hsingle, ?_⟩
      rw [List.map_append, List.append_assoc, List.map_map, List.map_map, List.map_map]
      rfl

end Richat
