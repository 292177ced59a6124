import Richat.Channel.SlotInfo
import Richat.Lib.Machine

/-!
# The messages of a bank, one after another

A bank as a machine: it is fed the messages of its candidate and returns the `Block` it completes.
`Takes` says which messages it stores afterwards, and the run lemmas follow from it: a message stays
in the bank unless it came after the `Block` (`Late`) or another update of its account has an equal
or higher write version (`Superseded`).
-/

namespace Richat

open Lib

/-- Both are updates of one account, the second with a write version that is not higher. -/
def ParsedMessage.Covers (m' m : ParsedMessage) : Prop :=
  ∃ msg' msg, m'.getAccount = some msg' ∧ m.getAccount = some msg ∧ msg.pubkey = msg'.pubkey ∧
    msg.writeVersion ≤ msg'.writeVersion

/-- An update that covers `x`. -/
theorem ParsedMessage.covers_iff {x m : ParsedMessage} {msg : MessageAccount}
    (h : x.getAccount = some msg) : m.Covers x ↔ ∃ old, m.getAccount = some old ∧
      old.pubkey = msg.pubkey ∧ msg.writeVersion ≤ old.writeVersion := by
  constructor
  · rintro ⟨old, _, hm, hx, hkey, hle⟩
    rw [h] at hx
    cases hx
    exact ⟨old, hm, hkey.symm, hle⟩
  · rintro ⟨old, hm, hkey, hle⟩
    exact ⟨old, msg, hm, h, hkey.symm, hle⟩

/-- An update that `x` takes the place of. -/
theorem ParsedMessage.covers_not_covers_iff {x m : ParsedMessage} {msg : MessageAccount}
    (h : x.getAccount = some msg) : x.Covers m ∧ ¬ m.Covers x ↔ ∃ old, m.getAccount = some old ∧
      old.pubkey = msg.pubkey ∧ old.writeVersion < msg.writeVersion := by
  constructor
  · rintro ⟨⟨_, old, hx, hm, hkey, hle⟩, hnot⟩
    rw [h] at hx
    cases hx
    refine ⟨old, hm, hkey, Nat.lt_of_le_of_ne hle fun heq => hnot ?_⟩
    exact ⟨old, msg, hm, h, hkey.symm, heq.ge⟩
  · rintro ⟨old, hm, hkey, hlt⟩
    refine ⟨⟨msg, old, h, hm, hkey, hlt.le⟩, ?_⟩
    rintro ⟨_, _, hm', hx, _, hle⟩
    rw [hm] at hm'
    rw [h] at hx
    cases hm'
    cases hx
    exact absurd hlt (Nat.not_lt_of_le hle)

namespace BankInfo

variable {bank bank' : BankInfo} {x m : ParsedMessage} {out blocks l : List ParsedMessage}

/-- A message of the candidate, with the `Block` it completes. -/
def step : Step BankInfo ParsedMessage ParsedMessage Panic := fun bank m =>
  match bank.getBlockMessage m (m.arc + 1) with
  | .error e => .error e
  | .ok (bank, block) => .ok (bank, block.toList)

theorem step_eq_ok : step bank x = .ok (bank', out) ↔
    ∃ block, bank.getBlockMessage x (x.arc + 1) = .ok (bank', block) ∧ out = block.toList := by
  unfold step
  cases hget : bank.getBlockMessage x (x.arc + 1) with
  | error e => simp
  | ok r =>
    obtain ⟨bank₁, block⟩ := r
    simp only [Except.ok.injEq, Prod.mk.injEq]
    constructor
    · rintro ⟨rfl, rfl⟩
      exact ⟨block, ⟨rfl, rfl⟩, rfl⟩
    · rintro ⟨block', ⟨rfl, rfl⟩, rfl⟩
      exact ⟨rfl, rfl⟩

/-! ### One message -/

/-- The bank after it took a message: the message is stored unless a stored update covers it, and
takes the place of an update with a lower write version. -/
structure Takes (bank : BankInfo) (x : ParsedMessage) (bank' : BankInfo) : Prop where
  mem_stored : ∀ m, m ∈ bank'.stored ↔
    (m ∈ bank.stored ∧ ¬ (x.Covers m ∧ ¬ m.Covers x)) ∨
      (m = x ∧ ∀ m' ∈ bank.stored, ¬ m'.Covers x)
  sublist : bank'.stored.Sublist (bank.stored ++ [x])

theorem takes_store (h : x.getAccount = none) : bank.Takes x (bank.store x h) where
  mem_stored := by
    intro m
    have hnot : ∀ m' : ParsedMessage, ¬ m'.Covers x := by
      rintro m' ⟨_, msg, _, hx, _⟩
      rw [h] at hx
      cases hx
    have hnot' : ¬ x.Covers m := by
      rintro ⟨msg, _, hx, _⟩
      rw [h] at hx
      cases hx
    simp [hnot, hnot']
  sublist := by rw [stored_store]

theorem filterMap_set_none_sublist (l : List (Option ParsedMessage)) (idx : ℕ) :
    ((l.set idx none).filterMap id).Sublist (l.filterMap id) := by
  induction l generalizing idx with
  | nil => exact List.Sublist.refl _
  | cons a l ih =>
    cases idx with
    | zero => cases a <;> simp
    | succ idx =>
      rw [List.set_cons_succ]
      cases a with
      | none => exact ih idx
      | some a => exact (ih idx).cons_cons a

/-- A stored update of an account is the one that the index names. -/
theorem accountsDedup_of_mem {msg : MessageAccount} (hm : m ∈ bank.stored)
    (hmsg : m.getAccount = some msg) :
    ∃ idx, bank.accountsDedup msg.pubkey = some (msg.writeVersion, idx) ∧
      bank.messages[idx]? = some (some m) := by
  obtain ⟨idx, hidx⟩ := List.mem_iff_getElem?.mp (BankInfo.mem_stored.mp hm)
  exact ⟨idx, (bank.indexed _ _ _).mpr ⟨m, msg, hidx, hmsg, rfl, rfl⟩, hidx⟩

/-- There is no other stored update of the account. -/
theorem accountsDedup_unique {pubkey : Pubkey} {version idx j : ℕ} {old : MessageAccount}
    (hentry : bank.accountsDedup pubkey = some (version, idx))
    (hj : bank.messages[j]? = some (some m)) (hold : m.getAccount = some old)
    (hkey : old.pubkey = pubkey) : j = idx ∧ old.writeVersion = version := by
  have hj' := (bank.indexed _ _ _).mpr ⟨m, old, hj, hold, hkey, rfl⟩
  rw [hentry] at hj'
  simp only [Option.some.injEq, Prod.mk.injEq] at hj'
  exact ⟨hj'.2.symm, hj'.1.symm⟩

theorem takes_storeAccount {msg : MessageAccount} (h : x.getAccount = some msg) :
    bank.Takes x (bank.storeAccount x msg h) := by
  have hlast : ∀ m, m ∈ bank.stored ++ [x] ↔ some m ∈ bank.messages ++ [some x] := by
    intro m
    simp [BankInfo.mem_stored]
  constructor
  · intro m
    rw [ParsedMessage.covers_not_covers_iff h, BankInfo.mem_stored]
    simp only [ParsedMessage.covers_iff h]
    unfold storeAccount insertAccount
    dsimp only
    cases hentry : bank.accountsDedup msg.pubkey with
    | none =>
      have hno : ∀ m' ∈ bank.stored, ∀ old, m'.getAccount = some old → old.pubkey ≠ msg.pubkey := by
        intro m' hm' old hold hkey
        obtain ⟨idx, hidx, -⟩ := accountsDedup_of_mem hm' hold
        rw [hkey, hentry] at hidx
        cases hidx
      rw [← hlast, List.mem_append, List.mem_singleton]
      constructor
      · rintro (hm | rfl)
        · exact Or.inl ⟨hm, fun ⟨old, hold, hkey, _⟩ => hno m hm old hold hkey⟩
        · exact Or.inr ⟨rfl, fun m' hm' ⟨old, hold, hkey, _⟩ => hno m' hm' old hold hkey⟩
      · rintro (⟨hm, -⟩ | ⟨rfl, -⟩)
        · exact Or.inl hm
        · exact Or.inr rfl
    | some entry =>
      obtain ⟨version, idx⟩ := entry
      obtain ⟨prev, old, hprev, hold, hkey, hversion⟩ := (bank.indexed _ _ _).mp hentry
      have hlt : idx < bank.messages.length := (List.getElem?_eq_some_iff.mp hprev).1
      have hprevMem : prev ∈ bank.stored := BankInfo.mem_stored.mpr (List.mem_of_getElem? hprev)
      dsimp only
      split
      · rename_i hless
        rw [List.set_append_left _ _ hlt, List.mem_append, List.mem_singleton,
          Option.some.injEq]
        have hset : some m ∈ bank.messages.set idx none ↔ m ∈ bank.stored ∧
            ¬ ∃ old, m.getAccount = some old ∧ old.pubkey = msg.pubkey ∧
              old.writeVersion < msg.writeVersion := by
          constructor
          · intro hm
            obtain ⟨j, hj⟩ := List.mem_iff_getElem?.mp hm
            rw [List.getElem?_set] at hj
            split at hj
            · cases hj
            · rename_i hne
              refine ⟨BankInfo.mem_stored.mpr (List.mem_of_getElem? hj), ?_⟩
              rintro ⟨old', hold', hkey', -⟩
              exact hne (accountsDedup_unique hentry hj hold' hkey').1.symm
          · rintro ⟨hm, hnot⟩
            obtain ⟨j, hj⟩ := List.mem_iff_getElem?.mp (BankInfo.mem_stored.mp hm)
            refine List.mem_iff_getElem?.mpr ⟨j, ?_⟩
            rw [List.getElem?_set, if_neg]
            · exact hj
            · rintro rfl
              rw [hprev] at hj
              cases hj
              exact hnot ⟨old, hold, hkey, hversion ▸ hless⟩
        rw [hset, BankInfo.mem_stored]
        refine or_congr Iff.rfl ⟨fun hm => ⟨hm, ?_⟩, fun hm => hm.1⟩
        rintro m' hm' ⟨old', hold', hkey', hle⟩
        obtain ⟨j, hj⟩ := List.mem_iff_getElem?.mp (BankInfo.mem_stored.mp hm')
        rw [(accountsDedup_unique hentry hj hold' hkey').2] at hle
        exact absurd hless (Nat.not_lt_of_le hle)
      · rename_i hless
        have hset : some m ∈ (bank.messages ++ [some x]).set bank.messages.length none ↔
            some m ∈ bank.messages := by
          rw [List.set_append_right _ _ le_rfl]
          simp
        rw [hset, ← BankInfo.mem_stored]
        constructor
        · intro hm
          refine Or.inl ⟨hm, ?_⟩
          rintro ⟨old', hold', hkey', hlt'⟩
          obtain ⟨j, hj⟩ := List.mem_iff_getElem?.mp (BankInfo.mem_stored.mp hm)
          rw [(accountsDedup_unique hentry hj hold' hkey').2] at hlt'
          exact hless hlt'
        · rintro (⟨hm, -⟩ | ⟨rfl, hnot⟩)
          · exact hm
          · refine absurd ⟨old, hold, hkey, ?_⟩ (hnot prev hprevMem)
            rw [hversion]
            exact Nat.le_of_not_lt hless
  · have happend : bank.stored ++ [x] = (bank.messages ++ [some x]).filterMap id := by
      simp [stored]
    rw [happend]
    unfold stored storeAccount insertAccount
    dsimp only
    split
    · split
      · exact filterMap_set_none_sublist _ _
      · exact filterMap_set_none_sublist _ _
    · exact List.Sublist.refl _

theorem takes_storeMessage (h : bank.storeMessage x = .ok bank') : bank.Takes x bank' := by
  obtain ⟨a, x⟩ := x
  cases x with
  | account msg =>
    cases h
    exact takes_storeAccount rfl
  | transaction msg =>
    cases h
    exact ⟨(takes_store (ParsedMessage.getAccount_eq_none rfl)).mem_stored,
      (takes_store (ParsedMessage.getAccount_eq_none rfl)).sublist⟩
  | entry msg =>
    cases h
    exact ⟨(takes_store (ParsedMessage.getAccount_eq_none rfl)).mem_stored,
      (takes_store (ParsedMessage.getAccount_eq_none rfl)).sublist⟩
  | blockMeta msg =>
    cases h
    exact ⟨(takes_store (ParsedMessage.getAccount_eq_none rfl)).mem_stored,
      (takes_store (ParsedMessage.getAccount_eq_none rfl)).sublist⟩
  | _ => cases h

/-- A message after the `Block` is ignored, any other is taken; then the `Block` may be completed. -/
theorem step_cases (h : step bank x = .ok (bank', out)) :
    (isBlockFooter x.message = false ∧ bank.blockCreated ∧ bank' = bank ∧ out = []) ∨
    ((isBlockFooter x.message ∨ bank.blockCreated = false) ∧ ∃ mid, bank.Takes x mid ∧
      ((bank' = mid ∧ out = [] ∧ mid.blockCreated = bank.blockCreated) ∨
        (bank.blockCreated = false ∧ bank'.blockCreated ∧ ∃ blockMeta,
          bank'.stored = mid.stored ++ [⟨x.arc + 1, .block (mid.toBlock blockMeta)⟩] ∧
          out = [⟨x.arc + 1, .block (mid.toBlock blockMeta)⟩]))) := by
  obtain ⟨block, hget, rfl⟩ := step_eq_ok.mp h
  rcases getBlockMessage_cases hget with ⟨hacc, hfooter, rfl, rfl⟩ | ⟨hfooter, hcreated, rfl, rfl⟩ |
    ⟨hfooter, hcreated, mid, hmid, hcreate⟩
  · exact Or.inr ⟨Or.inl hfooter, _, takes_store hacc, Or.inl ⟨rfl, rfl, rfl⟩⟩
  · exact Or.inl ⟨hfooter, hcreated, rfl, rfl⟩
  · refine Or.inr ⟨Or.inr hcreated, mid, takes_storeMessage hmid, ?_⟩
    rcases createBlock_cases hcreate with ⟨rfl, rfl⟩ | ⟨blockMeta, -, -, -, rfl, rfl⟩
    · exact Or.inl ⟨rfl, rfl, blockCreated_storeMessage hmid⟩
    · exact Or.inr ⟨hcreated, rfl, blockMeta,
        stored_store (ParsedMessage.getAccount_eq_none rfl), rfl⟩

/-! ### Runs -/

/-- The `Block` was complete when the message came, and it is no footer. -/
def Late (l : List ParsedMessage) (m : ParsedMessage) : Prop :=
  isBlockFooter m.message = false ∧ ∃ l₁ l₂ bank blocks, l = l₁ ++ m :: l₂ ∧
    run step .new l₁ = .ok (bank, blocks) ∧ blocks ≠ []

/-- Another update of the account has an equal or higher write version. -/
def Superseded (l : List ParsedMessage) (m : ParsedMessage) : Prop :=
  ∃ m' ∈ l, m' ≠ m ∧ m'.Covers m

theorem run_blockCreated (h : run step .new l = .ok (bank, blocks)) :
    bank.blockCreated ↔ blocks ≠ [] := by
  refine run_induction (P := fun _ bank blocks => bank.blockCreated ↔ blocks ≠ []) ?_ ?_ h
  · simp [new]
  · intro l bank blocks x bank' out _ ih hstep
    rcases step_cases hstep with ⟨-, -, rfl, rfl⟩ |
      ⟨-, mid, -, ⟨rfl, rfl, hsame⟩ | ⟨-, hcreated, blockMeta, -, rfl⟩⟩
    · simpa using ih
    · rw [hsame]
      simpa using ih
    · simp [hcreated]

/-- What a bank stores came to it, or is a `Block` it completed. -/
theorem run_stored_sub (h : run step .new l = .ok (bank, blocks)) :
    ∀ m ∈ bank.stored, m ∈ l ∨ m ∈ blocks := by
  refine run_induction (P := fun l bank blocks => ∀ m ∈ bank.stored, m ∈ l ∨ m ∈ blocks) ?_ ?_ h
  · simp [new, stored]
  · intro l bank blocks x bank' out _ ih hstep m hm
    have htakes : ∀ mid, bank.Takes x mid → m ∈ mid.stored → m ∈ l ++ [x] ∨ m ∈ blocks := by
      intro mid hmid hm
      rcases List.mem_append.mp (hmid.sublist.subset hm) with hm | hm
      · exact (ih m hm).imp_left (List.mem_append_left _)
      · exact Or.inl (List.mem_append_right _ hm)
    rcases step_cases hstep with ⟨-, -, rfl, rfl⟩ |
      ⟨-, mid, hmid, ⟨rfl, rfl, -⟩ | ⟨-, -, blockMeta, hstored, rfl⟩⟩
    · rw [List.append_nil]
      exact (ih m hm).imp_left (List.mem_append_left _)
    · rw [List.append_nil]
      exact htakes _ hmid hm
    · rw [hstored, List.mem_append] at hm
      rcases hm with hm | hm
      · exact (htakes _ hmid hm).imp_right (List.mem_append_left _)
      · exact Or.inr (List.mem_append_right _ hm)

theorem Late.append (h : Late l m) (l' : List ParsedMessage) : Late (l ++ l') m := by
  obtain ⟨hfooter, l₁, l₂, bank, blocks, rfl, hrun, hne⟩ := h
  exact ⟨hfooter, l₁, l₂ ++ l', bank, blocks, by simp, hrun, hne⟩

theorem Superseded.append (h : Superseded l m) (l' : List ParsedMessage) :
    Superseded (l ++ l') m := by
  obtain ⟨m', hm', hne, hcovers⟩ := h
  exact ⟨m', List.mem_append_left _ hm', hne, hcovers⟩

/-- A message that is neither late nor superseded stays, and so does the `Block`. -/
theorem run_mem_stored (h : run step .new l = .ok (bank, blocks)) :
    (∀ m ∈ l, ¬ Late l m → ¬ Superseded l m → m ∈ bank.stored) ∧ ∀ b ∈ blocks, b ∈ bank.stored := by
  refine run_induction (P := fun l bank blocks =>
    (∀ m ∈ l, ¬ Late l m → ¬ Superseded l m → m ∈ bank.stored) ∧ ∀ b ∈ blocks, b ∈ bank.stored)
    ?_ ?_ h
  · simp
  · intro l bank blocks x bank' out hrun ih hstep
    have hblocks : ∀ b ∈ blocks, b.getAccount = none := by
      intro b hb
      refine (run_induction (P := fun _ _ blocks => ∀ b ∈ blocks, b.getAccount = none)
        (by simp) ?_ hrun) b hb
      intro _ _ _ _ _ _ _ ih hstep b hb
      rcases List.mem_append.mp hb with hb | hb
      · exact ih b hb
      · obtain ⟨block, hget, rfl⟩ := step_eq_ok.mp hstep
        obtain ⟨msg, rfl⟩ := getBlockMessage_block hget b (by simpa using hb)
        exact ParsedMessage.getAccount_eq_none rfl
    -- what is stored stays unless the new message supersedes it
    have hkeep : ∀ mid, bank.Takes x mid → ∀ m ∈ bank.stored,
        ¬ Superseded (l ++ [x]) m → m ∈ mid.stored := by
      intro mid hmid m hm hnot
      refine (hmid.mem_stored m).mpr (Or.inl ⟨hm, ?_⟩)
      rintro ⟨hcovers, hnotCovers⟩
      refine hnot ⟨x, by simp, ?_, hcovers⟩
      rintro rfl
      exact hnotCovers hcovers
    have hblockKeep : ∀ mid, bank.Takes x mid → ∀ b ∈ blocks, b ∈ mid.stored := by
      intro mid hmid b hb
      refine (hmid.mem_stored b).mpr (Or.inl ⟨ih.2 b hb, ?_⟩)
      rintro ⟨⟨_, _, _, hget, _⟩, -⟩
      rw [hblocks b hb] at hget
      cases hget
    have hnew : ∀ mid, bank.Takes x mid → ¬ Superseded (l ++ [x]) x → x ∈ mid.stored := by
      intro mid hmid hnot
      by_cases hx : x ∈ bank.stored
      · exact hkeep mid hmid x hx hnot
      · refine (hmid.mem_stored x).mpr (Or.inr ⟨rfl, fun m' hm' hcovers => ?_⟩)
        have hne' : m' ≠ x := fun heq => hx (heq ▸ hm')
        rcases run_stored_sub hrun m' hm' with hmem | hmem
        · exact hnot ⟨m', List.mem_append_left _ hmem, hne', hcovers⟩
        · obtain ⟨_, _, hget, _⟩ := hcovers
          rw [hblocks m' hmem] at hget
          cases hget
    have hmem : ∀ mid, bank.Takes x mid → ∀ m ∈ l ++ [x], ¬ Late (l ++ [x]) m →
        ¬ Superseded (l ++ [x]) m → m ∈ mid.stored := by
      intro mid hmid m hm hlate hnot
      rcases List.mem_append.mp hm with hm | hm
      · exact hkeep mid hmid m (ih.1 m hm (fun h => hlate (h.append _)) fun h => hnot (h.append _)) hnot
      · rw [List.mem_singleton] at hm
        subst hm
        exact hnew mid hmid hnot
    rcases step_cases hstep with ⟨hfooter, hcreated, rfl, rfl⟩ |
      ⟨-, mid, hmid, ⟨rfl, rfl, -⟩ | ⟨-, -, blockMeta, hstored, rfl⟩⟩
    · refine ⟨fun m hm hlate hnot => ?_, by simpa using ih.2⟩
      rcases List.mem_append.mp hm with hm | hm
      · exact ih.1 m hm (fun h => hlate (h.append _)) fun h => hnot (h.append _)
      · rw [List.mem_singleton] at hm
        subst hm
        exact absurd ⟨hfooter, l, [], _, _, rfl, hrun, (run_blockCreated hrun).mp hcreated⟩ hlate
    · rw [List.append_nil]
      exact ⟨hmem _ hmid, hblockKeep _ hmid⟩
    · rw [hstored]
      refine ⟨fun m hm hlate hnot => List.mem_append_left _ (hmem mid hmid m hm hlate hnot), ?_⟩
      intro b hb
      rcases List.mem_append.mp hb with hb | hb
      · exact List.mem_append_left _ (hblockKeep mid hmid b hb)
      · exact List.mem_append_right _ hb

/-- Allocations tell the messages of a bank apart. -/
theorem run_stored_nodup (harcs : l.Pairwise fun a b => a.arc + 1 < b.arc)
    (h : run step .new l = .ok (bank, blocks)) : bank.stored.Nodup := by
  have hall : l.Pairwise (fun a b => a.arc + 1 < b.arc) →
      bank.stored.Pairwise (fun a b => a.arc < b.arc) ∧
        ∀ m ∈ bank.stored, ∃ x ∈ l, m.arc ≤ x.arc + 1 := by
    refine run_induction (P := fun l bank _ => l.Pairwise (fun a b => a.arc + 1 < b.arc) →
      bank.stored.Pairwise (fun a b => a.arc < b.arc) ∧
        ∀ m ∈ bank.stored, ∃ x ∈ l, m.arc ≤ x.arc + 1) (by simp [new, stored]) ?_ h
    intro l bank blocks x bank' out _ ih hstep harcs
    rw [List.pairwise_append] at harcs
    obtain ⟨hl, -, hx⟩ := harcs
    obtain ⟨hsorted, hle⟩ := ih hl
    have hlt : ∀ m ∈ bank.stored, m.arc < x.arc := by
      intro m hm
      obtain ⟨y, hy, hmy⟩ := hle m hm
      have := hx y hy x (by simp)
      omega
    have happend : (bank.stored ++ [x]).Pairwise (fun a b => a.arc < b.arc) := by
      rw [List.pairwise_append]
      refine ⟨hsorted, List.pairwise_singleton _ _, fun m hm y hy => ?_⟩
      rw [List.mem_singleton.mp hy]
      exact hlt m hm
    have hmid : ∀ mid, bank.Takes x mid → mid.stored.Pairwise (fun a b => a.arc < b.arc) ∧
        ∀ m ∈ mid.stored, m.arc ≤ x.arc := by
      intro mid hmid
      refine ⟨happend.sublist hmid.sublist, fun m hm => ?_⟩
      rcases List.mem_append.mp (hmid.sublist.subset hm) with hm | hm
      · exact (hlt m hm).le
      · rw [List.mem_singleton.mp hm]
    rcases step_cases hstep with ⟨-, -, rfl, rfl⟩ |
      ⟨-, mid, htakes, ⟨rfl, rfl, -⟩ | ⟨-, -, blockMeta, hstored, rfl⟩⟩
    · refine ⟨hsorted, fun m hm => ?_⟩
      obtain ⟨y, hy, hmy⟩ := hle m hm
      exact ⟨y, List.mem_append_left _ hy, hmy⟩
    · refine ⟨(hmid _ htakes).1, fun m hm => ⟨x, by simp, ?_⟩⟩
      have := (hmid _ htakes).2 m hm
      omega
    · obtain ⟨hsorted', hle'⟩ := hmid mid htakes
      rw [hstored]
      constructor
      · rw [List.pairwise_append]
        refine ⟨hsorted', List.pairwise_singleton _ _, fun m hm y hy => ?_⟩
        rw [List.mem_singleton.mp hy]
        have := hle' m hm
        dsimp only
        omega
      · intro m hm
        refine ⟨x, by simp, ?_⟩
        rcases List.mem_append.mp hm with hm | hm
        · have := hle' m hm
          omega
        · rw [List.mem_singleton.mp hm]
  exact (hall harcs).1.imp fun hlt heq => by rw [heq] at hlt; exact absurd hlt (Nat.lt_irrefl _)

end BankInfo

end Richat
