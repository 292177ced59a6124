import Richat.Channel.BankRun
import Richat.Channel.SlotView

/-!
# The account updates that survive in a bank

A bank keeps one update of an account (`accounts_nodup`). As long as its `Block` is not complete,
every update that came is covered by the one that is kept (`run_covered`), and the `Block` freezes the
updates: it has those of the bank from then on (`run_block_accounts`).
-/

namespace Richat

open Lib

namespace BankInfo

/-- The stored account updates. -/
def accounts (bank : BankInfo) : List MessageAccount := bank.stored.filterMap (·.getAccount)

variable {bank bank' : BankInfo} {x m m' : ParsedMessage} {out blocks l l' : List ParsedMessage}

theorem mem_accounts {a : MessageAccount} :
    a ∈ bank.accounts ↔ ∃ m ∈ bank.stored, m.getAccount = some a :=
  List.mem_filterMap

theorem accounts_store (h : x.getAccount = none) : (bank.store x h).accounts = bank.accounts := by
  have hnone : [x].filterMap (·.getAccount) = [] := List.filterMap_cons_none h
  rw [accounts, stored_store, List.filterMap_append, hnone, List.append_nil, accounts]

/-- A bank has one update of an account. -/
theorem accounts_nodup (bank : BankInfo) : (bank.accounts.map (·.pubkey)).Nodup := by
  refine List.pairwise_map.mpr (List.pairwise_filterMap.mpr (List.pairwise_filterMap.mpr ?_))
  rw [List.pairwise_iff_getElem]
  intro i j hi hj hij m hm m' hm' a ha a' ha' hkey
  have hget : bank.messages[i]? = some (some m) := by rw [List.getElem?_eq_getElem hi]; exact congrArg some hm
  have hget' : bank.messages[j]? = some (some m') := by rw [List.getElem?_eq_getElem hj]; exact congrArg some hm'
  have hentry := (bank.indexed _ _ _).mpr ⟨m', a', hget', ha', rfl, rfl⟩
  exact absurd (accountsDedup_unique hentry hget ha hkey).1 hij.ne

theorem accounts_unique {a a' : MessageAccount} (ha : a ∈ bank.accounts) (ha' : a' ∈ bank.accounts)
    (hkey : a.pubkey = a'.pubkey) : a = a' :=
  List.inj_on_of_nodup_map bank.accounts_nodup ha ha' hkey

/-! ### Covered updates -/

/-- Every update in the list is covered by the update of its account that the bank keeps. -/
def Covered (l : List ParsedMessage) (bank : BankInfo) : Prop :=
  ∀ m ∈ l, ∀ a, m.getAccount = some a →
    ∃ c ∈ bank.accounts, c.pubkey = a.pubkey ∧ a.writeVersion ≤ c.writeVersion

theorem Takes.covered (h : bank.Takes x bank') (hl : Covered l bank) : Covered (l ++ [x]) bank' := by
  -- an update of the bank is kept, or the new one takes its place
  have hkeep : ∀ c ∈ bank.accounts, ∃ c' ∈ bank'.accounts, c'.pubkey = c.pubkey ∧
      c.writeVersion ≤ c'.writeVersion := by
    intro c hc
    obtain ⟨m, hm, hmc⟩ := mem_accounts.mp hc
    by_cases hcovers : x.Covers m ∧ ¬ m.Covers x
    · obtain ⟨⟨new, old, hx, hold, hkey, hle⟩, hnot⟩ := hcovers
      rw [hmc] at hold
      cases hold
      have hfree : ∀ m' ∈ bank.stored, ¬ m'.Covers x := by
        rintro m' hm' ⟨c', new', hm'c, hx', hkey', hle'⟩
        rw [hx] at hx'
        cases hx'
        have hsame := accounts_unique (mem_accounts.mpr ⟨m', hm', hm'c⟩) hc (hkey'.symm.trans hkey.symm)
        subst hsame
        exact hnot ⟨c', new, hmc, hx, hkey', hle'⟩
      exact ⟨new, mem_accounts.mpr ⟨x, (h.mem_stored x).mpr (Or.inr ⟨rfl, hfree⟩), hx⟩, hkey.symm, hle⟩
    · exact ⟨c, mem_accounts.mpr ⟨m, (h.mem_stored m).mpr (Or.inl ⟨hm, hcovers⟩), hmc⟩, rfl, le_rfl⟩
  intro m hm a ha
  rcases List.mem_append.mp hm with hm | hm
  · obtain ⟨c, hc, hkey, hle⟩ := hl m hm a ha
    obtain ⟨c', hc', hkey', hle'⟩ := hkeep c hc
    exact ⟨c', hc', hkey'.trans hkey, hle.trans hle'⟩
  · rw [List.mem_singleton] at hm
    subst hm
    by_cases hfree : ∀ m' ∈ bank.stored, ¬ m'.Covers m
    · exact ⟨a, mem_accounts.mpr ⟨m, (h.mem_stored m).mpr (Or.inr ⟨rfl, hfree⟩), ha⟩, rfl, le_rfl⟩
    · push Not at hfree
      obtain ⟨m', hm', c, a', hc, ha', hkey, hle⟩ := hfree
      rw [ha] at ha'
      cases ha'
      obtain ⟨c', hc', hkey', hle'⟩ := hkeep c (mem_accounts.mpr ⟨m', hm', hc⟩)
      exact ⟨c', hc', hkey'.trans hkey.symm, hle.trans hle'⟩

theorem Covered.step (h : Covered l bank) (hcreated : bank.blockCreated = false)
    (hstep : step bank x = .ok (bank', out)) : Covered (l ++ [x]) bank' := by
  rcases step_cases hstep with ⟨-, hc, -, -⟩ |
    ⟨-, mid, htakes, ⟨rfl, -, -⟩ | ⟨-, -, blockMeta, hstored, -⟩⟩
  · rw [hcreated] at hc
    cases hc
  · exact htakes.covered h
  · have haccounts : bank'.accounts = mid.accounts := by
      rw [accounts, hstored, List.filterMap_append, accounts,
        show [(⟨x.arc + 1, .block (mid.toBlock blockMeta)⟩ : ParsedMessage)].filterMap
          (·.getAccount) = [] from rfl, List.append_nil]
    intro m hm a ha
    rw [haccounts]
    exact htakes.covered h m hm a ha

theorem blockCreated_step (hstep : step bank x = .ok (bank', out)) (h : bank.blockCreated) :
    bank'.blockCreated := by
  obtain ⟨block, hget, -⟩ := step_eq_ok.mp hstep
  exact (blockCreated_getBlockMessage hget).1 h

/-- As long as the `Block` is not complete, the updates that came are covered. -/
theorem run_covered (h : run step .new l = .ok (bank, blocks)) (hcreated : bank.blockCreated = false) :
    Covered l bank := by
  refine run_induction (P := fun l bank _ => bank.blockCreated = false → Covered l bank) ?_ ?_ h hcreated
  · intro _ m hm
    cases hm
  · intro l bank _ x bank' _ _ ih hstep hcreated
    have hbefore : bank.blockCreated = false := by
      by_contra hc
      rw [blockCreated_step hstep (by simpa using hc)] at hcreated
      cases hcreated
    exact (ih hbefore).step hbefore hstep

/-- Account updates do not complete the `Block`. -/
theorem run_accounts_view (hl : ∀ x ∈ l, x.message.isAccount) (hs : bank.view.Settled)
    (h : run step bank l = .ok (bank', blocks)) : bank'.view = bank.view := by
  refine run_induction (P := fun l bank' _ => (∀ x ∈ l, x.message.isAccount) → bank'.view = bank.view)
    (fun _ => rfl) ?_ h hl
  intro l mid _ x bank' _ _ ih hstep hl
  have hmid := ih fun y hy => hl y (List.mem_append_left _ hy)
  obtain ⟨block, hget, -⟩ := step_eq_ok.mp hstep
  have htake := (view_getBlockMessage (hmid ▸ hs) hget).1
  have hx := hl x (by simp)
  obtain ⟨arc, x⟩ := x
  cases x with
  | account msg =>
    unfold BankView.take at htake
    rw [← hmid]
    split at htake
    · exact (Prod.mk.inj htake).1.symm
    · exact (Prod.mk.inj htake).1.symm
  | _ => cases hx

/-- The updates that came before the `Block` was complete and with the message that completes it are
covered, if the messages before that one are account updates. -/
theorem run_covered_append {accs : List ParsedMessage} {last : Option ParsedMessage}
    (h : run step .new l = .ok (bank, blocks)) (hcreated : bank.blockCreated = false)
    (hs : bank.view.Settled) (haccs : ∀ x ∈ accs, x.message.isAccount)
    (hrun : run step bank (accs ++ last.toList) = .ok (bank', out)) :
    Covered (l ++ (accs ++ last.toList)) bank' := by
  obtain ⟨mid, o₁, o₂, hmid, hlast, rfl⟩ := run_append.mp hrun
  have hview : mid.view = bank.view := run_accounts_view haccs hs hmid
  have hmidCreated : mid.blockCreated = false := (congrArg BankView.blockCreated hview).trans hcreated
  have hcovered : Covered (l ++ accs) mid :=
    run_covered (run_append.mpr ⟨_, _, _, h, hmid, rfl⟩) hmidCreated
  cases last with
  | none =>
    rw [Option.toList_none, run_nil, Except.ok.injEq, Prod.mk.injEq] at hlast
    rw [Option.toList_none, List.append_nil, ← hlast.1]
    exact hcovered
  | some x =>
    rw [Option.toList_some, run_singleton] at hlast
    rw [Option.toList_some, ← List.append_assoc]
    exact hcovered.step hmidCreated hlast

/-! ### The `Block` -/

/-- Once the `Block` is complete the updates stay. -/
theorem run_accounts_frozen (h : run step bank l = .ok (bank', out)) (hcreated : bank.blockCreated) :
    bank'.blockCreated ∧ bank'.accounts = bank.accounts := by
  refine run_induction (P := fun _ bank' _ => bank'.blockCreated ∧ bank'.accounts = bank.accounts)
    ⟨hcreated, rfl⟩ ?_ h
  rintro _ mid _ x bank' _ _ ⟨hmid, haccounts⟩ hstep
  refine ⟨blockCreated_step hstep hmid, ?_⟩
  obtain ⟨block, hget, -⟩ := step_eq_ok.mp hstep
  rcases getBlockMessage_cases hget with ⟨hacc, -, rfl, -⟩ | ⟨-, -, rfl, -⟩ | ⟨-, hno, -⟩
  · rw [accounts_store hacc, haccounts]
  · exact haccounts
  · rw [hmid] at hno
    cases hno

/-- The `Block` has the updates that the bank keeps. -/
theorem run_block_accounts (h : run step .new l = .ok (bank, blocks)) :
    ∀ b ∈ blocks, ∃ msg, b.message = .block msg ∧ msg.accounts = bank.accounts := by
  refine run_induction (P := fun _ bank blocks =>
    ∀ b ∈ blocks, ∃ msg, b.message = .block msg ∧ msg.accounts = bank.accounts) (by simp) ?_ h
  intro l bank blocks x bank' out hrun ih hstep b hb
  obtain ⟨block, hget, rfl⟩ := step_eq_ok.mp hstep
  rcases getBlockMessage_cases hget with ⟨hacc, -, rfl, rfl⟩ | ⟨-, -, rfl, rfl⟩ |
    ⟨-, hcreated, mid, hmid, hcreate⟩
  · rw [accounts_store hacc]
    exact ih b (by simpa using hb)
  · exact ih b (by simpa using hb)
  · have hnone : blocks = [] := by
      by_contra hne
      rw [(run_blockCreated hrun).mpr hne] at hcreated
      cases hcreated
    rw [hnone, List.nil_append] at hb
    rcases createBlock_cases hcreate with ⟨-, rfl⟩ | ⟨blockMeta, -, -, -, rfl, rfl⟩
    · cases hb
    · rw [Option.toList_some, List.mem_singleton] at hb
      refine ⟨_, by rw [hb], ?_⟩
      have hstore := mid.accounts_store (x := ⟨x.arc + 1, .block (mid.toBlock blockMeta)⟩)
        (ParsedMessage.getAccount_eq_none rfl)
      exact hstore.symm

end BankInfo

end Richat
