import Mathlib.Logic.Relation
import Richat.Pubsub.Tracker

/-!
# The cache of signatures

The worker answers a signature subscription at once when it has the transaction in its cache and the slot of the
transaction is not above the last slot that got the commitment. The cache compares the numbers of slots only:
`Truthful` and `Persists` say what its answers should mean, and `Sound` which messages of the processed stream
keep to it.

`CachedSignatures` of the source is `SignaturesCache` here, with the slots of the entries and the bounds; what a
subscribe reads of it is `cached`. Reading the error of a transaction, `create_tx_error`, and the parent of a slot
status are parameters.
-/

namespace Richat

open Lib

structure SignaturesCache where
  signatures : AList fun _ : Signature => CachedSignature
  signaturesMax : ℕ
  slots : SortedMap Slot (List Signature)
  slotsMax : ℕ
  slotConfirmed : Slot
  slotFinalized : Slot

namespace SignaturesCache

def new (signaturesMax slotsMax : ℕ) : SignaturesCache where
  signatures := ∅
  signaturesMax := signaturesMax
  slots := .empty
  slotsMax := slotsMax
  slotConfirmed := 0
  slotFinalized := 0

def cached (cache : SignaturesCache) : CachedSignatures where
  signatures := cache.signatures.lookup
  slotConfirmed := cache.slotConfirmed
  slotFinalized := cache.slotFinalized

/-- The loop over the signatures of a slot. -/
def removeSignatures (signatures : AList fun _ : Signature => CachedSignature) (l : List Signature) :
    AList fun _ : Signature => CachedSignature :=
  l.foldl (fun signatures signature => signatures.erase signature) signatures

def deadSlot (cache : SignaturesCache) (slot : Slot) : SignaturesCache :=
  { cache with
    slots := cache.slots.erase slot
    signatures := removeSignatures cache.signatures ((cache.slots.get? slot).getD []) }

/-- No place for another signature. -/
def isFull (cache : SignaturesCache) : Bool :=
  cache.signatures.keys.length ≥ cache.signaturesMax ∨ cache.slots.size ≥ cache.slotsMax

/-- The loop that makes place, for at most `n` slots: the oldest slots leave. -/
def evict : ℕ → SignaturesCache → SignaturesCache
  | 0, cache => cache
  | n + 1, cache =>
    if cache.isFull then
      match cache.slots.firstKey? with
      | none => cache
      | some slot => evict n (cache.deadSlot slot)
    else cache

def addSignature (txError : MessageTransaction → Option Bytes) (cache : SignaturesCache)
    (message : MessageTransaction) : Except Panic SignaturesCache :=
  match txError message with
  | none => .ok cache
  | some err =>
    let cache := cache.evict cache.slots.size
    match message.signature with
    | .error e => .error e
    | .ok signature => .ok
        { cache with
          signatures := cache.signatures.insert signature ⟨message.slot, err⟩
          slots := cache.slots.insert message.slot
            ((cache.slots.get? message.slot).getD [] ++ [signature]) }

/-- What the worker does with the cache for a message of the processed stream; the messages so far are the
outputs. -/
def update (txError : MessageTransaction → Option Bytes) :
    Step SignaturesCache ParsedMessage ParsedMessage Panic
  | cache, message =>
    match message.message with
    | .slot msg =>
      match msg.status with
      | .slotDead => .ok (cache.deadSlot msg.slot, [message])
      | .slotConfirmed => .ok ({ cache with slotConfirmed := msg.slot }, [message])
      | .slotFinalized => .ok ({ cache with slotFinalized := msg.slot }, [message])
      | _ => .ok (cache, [message])
    | .transaction msg => (cache.addSignature txError msg).map (·, [message])
    | _ => .ok (cache, [message])

/-- The last slot that got the commitment; there is none for `processed`. -/
def last (cache : SignaturesCache) : CommitmentLevel → Option Slot
  | .processed => none
  | .confirmed => some cache.slotConfirmed
  | .finalized => some cache.slotFinalized

end SignaturesCache

/-! ### What the answers mean -/

section Meaning

variable (txError : MessageTransaction → Option Bytes) (parent : MessageSlot → Option Slot)

/-- A transaction with the signature and the error was received in the slot. -/
def ReceivedIn (messages : List ParsedMessage) (signature : Signature) (slot : Slot) (err : Bytes) : Prop :=
  ∃ message ∈ messages, ∃ msg, message.message = .transaction msg ∧ msg.signature = .ok signature ∧
    msg.slot = slot ∧ txError msg = some err

def GotStatus (messages : List ParsedMessage) (status : SlotStatus) (slot : Slot) : Prop :=
  ∃ message ∈ messages, ∃ msg, message.message = .slot msg ∧ msg.status = status ∧ msg.slot = slot

/-- Some message of the slot `d` has the parent `a`. -/
def IsParent (messages : List ParsedMessage) (d a : Slot) : Prop :=
  ∃ message ∈ messages, ∃ msg, message.message = .slot msg ∧ msg.slot = d ∧ parent msg = some a

/-- The slot, or one that it is an ancestor of, got the commitment. -/
def Committed (messages : List ParsedMessage) : CommitmentLevel → Slot → Prop
  | .processed, _ => True
  | .confirmed, slot => ∃ x, (GotStatus messages .slotConfirmed x ∨ GotStatus messages .slotFinalized x) ∧
      Relation.ReflTransGen (IsParent parent messages) x slot
  | .finalized, slot => ∃ x, GotStatus messages .slotFinalized x ∧
      Relation.ReflTransGen (IsParent parent messages) x slot

/-- Every answer is about a transaction that was received in a slot with the commitment. -/
def Truthful (messages : List ParsedMessage) (cache : SignaturesCache) : Prop :=
  ∀ signature commitment answer, cache.cached.get signature commitment = some answer →
    ReceivedIn txError messages signature answer.slot answer.err ∧
    Committed parent messages commitment answer.slot

end Meaning

/-- No answer is lost with a status of a lower slot. -/
def Persists (cache cache' : SignaturesCache) (message : ParsedMessage) : Prop :=
  ∀ signature commitment answer, cache.cached.get signature commitment = some answer →
    ∀ msg, message.message = .slot msg → msg.slot < answer.slot →
    cache'.cached.get signature commitment = some answer

/-- A status of the slot passes over no cached transaction of a slot that is not on its chain, and does not fall
back behind the slot of one that the last status had reached. -/
def Passes (parent : MessageSlot → Option Slot) (cache : SignaturesCache) (messages : List ParsedMessage)
    (commitment : CommitmentLevel) (slot last : Slot) : Prop :=
  ∀ signature entry, cache.signatures.lookup signature = some entry →
    (entry.slot ≤ slot → Committed parent messages commitment entry.slot) ∧ (slot < entry.slot → last < entry.slot)

/-- The message keeps the answers true: a status `Passes`; a dead slot shares no signature with a later one; and
a transaction that comes after the status of a later slot is of its chain. -/
def Sound (txError : MessageTransaction → Option Bytes) (parent : MessageSlot → Option Slot)
    (cache : SignaturesCache) (messages : List ParsedMessage) (message : ParsedMessage) : Prop :=
  match message.message with
  | .slot msg =>
    match msg.status with
    | .slotConfirmed => Passes parent cache (messages ++ [message]) .confirmed msg.slot cache.slotConfirmed
    | .slotFinalized => Passes parent cache (messages ++ [message]) .finalized msg.slot cache.slotFinalized
    | .slotDead => ∀ signature ∈ (cache.slots.get? msg.slot).getD [], ∀ entry,
        cache.signatures.lookup signature = some entry → entry.slot ≤ msg.slot
    | _ => True
  | .transaction msg => ∀ signature err, msg.signature = .ok signature → txError msg = some err →
      ∀ commitment last, cache.last commitment = some last → msg.slot ≤ last →
      Committed parent (messages ++ [message]) commitment msg.slot
  | _ => True

/-! ### One message -/

section Step

variable {txError : MessageTransaction → Option Bytes} {parent : MessageSlot → Option Slot}
  {messages messages' : List ParsedMessage} {message : ParsedMessage} {cache cache' : SignaturesCache}
  {commitment : CommitmentLevel} {signature : Signature} {slot : Slot} {err : Bytes}

theorem ReceivedIn.mono (h : ReceivedIn txError messages signature slot err)
    (hsub : ∀ m ∈ messages, m ∈ messages') : ReceivedIn txError messages' signature slot err := by
  obtain ⟨m, hm, hmsg⟩ := h
  exact ⟨m, hsub m hm, hmsg⟩

theorem GotStatus.mono {status : SlotStatus} (h : GotStatus messages status slot)
    (hsub : ∀ m ∈ messages, m ∈ messages') : GotStatus messages' status slot := by
  obtain ⟨m, hm, hmsg⟩ := h
  exact ⟨m, hsub m hm, hmsg⟩

theorem Committed.mono (h : Committed parent messages commitment slot)
    (hsub : ∀ m ∈ messages, m ∈ messages') : Committed parent messages' commitment slot := by
  have hstep : IsParent parent messages ≤ IsParent parent messages' := by
    rintro d a ⟨m, hm, hmsg⟩
    exact ⟨m, hsub m hm, hmsg⟩
  have hchain : ∀ x, Relation.ReflTransGen (IsParent parent messages) x slot →
      Relation.ReflTransGen (IsParent parent messages') x slot :=
    fun x => Relation.ReflTransGen.mono hstep x slot
  cases commitment with
  | processed => trivial
  | confirmed =>
    obtain ⟨x, hx, hrest⟩ := h
    exact ⟨x, hx.imp (·.mono hsub) (·.mono hsub), hchain x hrest⟩
  | finalized =>
    obtain ⟨x, hx, hrest⟩ := h
    exact ⟨x, hx.mono hsub, hchain x hrest⟩

namespace SignaturesCache

theorem get_eq_some {answer : CachedSignature} : cache.cached.get signature commitment = some answer ↔
    cache.signatures.lookup signature = some answer ∧
      ∀ last, cache.last commitment = some last → answer.slot ≤ last := by
  unfold CachedSignatures.get
  rw [Option.filter_eq_some_iff]
  cases commitment <;> simp [cached, last]

theorem lookup_removeSignatures (l : List Signature)
    (signatures : AList fun _ : Signature => CachedSignature) :
    (removeSignatures signatures l).lookup signature =
      if signature ∈ l then none else signatures.lookup signature := by
  induction l generalizing signatures with
  | nil => rfl
  | cons x l ih =>
    rw [removeSignatures, List.foldl_cons, ← removeSignatures, ih]
    by_cases hl : signature ∈ l
    · rw [if_pos hl, if_pos (List.mem_cons_of_mem x hl)]
    · rw [if_neg hl]
      by_cases hx : signature = x
      · rw [hx, AList.lookup_erase, if_pos List.mem_cons_self]
      · rw [AList.lookup_erase_ne hx, if_neg (by simp [hx, hl])]

theorem lookup_deadSlot : (cache.deadSlot slot).signatures.lookup signature =
    if signature ∈ (cache.slots.get? slot).getD [] then none else cache.signatures.lookup signature :=
  lookup_removeSignatures _ _

/-- Making place loses entries and nothing else. -/
theorem evict_ok (n : ℕ) : ∀ cache : SignaturesCache, (cache.evict n).last = cache.last ∧
    ∀ signature entry, (cache.evict n).signatures.lookup signature = some entry →
      cache.signatures.lookup signature = some entry := by
  induction n with
  | zero => exact fun cache => ⟨rfl, fun _ _ => id⟩
  | succ n ih =>
    intro cache
    rw [evict]
    split
    · split
      · exact ⟨rfl, fun _ _ => id⟩
      · rename_i slot _
        obtain ⟨hlast, hlookup⟩ := ih (cache.deadSlot slot)
        refine ⟨hlast, fun signature entry h => ?_⟩
        have h := hlookup signature entry h
        rw [lookup_deadSlot] at h
        split at h
        · cases h
        · exact h
    · exact ⟨rfl, fun _ _ => id⟩

/-- A transaction that is added: its entry is the new one, and the others were there. -/
theorem addSignature_ok {msg : MessageTransaction} (h : cache.addSignature txError msg = .ok cache') :
    cache'.last = cache.last ∧ ((txError msg = none ∧ cache' = cache) ∨
      ∃ signature err, msg.signature = .ok signature ∧ txError msg = some err ∧
        cache'.signatures.lookup signature = some ⟨msg.slot, err⟩ ∧
        ∀ other entry, other ≠ signature → cache'.signatures.lookup other = some entry →
          cache.signatures.lookup other = some entry) := by
  unfold addSignature at h
  split at h
  · rename_i hnone
    cases h
    exact ⟨rfl, .inl ⟨hnone, rfl⟩⟩
  · rename_i err herr
    obtain ⟨hlast, hlookup⟩ := evict_ok cache.slots.size cache
    dsimp only at h
    split at h
    · cases h
    · rename_i signature hsignature
      cases h
      refine ⟨hlast, .inr ⟨signature, err, hsignature, herr, AList.lookup_insert _, ?_⟩⟩
      intro other entry hne hother
      rw [AList.lookup_insert_ne hne] at hother
      exact hlookup other entry hother

end SignaturesCache

open SignaturesCache

/-- The answers of a cache with fewer entries and the same statuses stay true. -/
theorem Truthful.of_lookup (h : Truthful txError parent messages cache)
    (hsub : ∀ m ∈ messages, m ∈ messages') (hlast : cache'.last = cache.last)
    (hlookup : ∀ signature entry, cache'.signatures.lookup signature = some entry →
      cache.signatures.lookup signature = some entry) : Truthful txError parent messages' cache' := by
  intro signature commitment answer hget
  obtain ⟨hentry, hle⟩ := get_eq_some.mp hget
  rw [hlast] at hle
  obtain ⟨hreceived, hcommitted⟩ := h signature commitment answer
    (get_eq_some.mpr ⟨hlookup signature answer hentry, hle⟩)
  exact ⟨hreceived.mono hsub, hcommitted.mono hsub⟩

theorem Truthful.append (h : Truthful txError parent messages cache) :
    Truthful txError parent (messages ++ [message]) cache :=
  h.of_lookup (fun _ => List.mem_append_left _) rfl fun _ _ => id

/-- A status that moves the last slot of a commitment. -/
theorem Truthful.passes_iff (h : Truthful txError parent messages cache) {last : Slot} {msg : MessageSlot}
    (hmsg : message.message = .slot msg) (hsignatures : cache'.signatures = cache.signatures)
    (hlast : cache.last commitment = some last) (hlast' : cache'.last commitment = some msg.slot)
    (hother : ∀ other, other ≠ commitment → cache'.last other = cache.last other) :
    Passes parent cache (messages ++ [message]) commitment msg.slot last ↔
      Truthful txError parent (messages ++ [message]) cache' ∧ Persists cache cache' message := by
  constructor
  · intro hpasses
    refine ⟨fun signature level answer hget => ?_, fun signature level answer hget msg' hmsg' hlt => ?_⟩
    · obtain ⟨hentry, hle⟩ := get_eq_some.mp hget
      rw [hsignatures] at hentry
      by_cases hlevel : level = commitment
      · subst hlevel
        obtain ⟨hreceived, -⟩ := h signature .processed answer
          (get_eq_some.mpr ⟨hentry, fun last hlast => by cases hlast⟩)
        exact ⟨hreceived.mono fun _ => List.mem_append_left _,
          (hpasses signature answer hentry).1 (hle msg.slot hlast')⟩
      · rw [hother level hlevel] at hle
        obtain ⟨hreceived, hcommitted⟩ := h signature level answer (get_eq_some.mpr ⟨hentry, hle⟩)
        exact ⟨hreceived.mono fun _ => List.mem_append_left _, hcommitted.mono fun _ => List.mem_append_left _⟩
    · obtain ⟨hentry, hle⟩ := get_eq_some.mp hget
      obtain rfl := Message.slot.inj (hmsg.symm.trans hmsg')
      refine get_eq_some.mpr ⟨by rw [hsignatures]; exact hentry, fun x hx => ?_⟩
      by_cases hlevel : level = commitment
      · subst hlevel
        exact absurd (hle last hlast) (not_le.mpr ((hpasses signature answer hentry).2 hlt))
      · rw [hother level hlevel] at hx
        exact hle x hx
  · rintro ⟨htruthful, hpersists⟩ signature entry hentry
    constructor
    · intro hle
      refine (htruthful signature commitment entry (get_eq_some.mpr ⟨?_, fun x hx => ?_⟩)).2
      · rw [hsignatures]
        exact hentry
      · obtain rfl := Option.some.inj (hlast'.symm.trans hx)
        exact hle
    · intro hlt
      by_contra hge
      have hget := hpersists signature commitment entry (get_eq_some.mpr ⟨hentry, fun x hx => by
        obtain rfl := Option.some.inj (hlast.symm.trans hx)
        exact not_lt.mp hge⟩) msg hmsg hlt
      exact absurd ((get_eq_some.mp hget).2 msg.slot hlast') (not_le.mpr hlt)

/-- A slot that is dead. -/
theorem Truthful.dead_iff (h : Truthful txError parent messages cache) {msg : MessageSlot}
    (hmsg : message.message = .slot msg) :
    (∀ signature ∈ (cache.slots.get? msg.slot).getD [], ∀ entry,
        cache.signatures.lookup signature = some entry → entry.slot ≤ msg.slot) ↔
      Truthful txError parent (messages ++ [message]) (cache.deadSlot msg.slot) ∧
        Persists cache (cache.deadSlot msg.slot) message := by
  constructor
  · intro hdead
    refine ⟨h.of_lookup (fun _ => List.mem_append_left _) rfl fun signature entry hentry => ?_,
      fun signature level answer hget msg' hmsg' hlt => ?_⟩
    · rw [lookup_deadSlot] at hentry
      split at hentry
      · cases hentry
      · exact hentry
    · obtain ⟨hentry, hle⟩ := get_eq_some.mp hget
      obtain rfl := Message.slot.inj (hmsg.symm.trans hmsg')
      refine get_eq_some.mpr ⟨?_, hle⟩
      rw [lookup_deadSlot, if_neg]
      · exact hentry
      · intro hmem
        exact absurd (hdead signature hmem answer hentry) (not_le.mpr hlt)
  · rintro ⟨-, hpersists⟩ signature hmem entry hentry
    by_contra hlt
    have hget := hpersists signature .processed entry
      (get_eq_some.mpr ⟨hentry, fun last hlast => by cases hlast⟩) msg hmsg (not_le.mp hlt)
    have hnone := (get_eq_some.mp hget).1
    rw [lookup_deadSlot, if_pos hmem] at hnone
    cases hnone

/-- A transaction. -/
theorem Truthful.transaction_iff (h : Truthful txError parent messages cache) {msg : MessageTransaction}
    (hmsg : message.message = .transaction msg) (hadd : cache.addSignature txError msg = .ok cache') :
    (∀ signature err, msg.signature = .ok signature → txError msg = some err →
        ∀ commitment last, cache.last commitment = some last → msg.slot ≤ last →
        Committed parent (messages ++ [message]) commitment msg.slot) ↔
      Truthful txError parent (messages ++ [message]) cache' ∧ Persists cache cache' message := by
  obtain ⟨hlast, ⟨hnone, rfl⟩ | ⟨signature, err, hsignature, herr, hself, hother⟩⟩ := addSignature_ok hadd
  · have hpersists : Persists cache' cache' message := fun _ _ _ hget _ _ _ => hget
    refine ⟨fun _ => ⟨h.append, hpersists⟩, fun _ signature err _ herr => ?_⟩
    rw [hnone] at herr
    cases herr
  · have hpersists : Persists cache cache' message := by
      intro _ _ _ _ msg' hmsg'
      rw [hmsg] at hmsg'
      cases hmsg'
    constructor
    · intro hcommitted
      refine ⟨fun signature' level answer hget => ?_, hpersists⟩
      obtain ⟨hentry, hle⟩ := get_eq_some.mp hget
      rw [hlast] at hle
      by_cases hsig : signature' = signature
      · subst hsig
        obtain rfl := Option.some.inj (hself.symm.trans hentry)
        refine ⟨⟨message, List.mem_append_right _ (List.mem_singleton_self _), msg, hmsg, hsignature, rfl,
          herr⟩, ?_⟩
        rcases hlevel : cache.last level with _ | last
        · cases level with
          | processed => trivial
          | confirmed => cases hlevel
          | finalized => cases hlevel
        · exact hcommitted signature' err hsignature herr level last hlevel (hle last hlevel)
      · obtain ⟨hreceived, hold⟩ := h signature' level answer
          (get_eq_some.mpr ⟨hother signature' answer hsig hentry, hle⟩)
        exact ⟨hreceived.mono fun _ => List.mem_append_left _, hold.mono fun _ => List.mem_append_left _⟩
    · rintro ⟨htruthful, -⟩ signature' err' hsignature' herr' level last hlevel hle
      obtain rfl := Except.ok.inj (hsignature.symm.trans hsignature')
      refine (htruthful signature level ⟨msg.slot, err⟩ (get_eq_some.mpr ⟨hself, fun x hx => ?_⟩)).2
      rw [hlast, hlevel] at hx
      obtain rfl := Option.some.inj hx
      exact hle

/-- One message keeps the answers true and available just if it is `Sound`. -/
theorem Truthful.sound_iff (h : Truthful txError parent messages cache) :
    Sound txError parent cache messages message ↔
      ∀ cache' out, update txError cache message = .ok (cache', out) →
        Truthful txError parent (messages ++ out) cache' ∧ Persists cache cache' message := by
  have hok : ∀ {next : SignaturesCache}, update txError cache message = .ok (next, [message]) →
      ((∀ cache' out, update txError cache message = .ok (cache', out) →
        Truthful txError parent (messages ++ out) cache' ∧ Persists cache cache' message) ↔
      Truthful txError parent (messages ++ [message]) next ∧ Persists cache next message) := by
    intro next hnext
    refine ⟨fun hall => hall _ _ hnext, fun hp cache' out heq => ?_⟩
    obtain ⟨rfl, rfl⟩ := Prod.ext_iff.mp (Except.ok.inj (hnext.symm.trans heq))
    exact hp
  have hkept : update txError cache message = .ok (cache, [message]) →
      (True ↔ ∀ cache' out, update txError cache message = .ok (cache', out) →
        Truthful txError parent (messages ++ out) cache' ∧ Persists cache cache' message) := by
    intro hnext
    rw [hok hnext]
    exact ⟨fun _ => ⟨h.append, fun _ _ _ hget _ _ _ => hget⟩, fun _ => trivial⟩
  cases hcontent : message.message with
  | slot msg =>
    cases hstatus : msg.status with
    | slotConfirmed =>
      have hnext : update txError cache message = .ok ({ cache with slotConfirmed := msg.slot }, [message]) := by
        simp only [update, hcontent, hstatus]
      rw [hok hnext]
      simp only [Sound, hcontent, hstatus]
      refine h.passes_iff hcontent rfl rfl rfl fun other hne => ?_
      cases other with
      | confirmed => exact absurd rfl hne
      | _ => rfl
    | slotFinalized =>
      have hnext : update txError cache message = .ok ({ cache with slotFinalized := msg.slot }, [message]) := by
        simp only [update, hcontent, hstatus]
      rw [hok hnext]
      simp only [Sound, hcontent, hstatus]
      refine h.passes_iff hcontent rfl rfl rfl fun other hne => ?_
      cases other with
      | finalized => exact absurd rfl hne
      | _ => rfl
    | slotDead =>
      have hnext : update txError cache message = .ok (cache.deadSlot msg.slot, [message]) := by
        simp only [update, hcontent, hstatus]
      rw [hok hnext]
      simp only [Sound, hcontent, hstatus]
      exact h.dead_iff hcontent
    | _ =>
      simp only [Sound, hcontent, hstatus]
      exact hkept (by simp only [update, hcontent, hstatus])
  | transaction msg =>
    simp only [Sound, hcontent]
    cases hadd : cache.addSignature txError msg with
    | error e =>
      -- the signature is not one, and the worker panics
      have hpanic : update txError cache message = .error e := by
        simp only [update, hcontent, hadd]
        rfl
      refine ⟨fun _ cache' out heq => ?_, fun _ signature err hsignature herr => ?_⟩
      · rw [hpanic] at heq
        cases heq
      · simp only [addSignature, herr, hsignature] at hadd
        cases hadd
    | ok next =>
      have hnext : update txError cache message = .ok (next, [message]) := by
        simp only [update, hcontent, hadd]
        rfl
      rw [hok hnext]
      exact h.transaction_iff hcontent hadd
  | _ =>
    simp only [Sound, hcontent]
    exact hkept (by simp only [update, hcontent])

end Step

/-! ### All messages -/

theorem SignaturesCache.truthful_new {txError : MessageTransaction → Option Bytes}
    {parent : MessageSlot → Option Slot} (signaturesMax slotsMax : ℕ) :
    Truthful txError parent [] (.new signaturesMax slotsMax) := by
  intro signature commitment answer hget
  cases (SignaturesCache.get_eq_some.mp hget).1

/-- **The cached answers are true and stay** along a sequence of messages of the processed stream just if every
message is `Sound`. -/
theorem SignaturesCache.truthful_iff (txError : MessageTransaction → Option Bytes)
    (parent : MessageSlot → Option Slot) (signaturesMax slotsMax : ℕ) (messages : List ParsedMessage) :
    AllAlong (update txError) (fun cache received message => ∀ cache' out,
        update txError cache message = .ok (cache', out) →
        Truthful txError parent (received ++ out) cache' ∧ Persists cache cache' message)
      (.new signaturesMax slotsMax) messages ↔
    AllAlong (update txError) (Sound txError parent) (.new signaturesMax slotsMax) messages := by
  refine allAlong_congr (P := fun cache received => Truthful txError parent received cache)
    (truthful_new signaturesMax slotsMax) (fun cache received message h => h.sound_iff.symm) ?_
  intro cache received message cache' out _ hkeeps hstep
  exact (hkeeps cache' out hstep).1

/-- A transaction of the slot `5`, and the slot `6` is confirmed. -/
def skippedSlot : List ParsedMessage :=
  [⟨0, .transaction ⟨5, 0, some (List.replicate 64 0), 0, []⟩⟩, ⟨1, .slot ⟨6, .slotConfirmed, none, []⟩⟩]

/-- The parent of the slot `6` is the slot `4`, but the transaction is reported as confirmed. -/
theorem SignaturesCache.skipped_slot_confirmed :
    ∃ (cache : SignaturesCache) (received : List ParsedMessage) (signature : Signature)
      (answer : CachedSignature),
      run (update fun _ => some []) (.new 10 10) skippedSlot = .ok (cache, received) ∧
      cache.cached.get signature .confirmed = some answer ∧
      ¬ Committed (fun _ => some 4) received .confirmed answer.slot := by
  obtain ⟨cache, received, hrun, hcheck⟩ := exists_of_returns
    (x := run (update fun _ => some []) (.new 10 10) skippedSlot)
    (p := fun (cache : SignaturesCache) (received : List ParsedMessage) => decide (received = skippedSlot) &&
      (cache.cached.get ⟨List.replicate 64 0, by decide⟩ .confirmed).any fun answer => answer.slot = 5)
    (by decide +kernel)
  obtain ⟨hreceived, hget⟩ := Bool.and_eq_true_iff.mp hcheck
  obtain ⟨answer, hanswer, hslot⟩ := (Option.any_eq_true _ _).mp hget
  refine ⟨cache, received, _, answer, hrun, hanswer, ?_⟩
  rw [of_decide_eq_true hreceived, of_decide_eq_true hslot]
  -- the only status is the one of the slot `6`, and nothing is known about the slot `4`
  have honly : ∀ m ∈ skippedSlot, ∀ msg, m.message = .slot msg → msg.slot = 6 := by
    intro m hm msg hmsg
    rcases List.mem_pair.mp hm with rfl | rfl
    · cases hmsg
    · cases hmsg
      rfl
  have hparent : ∀ d a, IsParent (fun _ => some 4) skippedSlot d a → d = 6 ∧ a = 4 := by
    rintro d a ⟨m, hm, msg, hmsg, rfl, hfour⟩
    exact ⟨honly m hm msg hmsg, (Option.some.inj hfour).symm⟩
  have hstart : ∀ status x, GotStatus skippedSlot status x → x = 6 := by
    rintro status x ⟨m, hm, msg, hmsg, -, rfl⟩
    exact honly m hm msg hmsg
  rintro ⟨x, hx, hchain⟩
  obtain rfl : x = 6 := hx.elim (hstart _ x) (hstart _ x)
  rcases hchain.cases_head with hself | ⟨a, hsix, hrest⟩
  · cases hself
  · obtain ⟨-, rfl⟩ := hparent 6 a hsix
    rcases hrest.cases_head with hself | ⟨b, hfour, -⟩
    · cases hself
    · cases (hparent 4 b hfour).1

end Richat
