import Richat.Pubsub.CachedSignatures

/-!
# The cached signatures and their slots

The cache keeps the signatures of each slot beside the entries, and a slot that is dead or makes place takes the
entries of its signatures with it. `latest` is what the cache should answer from what happened so far: the last
transaction of a signature, as long as its slot has not left. `Listed` and `Bounded` hold after every sequence of
calls; the answers are the latest ones just as long as no slot leaves with the entry of another one, `TakesItsOwn`.
-/

namespace Richat

open Lib

/-- The calls that change the entries. -/
inductive SignaturesOp where
  | addSignature (message : MessageTransaction)
  | deadSlot (slot : Slot)

inductive SignaturesEvent where
  /-- the transaction of a signature -/
  | added (signature : Signature) (entry : CachedSignature)
  /-- the slot is dead, or it made place -/
  | left (slot : Slot)

namespace SignaturesCache

/-- The signatures that are listed under the slot. -/
def listed (cache : SignaturesCache) (slot : Slot) : List Signature := (cache.slots.get? slot).getD []

/-- The slots that make place, in the order of the loop. -/
def evicted : ℕ → SignaturesCache → List Slot
  | 0, _ => []
  | n + 1, cache =>
    if cache.isFull then
      match cache.slots.firstKey? with
      | none => []
      | some slot => slot :: evicted n (cache.deadSlot slot)
    else []

section Calls

variable (txError : MessageTransaction → Option Bytes)

/-- The entry of a call. -/
def adding : SignaturesOp → Option (Signature × CachedSignature)
  | .deadSlot _ => none
  | .addSignature message =>
    match txError message, message.signature with
    | some err, .ok signature => some (signature, ⟨message.slot, err⟩)
    | _, _ => none

/-- The slots that leave with a call. -/
def leaving (cache : SignaturesCache) : SignaturesOp → List Slot
  | .deadSlot slot => [slot]
  | .addSignature message =>
    if (adding txError (.addSignature message)).isSome then evicted cache.slots.size cache else []

/-- One call; a transaction without a signature is a panic. -/
def apply : Step SignaturesCache SignaturesOp SignaturesEvent Panic
  | cache, op =>
    let events := (cache.leaving txError op).map .left ++
      ((adding txError op).map fun e => .added e.1 e.2).toList
    match op with
    | .deadSlot slot => .ok (cache.deadSlot slot, events)
    | .addSignature message => (cache.addSignature txError message).map (·, events)

end Calls

/-- Every cached signature is listed under the slot it is cached for. -/
def Listed (cache : SignaturesCache) : Prop :=
  ∀ signature entry, cache.signatures.lookup signature = some entry → signature ∈ cache.listed entry.slot

structure Bounded (signaturesMax slotsMax : ℕ) (cache : SignaturesCache) : Prop where
  signatures : cache.signatures.keys.length ≤ signaturesMax
  slots : cache.slots.size ≤ slotsMax

/-- A signature stays cached, with the slot and the error of its last transaction, until the slot leaves. -/
def Stays (events : List SignaturesEvent) (cache : SignaturesCache) : Prop :=
  ∀ signature entry before after, events = before ++ .added signature entry :: after →
    (∀ entry', .added signature entry' ∉ after) → .left entry.slot ∉ after →
    cache.signatures.lookup signature = some entry

/-- No slot leaves with the entry of a slot that stays; the entry of the call itself is written after that. -/
def TakesItsOwn (txError : MessageTransaction → Option Bytes) (cache : SignaturesCache) (op : SignaturesOp) :
    Prop :=
  ∀ slot ∈ cache.leaving txError op, ∀ signature ∈ cache.listed slot, ∀ entry,
    cache.signatures.lookup signature = some entry →
    entry.slot ∈ cache.leaving txError op ∨ ∃ entry', adding txError op = some (signature, entry')

end SignaturesCache

/-! ### The latest transaction -/

/-- The entry of a signature after one more event. -/
def SignaturesEvent.next (signature : Signature) (entry : Option CachedSignature) :
    SignaturesEvent → Option CachedSignature
  | added signature' entry' => if signature' = signature then some entry' else entry
  | left slot => entry.filter fun e => e.slot ≠ slot

/-- The last transaction of the signature, while its slot has not left. -/
def latest (events : List SignaturesEvent) (signature : Signature) : Option CachedSignature :=
  events.foldl (SignaturesEvent.next signature) none

section Latest

variable {events : List SignaturesEvent} {event : SignaturesEvent} {signature : Signature}
  {entry : CachedSignature}

theorem latest_snoc : latest (events ++ [event]) signature = event.next signature (latest events signature) := by
  simp [latest]

theorem next_eq_some : event.next signature (latest events signature) = some entry ↔
    event = .added signature entry ∨
      (∀ entry', event ≠ .added signature entry') ∧ event ≠ .left entry.slot ∧
        latest events signature = some entry := by
  cases event with
  | added signature' entry' =>
    by_cases h : signature' = signature
    · subst h
      simp [SignaturesEvent.next]
    · simp [SignaturesEvent.next, h]
  | left slot =>
    simp only [SignaturesEvent.next, Option.filter_eq_some_iff, decide_eq_true_eq, reduceCtorEq, ne_eq,
      not_false_eq_true, implies_true, true_and, false_or, SignaturesEvent.left.injEq]
    constructor
    · rintro ⟨h, hne⟩
      exact ⟨fun heq => hne heq.symm, h⟩
    · rintro ⟨hne, h⟩
      exact ⟨h, fun heq => hne heq.symm⟩

theorem latest_eq_some : latest events signature = some entry ↔
    ∃ before after, events = before ++ .added signature entry :: after ∧
      (∀ entry', .added signature entry' ∉ after) ∧ .left entry.slot ∉ after := by
  induction events using List.reverseRecOn with
  | nil => simp [latest]
  | append_singleton events event ih =>
    rw [latest_snoc, next_eq_some, ih]
    constructor
    · rintro (rfl | ⟨hadded, hleft, before, after, rfl, hafter, hslot⟩)
      · exact ⟨events, [], rfl, by simp, by simp⟩
      · refine ⟨before, after ++ [event], by simp, ?_, ?_⟩
        · intro entry' hmem
          rcases List.mem_append.mp hmem with h | h
          · exact hafter entry' h
          · exact hadded entry' (List.mem_singleton.mp h).symm
        · intro hmem
          rcases List.mem_append.mp hmem with h | h
          · exact hslot h
          · exact hleft (List.mem_singleton.mp h).symm
    · rintro ⟨before, after, heq, hadded, hleft⟩
      induction after using List.reverseRecOn with
      | nil =>
        obtain ⟨-, h⟩ := List.append_inj' heq rfl
        exact Or.inl (List.singleton_inj.mp h)
      | append_singleton after last _ =>
        rw [← List.cons_append, ← List.append_assoc] at heq
        obtain ⟨rfl, h⟩ := List.append_inj' heq rfl
        obtain rfl := List.singleton_inj.mp h
        refine Or.inr ⟨?_, ?_, before, after, rfl, ?_, ?_⟩
        · rintro entry' rfl
          exact hadded entry' (by simp)
        · rintro rfl
          exact hleft (by simp)
        · intro entry' hmem
          exact hadded entry' (List.mem_append_left _ hmem)
        · intro hmem
          exact hleft (List.mem_append_left _ hmem)

theorem stays_iff {cache : SignaturesCache} : SignaturesCache.Stays events cache ↔
    ∀ signature entry, latest events signature = some entry →
      cache.signatures.lookup signature = some entry := by
  constructor
  · intro h signature entry hlatest
    obtain ⟨before, after, heq, hadded, hleft⟩ := latest_eq_some.mp hlatest
    exact h signature entry before after heq hadded hleft
  · intro h signature entry before after heq hadded hleft
    exact h signature entry (latest_eq_some.mpr ⟨before, after, heq, hadded, hleft⟩)

/-- The slots that leave with a call, before its transaction. -/
theorem latest_left (slots : List Slot) : latest (events ++ slots.map .left) signature =
    (latest events signature).filter fun e => e.slot ∉ slots := by
  induction slots using List.reverseRecOn with
  | nil => cases h : latest events signature <;> simp [h, Option.filter]
  | append_singleton slots slot ih =>
    rw [List.map_append, ← List.append_assoc, List.map_singleton, latest_snoc, ih, SignaturesEvent.next,
      Option.filter_filter]
    simp

theorem latest_apply (slots : List Slot) (added : Option (Signature × CachedSignature)) :
    latest (events ++ (slots.map .left ++ (added.map fun e => .added e.1 e.2).toList)) signature =
      match added with
      | some (signature', entry') => if signature' = signature then some entry' else
          (latest events signature).filter fun e => e.slot ∉ slots
      | none => (latest events signature).filter fun e => e.slot ∉ slots := by
  rw [← List.append_assoc]
  cases added with
  | none => simp [latest_left]
  | some e => exact latest_snoc.trans (by rw [latest_left]; rfl)

end Latest

/-! ### Slots that leave -/

namespace SignaturesCache

variable {txError : MessageTransaction → Option Bytes} {cache cache' : SignaturesCache} {slot : Slot}
  {signature : Signature} {entry : CachedSignature} {op : SignaturesOp} {signaturesMax slotsMax : ℕ}

theorem listed_deadSlot (slot' : Slot) :
    (cache.deadSlot slot).listed slot' = if slot' = slot then [] else cache.listed slot' := by
  unfold listed deadSlot
  rw [SortedMap.get?_erase]
  split <;> rfl

theorem listed_foldl (slots : List Slot) (slot' : Slot) : ∀ {cache : SignaturesCache},
    (slots.foldl deadSlot cache).listed slot' = if slot' ∈ slots then [] else cache.listed slot' := by
  induction slots with
  | nil => simp
  | cons slot slots ih =>
    intro cache
    rw [List.foldl_cons, ih, listed_deadSlot]
    by_cases h : slot' = slot <;> simp [h]

/-- The entries after some slots left. -/
theorem lookup_foldl (slots : List Slot) : ∀ {cache : SignaturesCache},
    (slots.foldl deadSlot cache).signatures.lookup signature = some entry ↔
      cache.signatures.lookup signature = some entry ∧ ∀ slot ∈ slots, signature ∉ cache.listed slot := by
  induction slots with
  | nil => simp
  | cons slot slots ih =>
    intro cache
    rw [List.foldl_cons, ih, lookup_deadSlot, ← listed]
    by_cases hmem : signature ∈ cache.listed slot
    · simp [hmem]
    · simp only [hmem, if_false, List.forall_mem_cons, not_false_eq_true, true_and, and_congr_right_iff]
      intro _
      refine forall₂_congr fun slot' _ => ?_
      rw [listed_deadSlot]
      split
      · rename_i heq
        simp [heq, hmem]
      · rfl

theorem evict_eq (n : ℕ) : ∀ cache : SignaturesCache, cache.evict n = (evicted n cache).foldl deadSlot cache := by
  induction n with
  | zero => exact fun _ => rfl
  | succ n ih =>
    intro cache
    rw [evict, evicted]
    split
    · cases hfirst : cache.slots.firstKey? with
      | none => rfl
      | some slot => exact ih (cache.deadSlot slot)
    · rfl

theorem Listed.foldl (h : Listed cache) (slots : List Slot) : Listed (slots.foldl deadSlot cache) := by
  intro signature entry hentry
  obtain ⟨hlookup, hout⟩ := (lookup_foldl slots).mp hentry
  have hmem := h signature entry hlookup
  rw [listed_foldl, if_neg]
  · exact hmem
  · intro hslot
    exact hout _ hslot hmem

/-! ### The limits -/

theorem max_foldl (slots : List Slot) : ∀ cache : SignaturesCache,
    (slots.foldl deadSlot cache).signaturesMax = cache.signaturesMax ∧
      (slots.foldl deadSlot cache).slotsMax = cache.slotsMax := by
  induction slots with
  | nil => exact fun _ => ⟨rfl, rfl⟩
  | cons slot slots ih => exact fun cache => ih (cache.deadSlot slot)

theorem size_deadSlot (h : slot ∈ cache.slots.keys) : (cache.deadSlot slot).slots.size + 1 = cache.slots.size := by
  have hkeys : (cache.deadSlot slot).slots.keys.toFinset = cache.slots.keys.toFinset.erase slot := by
    ext slot'
    rw [List.mem_toFinset, SortedMap.mem_keys, Finset.mem_erase, List.mem_toFinset, SortedMap.mem_keys]
    show (((cache.slots.erase slot).get? slot').isSome = true) ↔ _
    rw [SortedMap.get?_erase]
    by_cases heq : slot' = slot <;> simp [heq]
  rw [SortedMap.size_eq_card, SortedMap.size_eq_card, hkeys]
  exact Finset.card_erase_add_one (List.mem_toFinset.mpr h)

/-- The loop ends with room for a signature, or with no slot left. -/
theorem evict_end (n : ℕ) : ∀ cache : SignaturesCache, cache.slots.size ≤ n →
    (cache.evict n).isFull = false ∨ (cache.evict n).slots.keys = [] := by
  induction n with
  | zero =>
    intro cache hn
    refine Or.inr (List.length_eq_zero_iff.mp ?_)
    simpa [evict, SortedMap.keys, List.keys, SortedMap.size] using hn
  | succ n ih =>
    intro cache hn
    rw [evict]
    split
    · cases hfirst : cache.slots.firstKey? with
      | none => exact Or.inr (SortedMap.firstKey?_eq_none.mp hfirst)
      | some slot =>
        have hsize := size_deadSlot (SortedMap.firstKey?_eq_some hfirst).1
        exact ih (cache.deadSlot slot) (by omega)
    · rename_i hfull
      exact Or.inl (by simpa using hfull)

/-- Nothing is cached when no slot is listed. -/
theorem Listed.signatures_eq_nil (h : Listed cache) (hslots : cache.slots.keys = []) :
    cache.signatures.keys = [] := by
  rw [List.eq_nil_iff_forall_not_mem]
  intro signature hmem
  obtain ⟨entry, hentry⟩ := Option.isSome_iff_exists.mp (AList.lookup_isSome.mpr (AList.mem_keys.mp hmem))
  have hlisted := h signature entry hentry
  rw [listed, SortedMap.keys_eq_nil.mp hslots] at hlisted
  exact absurd hlisted (by simp)

theorem Listed.evict (h : Listed cache) (hsignatures : 1 ≤ cache.signaturesMax) (hslots : 1 ≤ cache.slotsMax) :
    (cache.evict cache.slots.size).signatures.keys.length + 1 ≤ cache.signaturesMax ∧
      (cache.evict cache.slots.size).slots.size + 1 ≤ cache.slotsMax := by
  have hevicted := evict_eq cache.slots.size cache
  have hlisted : Listed (cache.evict cache.slots.size) := hevicted ▸ h.foldl _
  obtain ⟨hmax, hmax'⟩ := hevicted ▸ max_foldl (evicted cache.slots.size cache) cache
  rcases evict_end cache.slots.size cache le_rfl with hfull | hempty
  · simp only [isFull, ge_iff_le, decide_eq_false_iff_not, not_or, hmax, hmax'] at hfull
    omega
  · have hnone := hlisted.signatures_eq_nil hempty
    have hsize : (cache.evict cache.slots.size).slots.size = 0 := by
      simpa [SortedMap.keys, List.keys, SortedMap.size] using congrArg List.length hempty
    rw [hnone, hsize]
    exact ⟨hsignatures, hslots⟩

theorem Bounded.deadSlot (h : Bounded signaturesMax slotsMax cache) (slot : Slot) :
    Bounded signaturesMax slotsMax (cache.deadSlot slot) where
  signatures := by
    have hle : ∀ (l : List Signature) (signatures : AList fun _ : Signature => CachedSignature),
        (removeSignatures signatures l).keys.length ≤ signatures.keys.length := by
      intro l
      induction l with
      | nil => exact fun _ => le_rfl
      | cons signature l ih =>
        intro signatures
        refine (ih (signatures.erase signature)).trans ?_
        rw [AList.keys_erase]
        exact @List.length_erase_le _ instBEqOfDecidableEq _ _
    exact (hle _ _).trans h.signatures
  slots := by
    refine le_trans ?_ h.slots
    by_cases hmem : slot ∈ cache.slots.keys
    · have := size_deadSlot hmem
      omega
    · rw [show (cache.deadSlot slot).slots = cache.slots from SortedMap.ext_get? fun slot' => ?_]
      show (cache.slots.erase slot).get? slot' = _
      rw [SortedMap.get?_erase]
      split
      · rename_i heq
        rw [heq, SortedMap.get?_eq_none.mpr hmem]
      · rfl

theorem Bounded.foldl (slots : List Slot) : ∀ {cache : SignaturesCache}, Bounded signaturesMax slotsMax cache →
    Bounded signaturesMax slotsMax (slots.foldl SignaturesCache.deadSlot cache) := by
  induction slots with
  | nil => exact id
  | cons slot slots ih => exact fun h => ih (h.deadSlot slot)

/-! ### One call -/

/-- The entry of a transaction, and its place in the list of the slot. -/
def receive (cache : SignaturesCache) (signature : Signature) (entry : CachedSignature) : SignaturesCache :=
  { cache with
    signatures := cache.signatures.insert signature entry
    slots := cache.slots.insert entry.slot (cache.listed entry.slot ++ [signature]) }

/-- What a call does: some slots leave, and then the transaction is written. -/
theorem apply_ok {out : List SignaturesEvent} (h : apply txError cache op = .ok (cache', out)) :
    out = (cache.leaving txError op).map .left ++ ((adding txError op).map fun e => .added e.1 e.2).toList ∧
      cache' = match adding txError op with
        | some e => ((cache.leaving txError op).foldl deadSlot cache).receive e.1 e.2
        | none => (cache.leaving txError op).foldl deadSlot cache := by
  cases op with
  | deadSlot slot =>
    cases h
    exact ⟨rfl, rfl⟩
  | addSignature message =>
    unfold apply addSignature at h
    dsimp only at h
    cases herr : txError message with
    | none =>
      have hadding : adding txError (.addSignature message) = none := by simp only [adding, herr]
      rw [herr] at h
      cases h
      exact ⟨rfl, by simp [leaving, hadding]⟩
    | some err =>
      cases hsignature : message.signature with
      | error e =>
        rw [herr, hsignature] at h
        cases h
      | ok signature =>
        have hadding : adding txError (.addSignature message) = some (signature, ⟨message.slot, err⟩) := by
          simp only [adding, herr, hsignature]
        have hleaving : cache.leaving txError (.addSignature message) = evicted cache.slots.size cache := by
          simp only [leaving, hadding, Option.isSome_some, if_true]
        rw [herr, hsignature] at h
        cases h
        refine ⟨rfl, ?_⟩
        rw [hadding, hleaving, ← evict_eq]
        rfl

theorem listed_receive (signature : Signature) (entry : CachedSignature) (slot : Slot) :
    (cache.receive signature entry).listed slot =
      if slot = entry.slot then cache.listed slot ++ [signature] else cache.listed slot := by
  unfold listed receive
  rw [SortedMap.get?_insert]
  split
  · rename_i heq
    rw [heq]
    rfl
  · rfl

theorem lookup_receive (signature signature' : Signature) (entry : CachedSignature) :
    (cache.receive signature entry).signatures.lookup signature' =
      if signature = signature' then some entry else cache.signatures.lookup signature' := by
  by_cases h : signature = signature'
  · rw [if_pos h, ← h]
    exact AList.lookup_insert _
  · rw [if_neg h]
    exact AList.lookup_insert_ne (Ne.symm h)

theorem Listed.receive (h : Listed cache) (signature : Signature) (entry : CachedSignature) :
    Listed (cache.receive signature entry) := by
  intro signature' entry' hlookup
  rw [lookup_receive] at hlookup
  rw [listed_receive]
  split at hlookup
  · rename_i heq
    cases hlookup
    rw [if_pos rfl, heq]
    exact List.mem_append_right _ List.mem_cons_self
  · have hmem := h signature' entry' hlookup
    split
    · exact List.mem_append_left _ hmem
    · exact hmem

/-! ### Every sequence of calls -/

/-- What holds after every sequence of calls; an entry is one of the latest. -/
structure SlotsInv (signaturesMax slotsMax : ℕ) (cache : SignaturesCache) (events : List SignaturesEvent) :
    Prop where
  listed : Listed cache
  bounded : Bounded signaturesMax slotsMax cache
  limits : cache.signaturesMax = signaturesMax ∧ cache.slotsMax = slotsMax
  latest : ∀ signature entry, cache.signatures.lookup signature = some entry →
    latest events signature = some entry

section Inv

variable {events out : List SignaturesEvent}

theorem slotsInv_new : SlotsInv signaturesMax slotsMax (.new signaturesMax slotsMax) [] where
  listed := by
    intro signature entry h
    cases h
  bounded := ⟨Nat.zero_le _, Nat.zero_le _⟩
  limits := ⟨rfl, rfl⟩
  latest := by
    intro signature entry h
    cases h

theorem bounded_receive (hsignatures : cache.signatures.keys.length + 1 ≤ signaturesMax)
    (hslots : cache.slots.size + 1 ≤ slotsMax) (signature : Signature) (entry : CachedSignature) :
    Bounded signaturesMax slotsMax (cache.receive signature entry) where
  signatures := by
    show (cache.signatures.insert signature entry).keys.length ≤ _
    rw [AList.keys_insert, List.length_cons]
    exact (Nat.succ_le_succ (@List.length_erase_le _ instBEqOfDecidableEq _ _)).trans hsignatures
  slots := by
    show (cache.slots.insert entry.slot _).size ≤ _
    rw [SortedMap.size_insert]
    split <;> omega

/-- The entries after a call: one is lost if a slot leaves that lists it, and the one of the call is new. -/
theorem lookup_apply (h : apply txError cache op = .ok (cache', out)) (signature : Signature)
    (entry : CachedSignature) : cache'.signatures.lookup signature = some entry ↔
      adding txError op = some (signature, entry) ∨
        (∀ entry', adding txError op ≠ some (signature, entry')) ∧
        cache.signatures.lookup signature = some entry ∧
        ∀ slot ∈ cache.leaving txError op, signature ∉ cache.listed slot := by
  obtain ⟨-, rfl⟩ := apply_ok h
  cases hadding : adding txError op with
  | none => simp [lookup_foldl]
  | some e =>
    simp only [lookup_receive, Option.some.injEq, Prod.ext_iff, ne_eq, not_and]
    by_cases heq : e.1 = signature
    · simp [heq]
    · simp [heq, lookup_foldl]

/-- The latest entries after a call. -/
theorem latest_call (h : apply txError cache op = .ok (cache', out)) (signature : Signature)
    (entry : CachedSignature) : Richat.latest (events ++ out) signature = some entry ↔
      adding txError op = some (signature, entry) ∨
        (∀ entry', adding txError op ≠ some (signature, entry')) ∧
        Richat.latest events signature = some entry ∧ entry.slot ∉ cache.leaving txError op := by
  obtain ⟨rfl, -⟩ := apply_ok h
  rw [latest_apply]
  cases hadding : adding txError op with
  | none => simp
  | some e =>
    simp only [Option.some.injEq, Prod.ext_iff, ne_eq, not_and]
    by_cases heq : e.1 = signature
    · simp [heq]
    · simp [heq]

/-- A call keeps all of it. -/
theorem SlotsInv.apply (h : SlotsInv signaturesMax slotsMax cache events) (hsignatures : 1 ≤ signaturesMax)
    (hslots : 1 ≤ slotsMax) (happly : apply txError cache op = .ok (cache', out)) :
    SlotsInv signaturesMax slotsMax cache' (events ++ out) := by
  obtain ⟨-, hcache⟩ := apply_ok happly
  have hfold := h.listed.foldl (cache.leaving txError op)
  obtain ⟨hmax, hmax'⟩ := max_foldl (cache.leaving txError op) cache
  obtain ⟨hlimit, hlimit'⟩ := h.limits
  constructor
  · rw [hcache]
    split
    · exact hfold.receive _ _
    · exact hfold
  · rw [hcache]
    split
    · rename_i e hadding
      have hleaving : cache.leaving txError op = evicted cache.slots.size cache := by
        cases op with
        | deadSlot slot => cases hadding
        | addSignature message => simp only [leaving, hadding, Option.isSome_some, if_true]
      obtain ⟨hroom, hroom'⟩ := h.listed.evict (by omega) (by omega)
      rw [evict_eq, ← hleaving] at hroom hroom'
      exact bounded_receive (by omega) (by omega) e.1 e.2
    · exact h.bounded.foldl _
  · rw [hcache, ← hlimit, ← hlimit']
    split <;> exact ⟨hmax, hmax'⟩
  · intro signature entry hlookup
    rw [lookup_apply happly] at hlookup
    rw [latest_call happly]
    refine hlookup.imp_right ?_
    rintro ⟨hother, hentry, hout⟩
    refine ⟨hother, h.latest signature entry hentry, ?_⟩
    intro hleft
    -- the slot that leaves would have taken the entry with it
    exact hout entry.slot hleft (h.listed signature entry hentry)

/-- A call after which the answers are the latest ones takes no entry of a slot that stays. -/
theorem SlotsInv.stays_iff (h : SlotsInv signaturesMax slotsMax cache events) (hstays : Stays events cache)
    (happly : SignaturesCache.apply txError cache op = .ok (cache', out)) :
    Stays (events ++ out) cache' ↔ TakesItsOwn txError cache op := by
  rw [Richat.stays_iff] at hstays ⊢
  constructor
  · intro hnext slot hslot signature hmem entry hentry
    by_contra hcon
    obtain ⟨hstay, hother⟩ := not_or.mp hcon
    have hother' : ∀ entry', adding txError op ≠ some (signature, entry') := not_exists.mp hother
    have hlookup := hnext signature entry ((latest_call happly signature entry).mpr
      (Or.inr ⟨hother', h.latest signature entry hentry, hstay⟩))
    rcases (lookup_apply happly signature entry).mp hlookup with hnew | ⟨-, -, hout⟩
    · exact hother' entry hnew
    · exact hout slot hslot hmem
  · intro hown signature entry hlatest
    rw [latest_call happly] at hlatest
    rw [lookup_apply happly]
    refine hlatest.imp_right ?_
    rintro ⟨hother, hlast, hstay⟩
    have hentry := hstays signature entry hlast
    refine ⟨hother, hentry, ?_⟩
    intro slot hslot hmem
    rcases hown slot hslot signature hmem entry hentry with hleft | ⟨entry', hadding⟩
    · exact hstay hleft
    · exact hother entry' hadding

end Inv

/-- Every cached signature is listed under its slot and the limits are kept, whatever the calls. **A signature
stays cached**, with the slot and the error of its last transaction until the slot leaves, just if no slot ever
leaves with the entry of one that stays. -/
theorem stays_cached_iff (txError : MessageTransaction → Option Bytes) (hsignatures : 1 ≤ signaturesMax)
    (hslots : 1 ≤ slotsMax) (ops : List SignaturesOp) :
    (∀ cache events, run (apply txError) (.new signaturesMax slotsMax) ops = .ok (cache, events) →
      Listed cache ∧ Bounded signaturesMax slotsMax cache) ∧
    (AllAlong (apply txError) (fun cache events op => ∀ cache' out, apply txError cache op = .ok (cache', out) →
        Stays (events ++ out) cache') (.new signaturesMax slotsMax) ops ↔
      AllAlong (apply txError) (fun cache _ op => TakesItsOwn txError cache op) (.new signaturesMax slotsMax)
        ops) := by
  constructor
  · intro cache events hrun
    have hinv : SlotsInv signaturesMax slotsMax cache events :=
      run_induction (P := fun _ cache events => SlotsInv signaturesMax slotsMax cache events) slotsInv_new
        (fun _ _ _ _ _ _ _ h hstep => h.apply hsignatures hslots hstep) hrun
    exact ⟨hinv.listed, hinv.bounded⟩
  · refine allAlong_congr
      (P := fun cache events => SlotsInv signaturesMax slotsMax cache events ∧ Stays events cache) ?_ ?_ ?_
    · refine ⟨slotsInv_new, ?_⟩
      intro signature entry before after heq
      exact absurd heq.symm (by simp)
    · rintro cache events op ⟨hinv, hstays⟩
      constructor
      · intro hnext
        cases happly : apply txError cache op with
        | ok r => exact (hinv.stays_iff hstays happly).mp (hnext r.1 r.2 happly)
        | error e =>
          -- a transaction without a signature adds nothing, and no slot leaves
          cases op with
          | deadSlot slot => cases happly
          | addSignature message =>
            intro slot hslot
            have hadding : adding txError (.addSignature message) = none := by
              by_contra hne
              obtain ⟨r, hr⟩ := Option.ne_none_iff_exists'.mp hne
              unfold adding at hr
              unfold apply addSignature at happly
              dsimp only at hr happly
              split at hr
              · rename_i herr hsignature
                rw [herr, hsignature] at happly
                cases happly
              · cases hr
            simp [leaving, hadding] at hslot
      · intro hown cache' out happly
        exact (hinv.stays_iff hstays happly).mpr hown
    · rintro cache events op cache' out ⟨hinv, -⟩ hnext hstep
      exact ⟨hinv.apply hsignatures hslots hstep, hnext cache' out hstep⟩

/-- A transaction of the slot `1` is also one of the slot `2`, and the slot `1` dies. -/
def forked : List SignaturesOp :=
  [.addSignature ⟨1, 0, some (List.replicate 64 0), 0, []⟩, .addSignature ⟨2, 0, some (List.replicate 64 0), 0, []⟩,
    .deadSlot 1]

/-- Up to then no slot leaves. -/
theorem stays_cached_forked : AllAlong (apply fun _ => some []) (fun cache events op => ∀ cache' out,
    apply (fun _ => some []) cache op = .ok (cache', out) → Stays (events ++ out) cache') (.new 10 10)
      (forked.take 2) := by
  refine ((stays_cached_iff (fun _ => some []) (by decide) (by decide) _).2).mpr ?_
  refine allAlong_of_checkAlong (p := fun cache _ op => (cache.leaving (fun _ => some []) op).isEmpty) ?_
    (by decide +kernel)
  intro cache events op hempty slot hslot
  rw [List.isEmpty_iff.mp hempty] at hslot
  cases hslot

/-- The transaction of the slot `2` is not cached anymore. -/
theorem forked_not_stays : ¬ ∀ (txError : MessageTransaction → Option Bytes) (signaturesMax slotsMax : ℕ),
    1 ≤ signaturesMax → 1 ≤ slotsMax → ∀ (ops : List SignaturesOp) cache events,
      run (apply txError) (.new signaturesMax slotsMax) ops = .ok (cache, events) → Stays events cache := by
  intro h
  obtain ⟨cache, events, hrun, hcheck⟩ := exists_of_returns
    (x := run (apply fun _ => some []) (.new 10 10) forked)
    (p := fun (cache : SignaturesCache) (events : List SignaturesEvent) =>
      decide (cache.signatures.lookup ⟨List.replicate 64 0, by decide⟩ = none) &&
        decide ((latest events ⟨List.replicate 64 0, by decide⟩).map (·.slot) = some 2))
    (by decide +kernel)
  obtain ⟨hnone, hlatest⟩ := Bool.and_eq_true_iff.mp hcheck
  have hstays := h (fun _ => some []) 10 10 (by decide) (by decide) forked cache events hrun
  obtain ⟨entry, hentry, -⟩ := Option.map_eq_some_iff.mp (of_decide_eq_true hlatest)
  have hlookup := Richat.stays_iff.mp hstays _ entry hentry
  rw [of_decide_eq_true hnone] at hlookup
  cases hlookup

end SignaturesCache

end Richat
