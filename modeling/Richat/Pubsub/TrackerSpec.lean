import Richat.Pubsub.Tracker

/-!
# The subscriptions are consistent

`Subscriptions.Consistent` joins the four structures of the tracker: clients and subscriptions list each
other, and a subscription has one entry by its config and one in the index, at its own level and key.
Each operation has one lemma that says that it does not fail and what it does to both sides;
`Tracker.consistent` is the result for every run.
-/

namespace Richat

open Lib

/-! ### The index by keys -/

/-- Where a subscription is in the index of its level. -/
inductive IndexKey where
  | account (pubkey : Pubkey)
  | program (pubkey : Pubkey)
  | signature (signature : Signature)
  | mention (pubkey : Pubkey)
  | logsAll
  | unkeyed (method : SubscribeMethod)
  deriving DecidableEq

def SubscribeConfig.key : SubscribeConfig → IndexKey
  | .account pubkey .. => .account pubkey
  | .program pubkey .. => .program pubkey
  | .signature sig _ => .signature sig
  | .logs (.single pubkey) _ => .mention pubkey
  | .logs .. => .logsAll
  | config => .unkeyed config.method

/-- The ids of a bucket. -/
def bucketIds {K : Type} [DecidableEq K] (map : Buckets K) (key : K) : List SubscriptionId :=
  (map.lookup key).getD []

/-- The entries at a key. -/
def SubscriptionsIndex.ids (index : SubscriptionsIndex) : IndexKey → List SubscriptionId
  | .account pubkey => bucketIds index.account pubkey
  | .program pubkey => bucketIds index.program pubkey
  | .signature signature => bucketIds index.signature signature
  | .mention pubkey => bucketIds index.logsMentions pubkey
  | .logsAll => index.logsAll.keys
  | .unkeyed method => (index.unkeyed method).keys

theorem swapRemove_perm {α : Type*} {l : List α} {i : ℕ} (h : i < l.length) :
    (swapRemove l i).Perm (l.eraseIdx i) := by
  unfold swapRemove
  have hne : l ≠ [] := by
    rintro rfl
    exact absurd h (Nat.not_lt_zero i)
  rw [List.getLast?_eq_some_getLast hne]
  obtain ⟨init, last, rfl⟩ := (List.eq_nil_or_concat' l).resolve_left hne
  rw [List.getLast_append_singleton]
  dsimp only
  rcases Nat.lt_or_ge i init.length with hlt | hge
  · rw [List.set_append_left _ _ hlt, List.dropLast_concat, List.eraseIdx_append_of_lt_length hlt]
    exact (List.set_perm_cons_eraseIdx hlt last).trans (List.perm_append_singleton ..).symm
  · have hi : i = init.length := by
      simp only [List.length_append, List.length_singleton] at h
      omega
    subst hi
    rw [List.set_append_right _ _ le_rfl, List.eraseIdx_append_of_length_le le_rfl]
    simp

section Buckets

variable {K : Type} [DecidableEq K] {map : Buckets K} {key : K} {id : SubscriptionId}

/-- No bucket is empty. -/
def Filled (map : Buckets K) : Prop := ∀ key, map.lookup key ≠ some []

theorem bucketIds_insert (ids : List SubscriptionId) (k : K) :
    bucketIds (map.insert key ids) k = if k = key then ids else bucketIds map k := by
  unfold bucketIds
  by_cases h : k = key
  · subst h
    simp
  · rw [AList.lookup_insert_ne h, if_neg h]

theorem bucketIds_erase (k : K) :
    bucketIds (map.erase key) k = if k = key then [] else bucketIds map k := by
  unfold bucketIds
  by_cases h : k = key
  · subst h
    simp
  · rw [AList.lookup_erase_ne h, if_neg h]

theorem Filled.insert {ids : List SubscriptionId} (h : Filled map) (hids : ids ≠ []) :
    Filled (map.insert key ids) := by
  intro k
  by_cases hk : k = key
  · subst hk
    simpa using hids
  · rw [AList.lookup_insert_ne hk]
    exact h k

theorem Filled.erase (h : Filled map) : Filled (map.erase key) := by
  intro k
  by_cases hk : k = key
  · subst hk
    simp
  · rw [AList.lookup_erase_ne hk]
    exact h k

/-- A bucket map without entries. -/
theorem Filled.eq_empty (h : Filled map) (hids : ∀ key, bucketIds map key = []) : map = ∅ := by
  refine AList.ext (List.eq_nil_iff_forall_not_mem.mpr fun entry hentry => ?_)
  have hlookup : map.lookup entry.1 = some entry.2 := AList.mem_lookup_iff.mpr hentry
  have hnil := hids entry.1
  rw [bucketIds, hlookup, Option.getD_some] at hnil
  exact h entry.1 (by rw [hlookup, hnil])

namespace SubscriptionsIndex

theorem count_bucketInsert (k : K) (j : SubscriptionId) :
    (bucketIds (bucketInsert map key id) k).count j =
      (bucketIds map k).count j + if k = key ∧ j = id then 1 else 0 := by
  rw [bucketInsert, bucketIds_insert]
  by_cases hk : k = key
  · subst hk
    by_cases hj : j = id
    · subst hj
      simp [bucketIds]
    · simp [bucketIds, hj, Ne.symm hj]
  · simp [hk]

theorem filled_bucketInsert (h : Filled map) (key : K) (id : SubscriptionId) :
    Filled (bucketInsert map key id) :=
  h.insert (by simp)

/-- The removal of an id that is in its bucket. -/
theorem bucketRemove_ok (map : Buckets K) (h : id ∈ bucketIds map key) : ∃ map', bucketRemove map key id = .ok map' ∧
    (Filled map → Filled map') ∧ ∀ k j, (bucketIds map' k).count j =
      (bucketIds map k).count j - if k = key ∧ j = id then 1 else 0 := by
  unfold bucketRemove
  cases hlookup : map.lookup key with
  | none => simp [bucketIds, hlookup] at h
  | some ids =>
    have hids : bucketIds map key = ids := by rw [bucketIds, hlookup, Option.getD_some]
    rw [hids] at h
    obtain ⟨index, hindex⟩ := Option.isSome_iff_exists.mp (List.isSome_idxOf?.mpr h)
    simp only [hindex]
    obtain ⟨hlt, hget, -⟩ := List.idxOf?_eq_some_iff.mp hindex
    have hperm : (swapRemove ids index).Perm (ids.erase id) := by
      refine (swapRemove_perm hlt).trans ?_
      rw [List.erase_eq_eraseIdx, hindex]
    have hcount : ∀ ids' : List SubscriptionId, ids'.Perm (ids.erase id) → ∀ map' : Buckets K,
        (∀ k, bucketIds map' k = if k = key then ids' else bucketIds map k) →
        ∀ k j, (bucketIds map' k).count j =
          (bucketIds map k).count j - if k = key ∧ j = id then 1 else 0 := by
      intro ids' hids' map' hmap' k j
      rw [hmap']
      by_cases hk : k = key
      · subst hk
        rw [if_pos rfl, hids'.count_eq, hids, List.count_erase]
        by_cases hj : j = id
        · subst hj
          simp
        · simp [hj, Ne.symm hj]
      · simp [hk]
    split
    · rename_i hempty
      rw [List.isEmpty_iff.mp hempty] at hperm
      exact ⟨_, rfl, fun hfilled => hfilled.erase, hcount [] hperm _ bucketIds_erase⟩
    · rename_i hempty
      rw [List.isEmpty_iff] at hempty
      exact ⟨_, rfl, fun hfilled => hfilled.insert hempty, hcount _ hperm _ (bucketIds_insert _)⟩

end SubscriptionsIndex

end Buckets

/-- No bucket of the index is empty. -/
structure SubscriptionsIndex.AllFilled (index : SubscriptionsIndex) : Prop where
  account : Filled index.account
  program : Filled index.program
  signature : Filled index.signature
  logsMentions : Filled index.logsMentions

/-- The entries of an index: `entry` says which key an id has. -/
structure SubscriptionsIndexed (index : SubscriptionsIndex) (entry : SubscriptionId → Option IndexKey) : Prop where
  count : ∀ key id, (index.ids key).count id = if entry id = some key then 1 else 0
  filled : index.AllFilled

namespace SubscriptionsIndexed

variable {index : SubscriptionsIndex} {entry : SubscriptionId → Option IndexKey} {id : SubscriptionId}
  {config : SubscribeConfig}

theorem default : SubscriptionsIndexed .default fun _ => none where
  count := by
    intro key id
    cases key <;> simp [SubscriptionsIndex.default, SubscriptionsIndex.ids, bucketIds, SortedMap.empty,
      SortedMap.keys]
  filled := by constructor <;> simp [Filled, SubscriptionsIndex.default]

theorem mem_ids (h : SubscriptionsIndexed index entry) {key : IndexKey} :
    id ∈ index.ids key ↔ entry id = some key := by
  rw [← List.count_pos_iff, h.count]
  split <;> simp [*]

/-- The count of an id in a set of ids. -/
theorem count_set_insert {ids : IntSet} (hid : id ∉ ids.keys) (j : SubscriptionId) :
    (ids.insert id ()).keys.count j = ids.keys.count j + if j = id then 1 else 0 := by
  rw [SortedMap.count_keys, SortedMap.count_keys, SortedMap.contains_insert]
  by_cases hj : j = id
  · subst hj
    rw [← SortedMap.contains_iff, Bool.not_eq_true] at hid
    simp [hid]
  · simp [hj]

theorem count_set_erase (id : SubscriptionId) (ids : IntSet) (j : SubscriptionId) :
    (ids.erase id).keys.count j = ids.keys.count j - if j = id then 1 else 0 := by
  rw [SortedMap.count_keys, SortedMap.count_keys, SortedMap.contains_erase]
  by_cases hj : j = id
  · subst hj
    cases hc : ids.contains j <;> simp
  · simp [hj]

/-- What an insertion adds. -/
theorem count_insert (hid : ∀ key, id ∉ index.ids key) (key : IndexKey) (j : SubscriptionId) :
    ((index.insert id config).ids key).count j =
      (index.ids key).count j + if key = config.key ∧ j = id then 1 else 0 := by
  have hall := count_set_insert (hid .logsAll) j
  have hmethod : ∀ method method', (Function.update index.unkeyed method
      ((index.unkeyed method).insert id ()) method').keys.count j =
        (index.unkeyed method').keys.count j + if method' = method ∧ j = id then 1 else 0 := by
    intro method method'
    by_cases hm : method' = method
    · subst hm
      rw [Function.update_self, count_set_insert (hid (.unkeyed method'))]
      simp
    · simp [hm]
  rcases config with ⟨pk, l, b⟩ | ⟨pk, l, b⟩ | ⟨_ | _ | pk, l⟩ | ⟨sig, l⟩ | _ | _ | ⟨l, b⟩ | _ | ⟨l, b⟩
  all_goals
    rcases key with pk' | pk' | sig' | pk' | _ | method
    all_goals simp [SubscriptionsIndex.insert, SubscriptionsIndex.ids, SubscribeConfig.key,
      SubscriptionsIndex.count_bucketInsert, hall, hmethod]

theorem insert (h : SubscriptionsIndexed index entry) (hid : entry id = none) (config : SubscribeConfig) :
    SubscriptionsIndexed (index.insert id config) (Function.update entry id (some config.key)) where
  count := by
    intro key j
    have hfresh : ∀ key, id ∉ index.ids key := fun key hmem => by
      rw [h.mem_ids, hid] at hmem
      cases hmem
    rw [count_insert hfresh, h.count]
    by_cases hj : j = id
    · subst hj
      rw [hid, Function.update_self]
      simp [eq_comm]
    · rw [Function.update_of_ne hj]
      simp [hj]
  filled := by
    obtain ⟨h₁, h₂, h₃, h₄⟩ := h.filled
    unfold SubscriptionsIndex.insert
    split
    · exact ⟨SubscriptionsIndex.filled_bucketInsert h₁ _ _, h₂, h₃, h₄⟩
    · exact ⟨h₁, SubscriptionsIndex.filled_bucketInsert h₂ _ _, h₃, h₄⟩
    · exact ⟨h₁, h₂, SubscriptionsIndex.filled_bucketInsert h₃ _ _, h₄⟩
    · exact ⟨h₁, h₂, h₃, SubscriptionsIndex.filled_bucketInsert h₄ _ _⟩
    · exact ⟨h₁, h₂, h₃, h₄⟩
    · exact ⟨h₁, h₂, h₃, h₄⟩

/-- The removal of an id that has the key of the config. -/
theorem remove_ok (h : id ∈ index.ids config.key) : ∃ index', index.remove id config = .ok index' ∧
    (index.AllFilled → index'.AllFilled) ∧ ∀ key j, (index'.ids key).count j =
      (index.ids key).count j - if key = config.key ∧ j = id then 1 else 0 := by
  have hall := count_set_erase id index.logsAll
  have hmethod : ∀ method method' j, (Function.update index.unkeyed method
      ((index.unkeyed method).erase id) method').keys.count j =
        (index.unkeyed method').keys.count j - if method' = method ∧ j = id then 1 else 0 := by
    intro method method' j
    by_cases hm : method' = method
    · subst hm
      rw [Function.update_self, count_set_erase]
      simp
    · simp [hm]
  rcases config with ⟨pk, l, b⟩ | ⟨pk, l, b⟩ | ⟨_ | _ | pk, l⟩ | ⟨sig, l⟩ | _ | _ | ⟨l, b⟩ | _ | ⟨l, b⟩
  case account =>
    obtain ⟨map, hmap, hfilled, hcount⟩ := SubscriptionsIndex.bucketRemove_ok index.account h
    refine ⟨_, by rw [SubscriptionsIndex.remove, hmap]; rfl, fun hf => ?_, fun key j => ?_⟩
    · exact ⟨hfilled hf.account, hf.program, hf.signature, hf.logsMentions⟩
    · cases key <;> simp [SubscriptionsIndex.ids, SubscribeConfig.key, hcount]
  case program =>
    obtain ⟨map, hmap, hfilled, hcount⟩ := SubscriptionsIndex.bucketRemove_ok index.program h
    refine ⟨_, by rw [SubscriptionsIndex.remove, hmap]; rfl, fun hf => ?_, fun key j => ?_⟩
    · exact ⟨hf.account, hfilled hf.program, hf.signature, hf.logsMentions⟩
    · cases key <;> simp [SubscriptionsIndex.ids, SubscribeConfig.key, hcount]
  case logs.single =>
    obtain ⟨map, hmap, hfilled, hcount⟩ := SubscriptionsIndex.bucketRemove_ok index.logsMentions h
    refine ⟨_, by rw [SubscriptionsIndex.remove, hmap]; rfl, fun hf => ?_, fun key j => ?_⟩
    · exact ⟨hf.account, hf.program, hf.signature, hfilled hf.logsMentions⟩
    · cases key <;> simp [SubscriptionsIndex.ids, SubscribeConfig.key, hcount]
  case signature =>
    obtain ⟨map, hmap, hfilled, hcount⟩ := SubscriptionsIndex.bucketRemove_ok index.signature h
    refine ⟨_, by rw [SubscriptionsIndex.remove, hmap]; rfl, fun hf => ?_, fun key j => ?_⟩
    · exact ⟨hf.account, hf.program, hfilled hf.signature, hf.logsMentions⟩
    · cases key <;> simp [SubscriptionsIndex.ids, SubscribeConfig.key, hcount]
  case logs.all | logs.allWithVotes =>
    have hmem : index.logsAll.contains id := SortedMap.contains_iff.mpr h
    refine ⟨_, if_pos hmem, fun hf => ⟨hf.1, hf.2, hf.3, hf.4⟩, fun key j => ?_⟩
    · cases key <;> simp [SubscriptionsIndex.ids, SubscribeConfig.key, hall]
  all_goals
    have hmem : (index.unkeyed (SubscribeConfig.method _)).contains id := SortedMap.contains_iff.mpr h
    refine ⟨_, if_pos hmem, fun hf => ⟨hf.1, hf.2, hf.3, hf.4⟩, fun key j => ?_⟩
    cases key <;> simp [SubscriptionsIndex.ids, SubscribeConfig.key, hmethod]

theorem remove (h : SubscriptionsIndexed index entry) (hid : entry id = some config.key) :
    ∃ index', index.remove id config = .ok index' ∧
      SubscriptionsIndexed index' (Function.update entry id none) := by
  obtain ⟨index', hremove, hfilled, hcount⟩ := remove_ok (h.mem_ids.mpr hid)
  refine ⟨index', hremove, fun key j => ?_, hfilled h.filled⟩
  rw [hcount, h.count]
  by_cases hj : j = id
  · subst hj
    rw [hid, Function.update_self]
    by_cases hkey : key = config.key
    · simp [hkey]
    · simp [hkey, Ne.symm hkey]
  · rw [Function.update_of_ne hj]
    simp [hj]

/-- An index without entries. -/
theorem eq_default (h : SubscriptionsIndexed index fun _ => none) : index = .default := by
  have hids : ∀ key, index.ids key = [] := fun key => by
    refine List.eq_nil_iff_forall_not_mem.mpr fun id hid => ?_
    rw [h.mem_ids] at hid
    cases hid
  have hset : ∀ ids : IntSet, ids.keys = [] → ids = .empty := fun ids hnil =>
    SortedMap.eq_empty (SortedMap.keys_eq_nil.mp hnil)
  obtain ⟨account, program, signature, logsMentions, logsAll, unkeyed⟩ := index
  obtain ⟨haccount, hprogram, hsignature, hmentions⟩ := h.filled
  have h₁ : account = ∅ := haccount.eq_empty fun key => hids (.account key)
  have h₂ : program = ∅ := hprogram.eq_empty fun key => hids (.program key)
  have h₃ : signature = ∅ := hsignature.eq_empty fun key => hids (.signature key)
  have h₄ : logsMentions = ∅ := hmentions.eq_empty fun key => hids (.mention key)
  have h₅ : logsAll = .empty := hset _ (hids .logsAll)
  have h₆ : unkeyed = fun _ => .empty := funext fun method => hset _ (hids (.unkeyed method))
  rw [h₁, h₂, h₃, h₄, h₅, h₆]
  rfl

end SubscriptionsIndexed

/-! ### Both sides of a subscription -/

namespace Subscriptions

/-- The client lists the subscription. -/
def Listed (s : Subscriptions) (client : ClientId) (id : SubscriptionId) : Prop :=
  ∃ info, s.clients.get? client = some info ∧ info.subscriptions.contains id

/-- The subscription lists the client. -/
def Lists (s : Subscriptions) (id : SubscriptionId) (client : ClientId) : Prop :=
  ∃ sub, s.subscriptions.get? id = some sub ∧ sub.clients.contains client

/-- **The four structures are consistent**: clients and subscriptions list each other; a subscription has
a client, one entry by its config, and one in the index, at its own level and key; without clients
nothing is left. -/
structure Consistent (hash : SubscribeConfig → ℕ) (s : Subscriptions) : Prop where
  linked : ∀ client id, s.Listed client id ↔ s.Lists id client
  subscription : ∀ id sub, s.subscriptions.get? id = some sub →
    (∃ client, sub.clients.contains client) ∧
    (∀ h, s.subscriptionsByConfig.get? h = some id ↔ h = hash sub.config) ∧
    ∀ level key, ((s.index level).ids key).count id =
      if level = sub.config.commitmentLevel ∧ key = sub.config.key then 1 else 0
  empty : s.clients = .empty →
    s.subscriptionsByConfig = .empty ∧ s.subscriptions = .empty ∧ ∀ level, s.index level = .default

/-- The key of a subscription in the index of a level. -/
def entry (subscriptions : IntMap SubscriptionInfo) (level : CommitmentLevel) (id : SubscriptionId) :
    Option IndexKey :=
  (subscriptions.get? id).bind fun sub =>
    if sub.config.commitmentLevel = level then some sub.config.key else none

/-- The subscriptions with their entries by config and in the index. -/
structure Stored (hash : SubscribeConfig → ℕ) (s : Subscriptions) : Prop where
  info : ∀ id sub, s.subscriptions.get? id = some sub →
    sub.configHash = hash sub.config ∧ id < s.subscriptionId
  byConfig : ∀ h id, s.subscriptionsByConfig.get? h = some id ↔
    ∃ sub, s.subscriptions.get? id = some sub ∧ sub.configHash = h
  index : ∀ level, SubscriptionsIndexed (s.index level) (entry s.subscriptions level)

/-- Every subscription has a client. -/
def Occupied (s : Subscriptions) : Prop :=
  ∀ id sub, s.subscriptions.get? id = some sub → ∃ client, sub.clients.contains client

section Operations

variable {hash : SubscribeConfig → ℕ} {s : Subscriptions} {id : SubscriptionId} {client : ClientId}
  {sub : SubscriptionInfo}

theorem entry_insert_clients (hsub : s.subscriptions.get? id = some sub) (clients : IntSet)
    (level : CommitmentLevel) :
    entry (s.subscriptions.insert id { sub with clients }) level = entry s.subscriptions level := by
  funext j
  unfold entry
  rw [SortedMap.get?_insert]
  by_cases hj : j = id
  · subst hj
    rw [if_pos rfl, hsub]
    rfl
  · rw [if_neg hj]

/-- Who the clients of a subscription are does not matter to its entries. -/
theorem Stored.setClients (h : Stored hash s) (hsub : s.subscriptions.get? id = some sub)
    (clients : IntSet) :
    Stored hash { s with subscriptions := s.subscriptions.insert id { sub with clients } } where
  info := by
    intro j sub' hget
    simp only [SortedMap.get?_insert] at hget
    split at hget
    · rename_i hj
      cases hget
      exact hj ▸ h.info id sub hsub
    · exact h.info j sub' hget
  byConfig := by
    intro x j
    rw [h.byConfig]
    simp only [SortedMap.get?_insert]
    by_cases hj : j = id
    · subst hj
      simp [hsub]
    · simp [hj]
  index := by
    intro level
    rw [entry_insert_clients hsub]
    exact h.index level

theorem dropSubscription_ok (h : Stored hash s) (hsub : s.subscriptions.get? id = some sub) :
    ∃ s', s.dropSubscription id = .ok (s', sub.clients) ∧ Stored hash s' ∧
      s'.subscriptions = s.subscriptions.erase id ∧ s'.clients = s.clients ∧
      s'.subscriptionId = s.subscriptionId := by
  have hby := (h.byConfig sub.configHash id).mpr ⟨sub, hsub, rfl⟩
  have hentry : entry s.subscriptions sub.config.commitmentLevel id = some sub.config.key := by
    simp [entry, hsub]
  obtain ⟨index, hremove, hindex⟩ := (h.index sub.config.commitmentLevel).remove hentry
  have hcontains : s.subscriptionsByConfig.contains sub.configHash := by
    rw [SortedMap.contains, hby]
    rfl
  unfold dropSubscription
  simp only [hsub, hcontains, not_true_eq_false, if_false, hremove]
  refine ⟨_, rfl, ⟨?_, ?_, ?_⟩, rfl, rfl, rfl⟩
  · intro j sub' hget
    simp only [SortedMap.get?_erase] at hget
    split at hget
    · cases hget
    · exact h.info j sub' hget
  · intro x j
    simp only [SortedMap.get?_erase]
    by_cases hx : x = sub.configHash
    · subst hx
      rw [if_pos rfl]
      constructor
      · intro hnone
        cases hnone
      · rintro ⟨sub', hget, hhash⟩
        split at hget
        · cases hget
        · rename_i hj
          have hby' := (h.byConfig sub.configHash j).mpr ⟨sub', hget, hhash⟩
          rw [hby] at hby'
          exact absurd (Option.some.inj hby').symm hj
    · rw [if_neg hx, h.byConfig]
      by_cases hj : j = id
      · subst hj
        simp [hsub, Ne.symm hx]
      · simp [hj]
  · intro level
    have herase : entry (s.subscriptions.erase id) level =
        Function.update (entry s.subscriptions level) id none := by
      funext j
      unfold entry
      rw [SortedMap.get?_erase]
      by_cases hj : j = id
      · subst hj
        simp
      · simp [hj]
    dsimp only
    rw [herase]
    by_cases hlevel : level = sub.config.commitmentLevel
    · subst hlevel
      rw [Function.update_self]
      exact hindex
    · rw [Function.update_of_ne hlevel, Function.update_eq_self_iff.mpr]
      · exact h.index level
      · simp [entry, hsub, Ne.symm hlevel]

/-- What a removed link leaves. -/
theorem removeClientSubscription_ok (h : Stored hash s) (hoccupied : Occupied s)
    (hlists : s.Lists id client) :
    ∃ s', s.removeClientSubscription id client = .ok s' ∧ Stored hash s' ∧ Occupied s' ∧
      s'.clients = s.clients ∧ s'.subscriptionId = s.subscriptionId ∧
      ∀ j c, s'.Lists j c ↔ s.Lists j c ∧ ¬ (j = id ∧ c = client) := by
  obtain ⟨sub, hsub, hclient⟩ := hlists
  have hset := h.setClients hsub (sub.clients.erase client)
  unfold removeClientSubscription
  simp only [hsub, hclient]
  simp only [not_true_eq_false, if_false]
  split
  · rename_i hempty
    have hnone : ∀ c, (sub.clients.erase client).contains c = false := fun c => by
      rw [← Bool.not_eq_true, SortedMap.contains_iff, List.isEmpty_iff.mp hempty]
      exact List.not_mem_nil
    obtain ⟨s', hdrop, hstored, hsubs, hclients, hid⟩ := dropSubscription_ok hset
      (SortedMap.get?_insert_self ..)
    rw [hdrop]
    refine ⟨s', rfl, hstored, ?_, hclients, hid, ?_⟩
    · intro j sub' hget
      rw [hsubs, SortedMap.get?_erase] at hget
      split at hget
      · cases hget
      · rename_i hj
        rw [SortedMap.get?_insert_of_ne _ _ hj] at hget
        exact hoccupied j sub' hget
    · intro j c
      unfold Lists
      rw [hsubs]
      simp only [SortedMap.get?_erase, SortedMap.get?_insert]
      by_cases hj : j = id
      · subst hj
        have hc := hnone c
        rw [SortedMap.contains_erase] at hc
        simp only [if_true, hsub, Option.some.injEq, exists_eq_left', true_and]
        constructor
        · rintro ⟨_, hget, -⟩
          cases hget
        · rintro ⟨hcontains, hne⟩
          simp [hcontains, hne] at hc
      · simp [hj]
  · rename_i hempty
    refine ⟨_, rfl, hset, ?_, rfl, rfl, ?_⟩
    · intro j sub' hget
      simp only [SortedMap.get?_insert] at hget
      split at hget
      · cases hget
        obtain ⟨c, hc⟩ := List.exists_mem_of_ne_nil _ (fun hnil => hempty (List.isEmpty_iff.mpr hnil))
        exact ⟨c, SortedMap.contains_iff.mpr hc⟩
      · exact hoccupied j sub' hget
    · intro j c
      unfold Lists
      simp only [SortedMap.get?_insert]
      by_cases hj : j = id
      · subst hj
        simp only [if_true, hsub, Option.some.injEq, exists_eq_left', true_and,
          SortedMap.contains_erase, Bool.and_eq_true, Bool.not_eq_true', decide_eq_false_iff_not]
        exact and_comm
      · simp [hj]

/-- The clients change, the subscriptions do not. -/
theorem Stored.of_clients {s' : Subscriptions} (h : Stored hash s)
    (hsubs : s'.subscriptions = s.subscriptions)
    (hby : s'.subscriptionsByConfig = s.subscriptionsByConfig) (hindex : s'.index = s.index)
    (hid : s.subscriptionId ≤ s'.subscriptionId) : Stored hash s' where
  info := by
    rw [hsubs]
    exact fun j sub hget => ⟨(h.info j sub hget).1, (h.info j sub hget).2.trans_le hid⟩
  byConfig := by
    rw [hsubs, hby]
    exact h.byConfig
  index := by
    rw [hsubs, hindex]
    exact h.index

theorem removeClientSubscriptions_ok : ∀ {ids : List SubscriptionId} {s : Subscriptions},
    Stored hash s → Occupied s → ids.Nodup → (∀ j ∈ ids, s.Lists j client) →
    ∃ s', removeClientSubscriptions client ids s = .ok s' ∧ Stored hash s' ∧ Occupied s' ∧
      s'.clients = s.clients ∧ s'.subscriptionId = s.subscriptionId ∧
      ∀ j c, s'.Lists j c ↔ s.Lists j c ∧ ¬ (j ∈ ids ∧ c = client)
  | [], s, h, hoccupied, _, _ => ⟨s, rfl, h, hoccupied, rfl, rfl, by simp⟩
  | id :: ids, s, h, hoccupied, hnodup, hlists => by
    obtain ⟨hid, hnodup⟩ := List.nodup_cons.mp hnodup
    obtain ⟨s₁, h₁, hstored₁, hoccupied₁, hclients₁, hid₁, hlists₁⟩ :=
      removeClientSubscription_ok h hoccupied (hlists id List.mem_cons_self)
    have hrest : ∀ j ∈ ids, s₁.Lists j client := fun j hj =>
      (hlists₁ j client).mpr ⟨hlists j (List.mem_cons_of_mem _ hj), fun heq => hid (heq.1 ▸ hj)⟩
    obtain ⟨s₂, h₂, hstored₂, hoccupied₂, hclients₂, hid₂, hlists₂⟩ :=
      removeClientSubscriptions_ok hstored₁ hoccupied₁ hnodup hrest
    refine ⟨s₂, by rw [removeClientSubscriptions, h₁]; exact h₂, hstored₂, hoccupied₂,
      hclients₂.trans hclients₁, hid₂.trans hid₁, fun j c => ?_⟩
    rw [hlists₂, hlists₁]
    simp only [List.mem_cons]
    tauto

/-- The invariant of the subscriptions. -/
structure Inv (hash : SubscribeConfig → ℕ) (s : Subscriptions) : Prop where
  stored : Stored hash s
  occupied : Occupied s
  linked : ∀ client id, s.Listed client id ↔ s.Lists id client

/-- What an operation leaves of the clients and the links. -/
structure Changes (s s' : Subscriptions) (clients : ClientId → Prop)
    (links : ClientId → SubscriptionId → Prop) : Prop where
  sender : ∀ c sender, (∃ info, s'.clients.get? c = some info ∧ info.sender = sender) ↔
    clients c ∧ ∃ info, s.clients.get? c = some info ∧ info.sender = sender
  listed : ∀ c id, s'.Listed c id ↔ s.Listed c id ∧ links c id
  subscriptionId : s'.subscriptionId = s.subscriptionId

theorem removeClient_ok (h : Inv hash s) (client : ClientId) :
    ∃ s', s.removeClient client = .ok s' ∧ Inv hash s' ∧
      Changes s s' (· ≠ client) fun c _ => c ≠ client := by
  unfold removeClient
  cases hget : s.clients.get? client with
  | none =>
    have hne : ∀ c info, s.clients.get? c = some info → c ≠ client := by
      rintro c info hc rfl
      rw [hget] at hc
      cases hc
    refine ⟨s, rfl, h, fun c sender => ⟨?_, And.right⟩, fun c id => ⟨?_, And.left⟩, rfl⟩
    · rintro ⟨info, hc, hsender⟩
      exact ⟨hne c info hc, info, hc, hsender⟩
    · rintro ⟨info, hc, hid⟩
      exact ⟨⟨info, hc, hid⟩, hne c info hc⟩
  | some info =>
    have hstored : Stored hash { s with clients := s.clients.erase client } :=
      h.stored.of_clients rfl rfl rfl le_rfl
    have hlists : ∀ j ∈ info.subscriptions.keys,
        Lists { s with clients := s.clients.erase client } j client := fun j hj =>
      (h.linked client j).mp ⟨info, hget, SortedMap.contains_iff.mpr hj⟩
    obtain ⟨s', hremove, hstored', hoccupied', hclients', hid', hlists'⟩ :=
      removeClientSubscriptions_ok hstored h.occupied info.subscriptions.nodup_keys hlists
    have hlisted : ∀ c j, s'.Listed c j ↔ s.Listed c j ∧ c ≠ client := by
      intro c j
      unfold Listed
      rw [hclients']
      simp only [SortedMap.get?_erase]
      by_cases hc : c = client <;> simp [hc]
    refine ⟨s', hremove, ⟨hstored', hoccupied', fun c j => ?_⟩, fun c sender => ?_, hlisted, hid'⟩
    · rw [hlisted, hlists', h.linked]
      refine and_congr_right fun hlist => not_congr ⟨?_, And.right⟩
      rintro rfl
      obtain ⟨info', hget', hj⟩ := (h.linked c j).mpr hlist
      rw [hget] at hget'
      cases hget'
      exact ⟨SortedMap.contains_iff.mp hj, rfl⟩
    · rw [hclients']
      simp only [SortedMap.get?_erase]
      by_cases hc : c = client <;> simp [hc]

/-- A client does not list the subscription anymore. -/
theorem listed_unlist {info : ClientInfo} (hget : s.clients.get? client = some info)
    (id : SubscriptionId) (c : ClientId) (j : SubscriptionId) :
    Listed { s with
      clients := s.clients.insert client ⟨info.sender, info.subscriptions.erase id⟩ } c j ↔
      s.Listed c j ∧ ¬ (c = client ∧ j = id) := by
  unfold Listed
  simp only [SortedMap.get?_insert]
  by_cases hc : c = client
  · subst hc
    simp only [if_true, Option.some.injEq, exists_eq_left', hget, true_and,
      SortedMap.contains_erase, Bool.and_eq_true, Bool.not_eq_true', decide_eq_false_iff_not]
    exact and_comm
  · simp [hc]

theorem removeSubscriptionClients_ok : ∀ {clients : List ClientId} {s : Subscriptions},
    clients.Nodup → (∀ c ∈ clients, s.Listed c id) →
    ∃ s', removeSubscriptionClients id clients s = .ok s' ∧ s'.subscriptions = s.subscriptions ∧
      s'.subscriptionsByConfig = s.subscriptionsByConfig ∧ s'.index = s.index ∧
      Changes s s' (fun _ => True) fun c j => ¬ (c ∈ clients ∧ j = id)
  | [], s, _, _ => ⟨s, rfl, rfl, rfl, rfl, ⟨by simp, by simp, rfl⟩⟩
  | client :: clients, s, hnodup, hlisted => by
    obtain ⟨hclient, hnodup⟩ := List.nodup_cons.mp hnodup
    obtain ⟨info, hget, hcontains⟩ := hlisted client List.mem_cons_self
    unfold removeSubscriptionClients
    simp only [hget, hcontains, not_true_eq_false, if_false]
    have hlisted₁ := listed_unlist hget id
    obtain ⟨s', hrest, hsubs, hby, hindex, hchanges⟩ := removeSubscriptionClients_ok hnodup
      fun c hc => (hlisted₁ c id).mpr
        ⟨hlisted c (List.mem_cons_of_mem _ hc), fun heq => hclient (heq.1 ▸ hc)⟩
    refine ⟨s', hrest, hsubs, hby, hindex, fun c sender => ?_, fun c j => ?_, hchanges.subscriptionId⟩
    · rw [hchanges.sender, true_and, true_and]
      simp only [SortedMap.get?_insert]
      by_cases hc : c = client
      · subst hc
        simp [hget]
      · simp [hc]
    · rw [hchanges.listed, hlisted₁]
      simp only [List.mem_cons]
      tauto

theorem removeSubscription_ok (h : Inv hash s) (hsub : s.subscriptions.get? id = some sub) :
    ∃ s', s.removeSubscription id = .ok s' ∧ Inv hash s' ∧
      Changes s s' (fun _ => True) fun _ j => j ≠ id := by
  obtain ⟨s₁, h₁, hstored₁, hsubs₁, hclients₁, hid₁⟩ := dropSubscription_ok h.stored hsub
  have hlisted₁ : ∀ c j, s₁.Listed c j ↔ s.Listed c j := fun c j => by rw [Listed, hclients₁, Listed]
  have hall : ∀ c ∈ sub.clients.keys, s₁.Listed c id := fun c hc =>
    (hlisted₁ c id).mpr ((h.linked c id).mpr ⟨sub, hsub, SortedMap.contains_iff.mpr hc⟩)
  obtain ⟨s₂, h₂, hsubs₂, hby₂, hindex₂, hchanges⟩ :=
    removeSubscriptionClients_ok sub.clients.nodup_keys hall
  have hlisted₂ : ∀ c j, s₂.Listed c j ↔ s.Listed c j ∧ j ≠ id := by
    intro c j
    rw [hchanges.listed, hlisted₁]
    refine and_congr_right fun hlisted => not_congr ⟨And.right, ?_⟩
    rintro rfl
    obtain ⟨sub', hsub', hc⟩ := (h.linked c j).mp hlisted
    rw [hsub] at hsub'
    cases hsub'
    exact ⟨SortedMap.contains_iff.mp hc, rfl⟩
  have hget₂ : ∀ j, s₂.subscriptions.get? j = if j = id then none else s.subscriptions.get? j :=
    fun j => by rw [hsubs₂, hsubs₁, SortedMap.get?_erase]
  refine ⟨s₂, by rw [removeSubscription, h₁]; exact h₂,
    ⟨hstored₁.of_clients hsubs₂ hby₂ hindex₂ hchanges.subscriptionId.ge, fun j sub' hget => ?_,
      fun c j => ?_⟩, fun c sender => ?_, hlisted₂, hchanges.subscriptionId.trans hid₁⟩
  · rw [hget₂] at hget
    split at hget
    · cases hget
    · exact h.occupied j sub' hget
  · rw [hlisted₂, h.linked]
    unfold Lists
    rw [hget₂]
    by_cases hj : j = id <;> simp [hj]
  · rw [hchanges.sender, hclients₁]

theorem unsubscribe_ok (h : Inv hash s) (client : ClientId) (id : SubscriptionId) :
    ∃ s' removed, s.unsubscribe client id = .ok (s', removed) ∧ Inv hash s' ∧
      Changes s s' (fun _ => True) (fun c j => ¬ (c = client ∧ j = id)) ∧
      (removed ↔ s.Listed client id) := by
  unfold unsubscribe
  cases hget : s.clients.get? client with
  | none =>
    have hno : ¬ s.Listed client id := by
      rintro ⟨info, hget', -⟩
      rw [hget] at hget'
      cases hget'
    refine ⟨s, false, rfl, h, ⟨by simp, fun c j => ?_, rfl⟩, by simpa using hno⟩
    refine ⟨fun hlisted => ⟨hlisted, ?_⟩, And.left⟩
    rintro ⟨rfl, rfl⟩
    exact hno hlisted
  | some info =>
    simp only
    split
    · rename_i hcontains
      have hlisted₁ := listed_unlist hget id
      have hlisted : s.Listed client id := ⟨info, hget, hcontains⟩
      have hstored : Stored hash { s with
          clients := s.clients.insert client ⟨info.sender, info.subscriptions.erase id⟩ } :=
        h.stored.of_clients rfl rfl rfl le_rfl
      obtain ⟨s', hremove, hstored', hoccupied', hclients', hid', hlists'⟩ :=
        removeClientSubscription_ok hstored h.occupied ((h.linked client id).mp hlisted)
      have hlisted' : ∀ c j, s'.Listed c j ↔ s.Listed c j ∧ ¬ (c = client ∧ j = id) := fun c j => by
        rw [← hlisted₁, Listed, hclients', Listed]
      refine ⟨s', true, by rw [hremove], ⟨hstored', hoccupied', fun c j => ?_⟩,
        ⟨fun c sender => ?_, hlisted', hid'⟩, by simpa using hlisted⟩
      · rw [hlisted', hlists', h.linked, and_comm (a := j = id)]
        rfl
      · rw [hclients']
        simp only [SortedMap.get?_insert]
        by_cases hc : c = client
        · subst hc
          simp [hget]
        · simp [hc]
    · rename_i hcontains
      have hno : ¬ s.Listed client id := by
        rintro ⟨info', hget', hid⟩
        rw [hget] at hget'
        cases hget'
        exact hcontains hid
      refine ⟨s, false, rfl, h, ⟨by simp, fun c j => ?_, rfl⟩, by simpa using hno⟩
      refine ⟨fun hlisted => ⟨hlisted, ?_⟩, And.left⟩
      rintro ⟨rfl, rfl⟩
      exact hno hlisted

/-- What a subscribe adds. -/
structure Adds (s s' : Subscriptions) (client : ClientId) (id : SubscriptionId) : Prop where
  sender : ∀ c sender, (∃ info, s'.clients.get? c = some info ∧ info.sender = sender) ↔
    ∃ info, s.clients.get? c = some info ∧ info.sender = sender
  listed : ∀ c j, s'.Listed c j ↔ s.Listed c j ∨ (c = client ∧ j = id)
  subscriptionId : s.subscriptionId ≤ s'.subscriptionId

theorem listed_list {s' : Subscriptions} {info : ClientInfo} (hget : s.clients.get? client = some info)
    (hclients : s'.clients =
      s.clients.insert client { info with subscriptions := info.subscriptions.insert id () })
    (hid : s.subscriptionId ≤ s'.subscriptionId) : Adds s s' client id where
  sender := by
    intro c sender
    rw [hclients]
    simp only [SortedMap.get?_insert]
    by_cases hc : c = client
    · subst hc
      simp [hget]
    · simp [hc]
  listed := by
    intro c j
    unfold Listed
    rw [hclients]
    simp only [SortedMap.get?_insert]
    by_cases hc : c = client
    · subst hc
      simp only [if_true, Option.some.injEq, exists_eq_left', hget, true_and,
        SortedMap.contains_insert, Bool.or_eq_true, decide_eq_true_eq]
      exact or_comm
    · simp [hc]
  subscriptionId := hid

/-- A subscription that is there is joined. -/
theorem join_ok (h : Inv hash s) {info : ClientInfo} (hget : s.clients.get? client = some info)
    (hsub : s.subscriptions.get? id = some sub) {s' : Subscriptions}
    (hs' : s' = { s with
      clients := s.clients.insert client { info with subscriptions := info.subscriptions.insert id () }
      subscriptions := s.subscriptions.insert id
        { sub with clients := sub.clients.insert client () } }) :
    Inv hash s' ∧ Adds s s' client id := by
  have hadds : Adds s s' client id := by
    refine listed_list hget ?_ ?_ <;> rw [hs']
  refine ⟨⟨?_, fun j sub' hj => ?_, fun c j => ?_⟩, hadds⟩
  · refine (h.stored.setClients hsub (sub.clients.insert client ())).of_clients ?_ ?_ ?_ ?_ <;> rw [hs']
  · simp only [hs', SortedMap.get?_insert] at hj
    split at hj
    · cases hj
      exact ⟨client, by simp⟩
    · exact h.occupied j sub' hj
  · rw [hadds.listed, h.linked]
    simp only [Lists, hs', SortedMap.get?_insert]
    by_cases hj : j = id
    · subst hj
      simp only [if_true, Option.some.injEq, exists_eq_left', hsub, and_true,
        SortedMap.contains_insert, Bool.or_eq_true, decide_eq_true_eq]
      exact or_comm
    · simp [hj]

/-- A subscription is made. -/
theorem create_ok (h : Inv hash s) {config : SubscribeConfig} {info : ClientInfo}
    (hget : s.clients.get? client = some info)
    (hnone : s.subscriptionsByConfig.get? (hash config) = none) {s' : Subscriptions}
    (hs' : s' = { s with
      subscriptionId := s.subscriptionId + 1
      clients := s.clients.insert client
        { info with subscriptions := info.subscriptions.insert s.subscriptionId () }
      subscriptionsByConfig := s.subscriptionsByConfig.insert (hash config) s.subscriptionId
      index := Function.update s.index config.commitmentLevel
        ((s.index config.commitmentLevel).insert s.subscriptionId config)
      subscriptions := s.subscriptions.insert s.subscriptionId
        ⟨s.subscriptionId, hash config, config, SortedMap.empty.insert client ()⟩ }) :
    Inv hash s' ∧ Adds s s' client s.subscriptionId := by
  have hfresh : s.subscriptions.get? s.subscriptionId = none := by
    cases hsub : s.subscriptions.get? s.subscriptionId with
    | none => rfl
    | some sub => exact absurd (h.stored.info _ sub hsub).2 (lt_irrefl _)
  have hadds : Adds s s' client s.subscriptionId := by
    refine listed_list hget ?_ ?_ <;> rw [hs']
    exact Nat.le_succ _
  refine ⟨⟨⟨fun j sub' hj => ?_, fun x j => ?_, fun level => ?_⟩, fun j sub' hj => ?_, fun c j => ?_⟩,
    hadds⟩
  · simp only [hs', SortedMap.get?_insert] at hj ⊢
    split at hj
    · rename_i hid
      cases hj
      exact ⟨rfl, hid ▸ Nat.lt_succ_self _⟩
    · exact ⟨(h.stored.info j sub' hj).1, (h.stored.info j sub' hj).2.trans (Nat.lt_succ_self _)⟩
  · simp only [hs', SortedMap.get?_insert]
    by_cases hx : x = hash config
    · subst hx
      rw [if_pos rfl]
      by_cases hj : j = s.subscriptionId
      · simp [hj]
      · rw [if_neg hj, ← h.stored.byConfig, hnone]
        simp [Ne.symm hj]
    · rw [if_neg hx, h.stored.byConfig]
      by_cases hj : j = s.subscriptionId
      · subst hj
        simp [hfresh, Ne.symm hx]
      · simp [hj]
  · have hentry : ∀ l, entry s'.subscriptions l = Function.update (entry s.subscriptions l)
        s.subscriptionId (if config.commitmentLevel = l then some config.key else none) := by
      intro l
      funext j
      simp only [entry, hs', SortedMap.get?_insert]
      by_cases hj : j = s.subscriptionId
      · subst hj
        simp
      · simp [hj, entry]
    have hno : entry s.subscriptions level s.subscriptionId = none := by simp [entry, hfresh]
    rw [hentry]
    simp only [hs']
    by_cases hlevel : level = config.commitmentLevel
    · subst hlevel
      rw [Function.update_self, if_pos rfl]
      exact (h.stored.index _).insert hno config
    · rw [Function.update_of_ne hlevel, if_neg (Ne.symm hlevel), Function.update_eq_self_iff.mpr hno.symm]
      exact h.stored.index level
  · simp only [hs', SortedMap.get?_insert] at hj
    split at hj
    · cases hj
      exact ⟨client, by simp⟩
    · exact h.occupied j sub' hj
  · rw [hadds.listed, h.linked]
    simp only [Lists, hs', SortedMap.get?_insert]
    by_cases hj : j = s.subscriptionId
    · subst hj
      simp only [if_true, hfresh, SortedMap.contains_insert, SortedMap.contains_empty, Bool.or_false,
        Option.some.injEq, exists_eq_left', decide_eq_true_eq, reduceCtorEq, false_and, exists_false,
        false_or, and_true]
    · simp [hj]

/-- The next id is given away. -/
theorem skip_ok (h : Inv hash s) : Inv hash { s with subscriptionId := s.subscriptionId + 1 } :=
  ⟨h.stored.of_clients rfl rfl rfl (Nat.le_succ _), h.occupied, h.linked⟩

theorem default_inv : Inv hash .default where
  stored := by
    refine ⟨(fun id sub hget => by cases hget), fun x id => ?_, fun level => SubscriptionsIndexed.default⟩
    simp [default]
  occupied := by
    intro id sub hget
    cases hget
  linked := by
    intro c id
    simp [Listed, Lists, default]

/-- A new client. -/
theorem register_inv (h : Inv hash s) (hnone : s.clients.get? client = none) (sender : ℕ) :
    Inv hash { s with clients := s.clients.insert client ⟨sender, .empty⟩ } := by
  refine ⟨h.stored.of_clients rfl rfl rfl le_rfl, h.occupied, fun c j => ?_⟩
  refine Iff.trans ?_ (h.linked c j)
  unfold Listed
  simp only [SortedMap.get?_insert]
  by_cases hc : c = client
  · subst hc
    simp [hnone]
  · simp [hc]

theorem Inv.holds (h : Inv hash s) : Consistent hash s where
  linked := h.linked
  subscription := by
    intro id sub hsub
    refine ⟨h.occupied id sub hsub, fun x => ?_, fun level key => ?_⟩
    · rw [h.stored.byConfig, hsub]
      simp [(h.stored.info id sub hsub).1, eq_comm]
    · rw [(h.stored.index level).count, entry, hsub]
      by_cases hlevel : level = sub.config.commitmentLevel
      · simp [hlevel, eq_comm]
      · simp [hlevel, Ne.symm hlevel]
  empty := by
    intro hclients
    have hsubs : s.subscriptions = .empty := SortedMap.eq_empty fun id => by
      cases hsub : s.subscriptions.get? id with
      | none => rfl
      | some sub =>
        obtain ⟨c, hc⟩ := h.occupied id sub hsub
        obtain ⟨info, hget, -⟩ := (h.linked c id).mpr ⟨sub, hsub, hc⟩
        rw [hclients] at hget
        cases hget
    refine ⟨SortedMap.eq_empty fun x => ?_, hsubs, fun level => ?_⟩
    · cases hby : s.subscriptionsByConfig.get? x with
      | none => rfl
      | some id =>
        obtain ⟨sub, hsub, -⟩ := (h.stored.byConfig x id).mp hby
        rw [hsubs] at hsub
        cases hsub
    · have hindex := h.stored.index level
      rw [hsubs] at hindex
      exact hindex.eq_default

end Operations

end Subscriptions

/-! ### The worker -/

namespace Tracker

open Subscriptions

variable {hash : SubscribeConfig → ℕ} {encode : SubscriptionId → CachedSignature → String}
  {t : Tracker} {s : Subscriptions} {client : ClientId} {id : SubscriptionId}

/-- What a registration does: the client is there, without subscriptions. -/
structure Registers (s s' : Subscriptions) (client : ClientId) (sender : ℕ) : Prop where
  there : s'.clients.get? client = some ⟨sender, .empty⟩
  others : ∀ d info, d ≠ client → s'.clients.get? d = some info →
    ∃ info', s.clients.get? d = some info' ∧ info.sender = info'.sender
  listed : ∀ d j, s'.Listed d j → s.Listed d j
  subscriptionId : s'.subscriptionId = s.subscriptionId

theorem register_ok (h : Inv hash t.subscriptions) (client : ClientId) (maxCount : ℕ) :
    ∃ s, t.register client maxCount = .ok { t with
        subscriptions := s
        channelsLen := t.channelsLen + 1
        channels := Function.update t.channels t.channelsLen (ClientSender.channel maxCount) } ∧
      Inv hash s ∧ Registers t.subscriptions s client t.channelsLen := by
  obtain ⟨s, hremove, hinv, hchanges⟩ := removeClient_ok h client
  have hnone : s.clients.get? client = none := by
    cases hget : s.clients.get? client with
    | none => rfl
    | some info => exact absurd rfl ((hchanges.sender client info.sender).mp ⟨info, hget, rfl⟩).1
  refine ⟨_, by rw [register, hremove]; rfl, register_inv hinv hnone _, ?_, ?_, ?_, ?_⟩
  · exact SortedMap.get?_insert_self ..
  · intro d info hd hget
    rw [SortedMap.get?_insert_of_ne _ _ hd] at hget
    obtain ⟨-, info', hget', hsender⟩ := (hchanges.sender d info.sender).mp ⟨info, hget, rfl⟩
    exact ⟨info', hget', hsender.symm⟩
  · rintro d j ⟨info, hget, hj⟩
    simp only [SortedMap.get?_insert] at hget
    split at hget
    · cases hget
      cases hj
    · exact ((hchanges.listed d j).mp ⟨info, hget, hj⟩).1
  · exact hchanges.subscriptionId

/-- What a subscribe does: the client is not there; or it has the subscription; or the subscription is
final, and its only notification was sent, or found the queue full. -/
inductive Subscribed (t t' : Tracker) (client : ClientId) (id : SubscriptionId) :
    List TrackerEvent → Prop where
  | gone : t.subscriptions.clients.get? client = none → id = t.subscriptions.subscriptionId →
      t' = { t with subscriptions := { t.subscriptions with subscriptionId := id + 1 } } →
      Subscribed t t' client id []
  | added (info : ClientInfo) : t.subscriptions.clients.get? client = some info →
      t' = { t with subscriptions := t'.subscriptions } →
      Adds t.subscriptions t'.subscriptions client id → id < t'.subscriptions.subscriptionId →
      (id = t.subscriptions.subscriptionId ∨ ∃ c, t.subscriptions.Listed c id) →
      Subscribed t t' client id []
  | final (info : ClientInfo) (json : String) (sent : Bool) (notification : RpcNotification) :
      t.subscriptions.clients.get? client = some info → id = t.subscriptions.subscriptionId →
      notification = ⟨id, .signature, true, t.notifications.allocated⟩ →
      sent = (ClientSender.send (t.channels info.sender) notification).2 →
      t' = { t with
        subscriptions := t'.subscriptions
        notifications := (t.notifications.push json).1
        channels := Function.update t.channels info.sender
          (ClientSender.send (t.channels info.sender) notification).1 } →
      Changes { t.subscriptions with subscriptionId := id + 1 } t'.subscriptions
        (fun c => sent ∨ c ≠ client) (fun c _ => sent ∨ c ≠ client) →
      Subscribed t t' client id [⟨client, notification, sent⟩]

theorem subscribe_ok (encode : SubscriptionId → CachedSignature → String)
    (h : Inv hash t.subscriptions) (client : ClientId) (config : SubscribeConfig)
    (signatures : CachedSignatures) :
    ∃ t' id events, t.subscribe hash encode client config signatures = .ok (t', id, events) ∧
      Inv hash t'.subscriptions ∧ Subscribed t t' client id events := by
  unfold subscribe
  simp only
  split
  · rename_i hget
    exact ⟨_, _, _, rfl, skip_ok h, .gone hget rfl rfl⟩
  · rename_i info hget
    split
    · rename_i id hby
      obtain ⟨sub, hsub, -⟩ := (h.stored.byConfig _ _).mp hby
      simp only [hsub]
      obtain ⟨hinv, hadds⟩ := join_ok h hget hsub rfl
      obtain ⟨c, hc⟩ := h.occupied id sub hsub
      exact ⟨_, _, _, rfl, hinv, .added info hget rfl hadds (h.stored.info id sub hsub).2
        (Or.inr ⟨c, (h.linked c id).mpr ⟨sub, hsub, hc⟩⟩)⟩
    · rename_i hby
      split
      · rename_i cached _
        split
        · rename_i hsent
          refine ⟨_, _, _, rfl, skip_ok h, ?_⟩
          refine .final info (encode _ cached) true _ hget rfl rfl hsent.symm rfl ?_
          exact ⟨by simp [setChannel, send], by simp [setChannel, send], rfl⟩
        · rename_i hsent
          obtain ⟨s', hremove, hinv, hchanges⟩ := removeClient_ok (skip_ok h) client
          simp only [hremove]
          refine ⟨_, _, _, rfl, hinv, ?_⟩
          refine .final info (encode _ cached) false _ hget rfl rfl ?_ rfl ?_
          · exact (Bool.not_eq_true _ ▸ hsent).symm
          · simpa using hchanges
      · obtain ⟨hinv, hadds⟩ := create_ok h hget hby rfl
        exact ⟨_, _, _, rfl, hinv, .added info hget rfl hadds (Nat.lt_succ_self _) (Or.inl rfl)⟩

/-- The clients of a subscription are sent the notification, one after the other. -/
theorem sendAll_ok (notification : RpcNotification) : ∀ {clients : List ClientId} {t : Tracker},
    (∀ c ∈ clients, ∃ info, t.subscriptions.clients.get? c = some info) →
    ∃ channels events, sendAll notification clients t = .ok ({ t with channels }, events) ∧
      events.map (·.client) = clients ∧ ∀ e ∈ events, e.notification = notification
  | [], t, _ => ⟨t.channels, [], rfl, rfl, by simp⟩
  | client :: clients, t, h => by
    obtain ⟨info, hget⟩ := h client List.mem_cons_self
    obtain ⟨channels, events, hsend, hclients, hnotification⟩ := sendAll_ok notification
      (t := (t.send info.sender notification).1) fun c hc => h c (List.mem_cons_of_mem _ hc)
    unfold sendAll
    simp only [hget, hsend]
    refine ⟨channels, _, rfl, by simp [hclients], fun e he => ?_⟩
    rcases List.mem_cons.mp he with rfl | he
    · rfl
    · exact hnotification e he

/-- What a client is sent, when every client has a channel of its own. -/
theorem sendAll_channels {notification : RpcNotification} : ∀ {clients : List ClientId} {t t' : Tracker}
    {events : List TrackerEvent}, (∀ c info, t.subscriptions.clients.get? c = some info → info.sender = c) →
    clients.Nodup → sendAll notification clients t = .ok (t', events) → ∀ client,
    (client ∉ clients → t'.channels client = t.channels client ∧ ∀ e ∈ events, e.client ≠ client) ∧
    (client ∈ clients → ∃ sent o₁ o₂, events = o₁ ++ ⟨client, notification, sent⟩ :: o₂ ∧
      (∀ e ∈ o₁, e.client ≠ client) ∧ (∀ e ∈ o₂, e.client ≠ client) ∧
      ClientSender.send (t.channels client) notification = (t'.channels client, sent))
  | [], t, t', events, _, _, h, client => by
    cases h
    exact ⟨fun _ => ⟨rfl, by simp⟩, fun hmem => by cases hmem⟩
  | c :: clients, t, t', events, hsender, hnodup, h, client => by
    obtain ⟨hc, hnodup⟩ := List.nodup_cons.mp hnodup
    unfold sendAll at h
    split at h
    · cases h
    · rename_i info hget
      simp only at h
      split at h
      · cases h
      · rename_i t₁ events₁ hrest
        cases h
        have hself := hsender c info hget
        rw [hself] at hrest
        obtain ⟨hother, hthis⟩ := sendAll_channels
          (t := (t.send c notification).1) hsender hnodup hrest client
        by_cases hcc : client = c
        · subst hcc
          refine ⟨fun hno => absurd List.mem_cons_self hno, fun _ => ?_⟩
          obtain ⟨hchannel, hevents⟩ := hother hc
          refine ⟨_, [], events₁, by rw [hself]; rfl, by simp, hevents, ?_⟩
          rw [hchannel]
          simp [send, setChannel]
        · have hchannel : (t.send c notification).1.channels client = t.channels client := by
            simp [send, setChannel, hcc]
          rw [hchannel] at hother hthis
          refine ⟨fun hno => ?_, fun hmem => ?_⟩
          · obtain ⟨hsame, hevents⟩ := hother fun hmem => hno (List.mem_cons_of_mem _ hmem)
            refine ⟨hsame, fun e he => ?_⟩
            rcases List.mem_cons.mp he with rfl | he
            · exact Ne.symm hcc
            · exact hevents e he
          · obtain ⟨sent, o₁, o₂, rfl, ho₁, ho₂, hsend⟩ :=
              hthis ((List.mem_cons.mp hmem).resolve_left hcc)
            refine ⟨sent, _ :: o₁, o₂, rfl, fun e he => ?_, ho₂, hsend⟩
            rcases List.mem_cons.mp he with rfl | he
            · exact Ne.symm hcc
            · exact ho₁ e he

theorem removeClients_ok : ∀ (clients : List ClientId) {s : Subscriptions}, Inv hash s →
    ∃ s', removeClients clients s = .ok s' ∧ Inv hash s' ∧
      Changes s s' (· ∉ clients) fun c _ => c ∉ clients
  | [], s, h => ⟨s, rfl, h, ⟨by simp, by simp, rfl⟩⟩
  | client :: clients, s, h => by
    obtain ⟨s₁, h₁, hinv₁, hchanges₁⟩ := removeClient_ok h client
    obtain ⟨s₂, h₂, hinv₂, hchanges₂⟩ := removeClients_ok clients hinv₁
    refine ⟨s₂, by rw [removeClients, h₁]; exact h₂, hinv₂, fun c sender => ?_, fun c j => ?_,
      hchanges₂.subscriptionId.trans hchanges₁.subscriptionId⟩
    · rw [hchanges₂.sender, hchanges₁.sender, List.mem_cons, not_or]
      tauto
    · rw [hchanges₂.listed, hchanges₁.listed, List.mem_cons, not_or]
      tauto

/-- What a delivery does: nothing, without the subscription; else the notification goes to its clients,
a final one ends the subscription, and the clients whose queue is full are dropped. -/
theorem deliver_ok (h : Inv hash t.subscriptions) (id : SubscriptionId) (method : SubscribeMethod)
    (isFinal : Bool) (json : String) :
    (t.subscriptions.subscriptions.get? id = none ∧ t.deliver id method isFinal json = .ok (t, [])) ∨
    ∃ sub channels events s, t.subscriptions.subscriptions.get? id = some sub ∧
      sendAll ⟨id, method, isFinal, t.notifications.allocated⟩ sub.clients.keys
        { t with notifications := (t.notifications.push json).1 } =
          .ok ({ t with notifications := (t.notifications.push json).1, channels }, events) ∧
      t.deliver id method isFinal json = .ok ({ t with
        subscriptions := s, notifications := (t.notifications.push json).1, channels }, events) ∧
      Inv hash s ∧
      Changes t.subscriptions s (fun c => ∀ e ∈ events, e.client = c → e.sent)
        (fun c j => ¬ (isFinal ∧ j = id) ∧ ∀ e ∈ events, e.client = c → e.sent) := by
  cases hsub : t.subscriptions.subscriptions.get? id with
  | none => exact Or.inl ⟨rfl, by simp [deliver, hsub]⟩
  | some sub =>
    have hclients : ∀ c ∈ sub.clients.keys, ∃ info, t.subscriptions.clients.get? c = some info := by
      intro c hc
      obtain ⟨info, hget, -⟩ := (h.linked c id).mpr ⟨sub, hsub, SortedMap.contains_iff.mpr hc⟩
      exact ⟨info, hget⟩
    obtain ⟨channels, events, hsend, hevents, hnotification⟩ := sendAll_ok
      ⟨id, method, isFinal, t.notifications.allocated⟩
      (t := { t with notifications := (t.notifications.push json).1 }) hclients
    have hremove : ∃ s, (if isFinal then t.subscriptions.removeSubscription id
        else .ok t.subscriptions) = .ok s ∧ Inv hash s ∧
        Changes t.subscriptions s (fun _ => True) fun _ j => ¬ (isFinal ∧ j = id) := by
      cases isFinal with
      | true =>
        obtain ⟨s, hs, hinv, hchanges⟩ := removeSubscription_ok h hsub
        exact ⟨s, hs, hinv, by simpa using hchanges⟩
      | false => exact ⟨t.subscriptions, rfl, h, ⟨by simp, by simp, rfl⟩⟩
    obtain ⟨s₁, h₁, hinv₁, hchanges₁⟩ := hremove
    obtain ⟨s₂, h₂, hinv₂, hchanges₂⟩ :=
      removeClients_ok ((events.filter (!·.sent)).map (·.client)) hinv₁
    have hlagged : ∀ c, c ∉ (events.filter (!·.sent)).map (·.client) ↔
        ∀ e ∈ events, e.client = c → e.sent := by
      intro c
      simp only [List.mem_map, List.mem_filter, not_exists, not_and, and_imp]
      refine forall₂_congr fun e he => ?_
      cases e.sent <;> simp
    refine Or.inr ⟨sub, channels, events, s₂, rfl, hsend, ?_, hinv₂, fun c sender => ?_, fun c j => ?_,
      hchanges₂.subscriptionId.trans hchanges₁.subscriptionId⟩
    · have hsend' := hsend
      simp only [RpcNotifications.push] at hsend' ⊢
      simp only [deliver, hsub, RpcNotifications.push, hsend', h₁, h₂]
    · rw [hchanges₂.sender, hchanges₁.sender, hlagged, true_and]
    · rw [hchanges₂.listed, hchanges₁.listed, hlagged, and_assoc]

/-- No step fails, and each keeps the invariant. -/
theorem step_ok (h : Inv hash t.subscriptions) (a : TrackerAction) :
    ∃ t' events, step hash encode t a = .ok (t', events) ∧ Inv hash t'.subscriptions := by
  cases a with
  | register client maxCount =>
    obtain ⟨s, hregister, hinv, -⟩ := register_ok h client maxCount
    exact ⟨_, _, by rw [step, hregister]; rfl, hinv⟩
  | subscribe client config signatures =>
    obtain ⟨t', id, events, hsubscribe, hinv, -⟩ := subscribe_ok encode h client config signatures
    exact ⟨_, _, by rw [step, hsubscribe]; rfl, hinv⟩
  | unsubscribe client id =>
    obtain ⟨s, removed, hunsubscribe, hinv, -⟩ := unsubscribe_ok h client id
    exact ⟨_, _, by rw [step, hunsubscribe]; rfl, hinv⟩
  | remove client =>
    obtain ⟨s, hremove, hinv, -⟩ := removeClient_ok h client
    exact ⟨_, _, by rw [step, hremove]; rfl, hinv⟩
  | deliver id method isFinal json =>
    rcases deliver_ok h id method isFinal json with
      ⟨-, hdeliver⟩ | ⟨sub, channels, events, s, -, -, hdeliver, hinv, -⟩
    · exact ⟨_, _, hdeliver, h⟩
    · exact ⟨_, _, hdeliver, hinv⟩
  | recv channel => exact ⟨_, _, rfl, h⟩
  | close channel => exact ⟨_, _, rfl, h⟩

end Tracker

/-- The candidates of a message are subscriptions. -/
theorem Subscriptions.jobs_ok {hash : SubscribeConfig → ℕ} {s : Subscriptions} (h : Inv hash s)
    {level : CommitmentLevel} :
    ∀ {candidates : List (SubscribeMethod × SubscriptionId)},
      (∀ c ∈ candidates, ∃ key, c.2 ∈ (s.index level).ids key) → ∃ jobs, s.jobs candidates = .ok jobs
  | [], _ => ⟨[], rfl⟩
  | (method, id) :: candidates, hids => by
    obtain ⟨key, hkey⟩ := hids (method, id) List.mem_cons_self
    rw [(h.stored.index level).mem_ids] at hkey
    obtain ⟨sub, hsub, -⟩ := Option.bind_eq_some_iff.mp hkey
    obtain ⟨jobs, hjobs⟩ := jobs_ok h fun c hc => hids c (List.mem_cons_of_mem _ hc)
    exact ⟨(method, sub) :: jobs, by simp only [Subscriptions.jobs, hsub, hjobs]; rfl⟩

/-- The candidates of a message are in the index. -/
theorem SubscriptionsIndex.mem_candidates {accountKeys : MessageTransaction → List Pubkey}
    {index : SubscriptionsIndex} {message : ParsedMessage}
    {candidates : List (SubscribeMethod × SubscriptionId)}
    (h : index.candidates accountKeys message = .ok candidates) :
    ∀ c ∈ candidates, ∃ key, c.2 ∈ index.ids key := by
  have hunkeyed : ∀ method, ∀ c ∈ (index.unkeyed method).keys.map (method, ·),
      ∃ key, c.2 ∈ index.ids key := by
    intro method c hc
    obtain ⟨id, hid, rfl⟩ := List.mem_map.mp hc
    exact ⟨.unkeyed method, hid⟩
  have hlogsAll : ∀ c ∈ index.logsAll.keys.map (SubscribeMethod.logs, ·),
      ∃ key, c.2 ∈ index.ids key := by
    intro c hc
    obtain ⟨id, hid, rfl⟩ := List.mem_map.mp hc
    exact ⟨.logsAll, hid⟩
  have hbucket : ∀ (method : SubscribeMethod) (ids : List SubscriptionId) (key : IndexKey),
      ids = index.ids key → ∀ c ∈ ids.map (method, ·), ∃ key, c.2 ∈ index.ids key := by
    rintro method ids key rfl c hc
    obtain ⟨id, hid, rfl⟩ := List.mem_map.mp hc
    exact ⟨key, hid⟩
  have happend : ∀ l l' : List (SubscribeMethod × SubscriptionId),
      (∀ c ∈ l, ∃ key, c.2 ∈ index.ids key) → (∀ c ∈ l', ∃ key, c.2 ∈ index.ids key) →
      ∀ c ∈ l ++ l', ∃ key, c.2 ∈ index.ids key := by
    intro l l' hl hl' c hc
    rcases List.mem_append.mp hc with hc | hc
    · exact hl c hc
    · exact hl' c hc
  unfold SubscriptionsIndex.candidates at h
  simp only at h
  split at h
  · cases h
    exact happend _ _ (happend _ _ (hunkeyed _) (hunkeyed _)) (hunkeyed _)
  · rename_i msg _
    cases h
    exact happend _ _ (hbucket _ _ (.account msg.pubkey) rfl) (hbucket _ _ (.program msg.owner) rfl)
  · rename_i msg _
    -- the two sides of the lookup of the mentions
    have hmentions : ∀ c ∈ (if index.logsMentions.keys.length < (accountKeys msg).length then
        index.logsMentions.entries.flatMap fun entry =>
          if entry.1 ∈ accountKeys msg then ((some entry.2).getD []).map (SubscribeMethod.logs, ·) else []
        else (accountKeys msg).flatMap fun pubkey =>
          ((index.logsMentions.lookup pubkey).getD []).map (SubscribeMethod.logs, ·)),
        ∃ key, c.2 ∈ index.ids key := by
      intro c hc
      split at hc
      · obtain ⟨entry, hentry, hc⟩ := List.mem_flatMap.mp hc
        split at hc
        · have hlookup : index.logsMentions.lookup entry.1 = some entry.2 :=
            AList.mem_lookup_iff.mpr hentry
          refine hbucket .logs _ (.mention entry.1) ?_ c hc
          rw [ids, bucketIds, hlookup]
        · cases hc
      · obtain ⟨pubkey, -, hc⟩ := List.mem_flatMap.mp hc
        exact hbucket .logs _ (.mention pubkey) rfl c hc
    split at h
    · cases h
      exact happend _ _ (happend _ _ hlogsAll hmentions) (hunkeyed _)
    · split at h
      · cases h
      · rename_i signature _
        cases h
        exact happend _ _ (happend _ _ (happend _ _ hlogsAll hmentions)
          (hbucket _ _ (.signature signature) rfl)) (hunkeyed _)
  · cases h
    exact hunkeyed _
  all_goals
    cases h
    intro c hc
    cases hc

/-- **The subscriptions are consistent** after any requests, deliveries and reads of the queues, and none
of these fails; nor does the matching of a message. -/
theorem Tracker.consistent (hash : SubscribeConfig → ℕ)
    (encode : SubscriptionId → CachedSignature → String) (maxCount maxBytes : ℕ)
    (actions : List TrackerAction) :
    ∃ t events, run (Tracker.step hash encode) (.new maxCount maxBytes) actions = .ok (t, events) ∧
      t.subscriptions.Consistent hash ∧
      ∀ accountKeys level message candidates,
        (t.subscriptions.index level).candidates accountKeys message = .ok candidates →
        ∃ jobs, t.subscriptions.jobs candidates = .ok jobs := by
  obtain ⟨t, events, hrun, hinv⟩ := exists_run
    (P := fun t : Tracker => Subscriptions.Inv hash t.subscriptions)
    (fun t a h => step_ok h a) actions (s := .new maxCount maxBytes) Subscriptions.default_inv
  refine ⟨t, events, hrun, hinv.holds, fun accountKeys level message candidates h => ?_⟩
  exact Subscriptions.jobs_ok hinv (SubscriptionsIndex.mem_candidates h)

end Richat
