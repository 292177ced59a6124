import Richat.Pubsub.FilterJob

/-!
# The index agrees with a full scan

`probes` is the keys at which a message is looked up. The candidates are the subscriptions with one of
these keys, each once (`candidates_perm`), and a subscription with another key is not matched by its own
filter (`filterJob_of_not_probed`), so nothing is lost by not looking at it.
-/

namespace Richat

open Lib

/-- The method of the subscriptions at a key. -/
def IndexKey.method : IndexKey → SubscribeMethod
  | account _ => .account
  | program _ => .program
  | signature _ => .signature
  | mention _ => .logs
  | logsAll => .logs
  | unkeyed method => method

theorem SubscribeConfig.method_key (config : SubscribeConfig) : config.key.method = config.method := by
  rcases config with _ | _ | ⟨_ | _ | _, _⟩ | _ | _ | _ | _ | _ | _ <;> rfl

/-- The keys at which a message is looked up. -/
def probes (accountKeys : MessageTransaction → List Pubkey) (message : ParsedMessage) : List IndexKey :=
  match message.message with
  | .slot _ => [.unkeyed .slot, .unkeyed .slotsUpdates, .unkeyed .root]
  | .account msg => [.account msg.pubkey, .program msg.owner]
  | .transaction msg =>
    .logsAll :: ((accountKeys msg).map .mention ++ (msg.signature.toOption.map .signature).toList ++
      [.unkeyed .transaction])
  | .block _ => [.unkeyed .block]
  | .entry _ | .blockMeta _ | .blockFooter _ | .entryUpdateParent _ => []

/-- The subscriptions at some keys, with the method of each key. -/
def SubscriptionsIndex.at (index : SubscriptionsIndex) (keys : List IndexKey) :
    List (SubscribeMethod × SubscriptionId) :=
  keys.flatMap fun key => (index.ids key).map (key.method, ·)

/-- A transaction has a signature, of 64 bytes. -/
def Message.Signed : Message → Prop
  | .transaction msg => ∃ signature, msg.signature = .ok signature
  | _ => True

/-! ### The candidates -/

theorem nodup_probes {accountKeys : MessageTransaction → List Pubkey} (message : ParsedMessage)
    (h : ∀ msg, (accountKeys msg).Nodup) : (probes accountKeys message).Nodup := by
  unfold probes
  split
  case h_3 msg _ =>
    have hmentions : ((accountKeys msg).map IndexKey.mention).Nodup := by
      refine (h msg).map ?_
      intro a b hab
      exact IndexKey.mention.inj hab
    have hfresh : ∀ key ∈ (accountKeys msg).map IndexKey.mention, key ≠ .logsAll ∧
        (∀ signature, key ≠ .signature signature) ∧ ∀ method, key ≠ .unkeyed method := by
      intro key hkey
      obtain ⟨pubkey, -, rfl⟩ := List.mem_map.mp hkey
      simp
    cases msg.signature.toOption <;> grind
  all_goals simp

namespace SubscriptionsIndex

variable {index : SubscriptionsIndex} {keys keys' : List IndexKey}
  {accountKeys : MessageTransaction → List Pubkey} {message : ParsedMessage}

@[simp] theorem at_nil : index.at [] = [] := rfl

@[simp] theorem at_cons (key : IndexKey) :
    index.at (key :: keys) = (index.ids key).map (key.method, ·) ++ index.at keys := rfl

@[simp] theorem at_append : index.at (keys ++ keys') = index.at keys ++ index.at keys' :=
  List.flatMap_append

/-- The map of the mentions is iterated, and the other pubkeys have no subscription. -/
theorem mentions_perm (pubkeys : List Pubkey) (h : pubkeys.Nodup) :
    (index.logsMentions.entries.flatMap fun entry =>
      if entry.1 ∈ pubkeys then entry.2.map (SubscribeMethod.logs, ·) else []).Perm
      (index.at (pubkeys.map .mention)) := by
  have hnodup : index.logsMentions.keys.Nodup := index.logsMentions.nodupKeys
  have hentries : (index.logsMentions.entries.flatMap fun entry =>
      if entry.1 ∈ pubkeys then entry.2.map (SubscribeMethod.logs, ·) else []) =
      index.at ((index.logsMentions.keys.filter (· ∈ pubkeys)).map .mention) := by
    have hlookup : ∀ entry ∈ index.logsMentions.entries, index.ids (.mention entry.1) = entry.2 := by
      intro entry hentry
      have hget : index.logsMentions.lookup entry.1 = some entry.2 := AList.mem_lookup_iff.mpr hentry
      rw [ids, bucketIds, hget, Option.getD_some]
    unfold AList.keys List.keys
    generalize index.logsMentions.entries = entries at hlookup
    induction entries with
    | nil => rfl
    | cons entry entries ih =>
      have htail := ih fun e he => hlookup e (List.mem_cons_of_mem _ he)
      rw [List.flatMap_cons, htail, List.map_cons, List.filter_cons]
      by_cases hmem : entry.1 ∈ pubkeys
      · simp [hmem, hlookup entry List.mem_cons_self, IndexKey.method]
      · simp [hmem]
  have hothers : ∀ l : List Pubkey, index.at (l.map .mention) =
      index.at ((l.filter (· ∈ index.logsMentions.keys)).map .mention) := by
    intro l
    induction l with
    | nil => rfl
    | cons pubkey l ih =>
      rw [List.map_cons, at_cons, ih, List.filter_cons]
      by_cases hmem : pubkey ∈ index.logsMentions.keys
      · simp [hmem]
      · have hnone : index.logsMentions.lookup pubkey = none :=
          AList.lookup_eq_none.mpr fun hin => hmem (AList.mem_keys.mp hin)
        simp [hmem, ids, bucketIds, hnone]
  rw [hentries, hothers pubkeys]
  refine List.Perm.flatMap_right _ (List.Perm.map _ ?_)
  refine (List.perm_ext_iff_of_nodup (hnodup.filter _) (h.filter _)).mpr ?_
  intro pubkey
  simp [and_comm]

/-- The candidates of a message are what the index has at its keys. -/
theorem candidates_perm (hkeys : ∀ msg, (accountKeys msg).Nodup) (hsigned : message.message.Signed) :
    ∃ candidates, index.candidates accountKeys message = .ok candidates ∧
      candidates.Perm (index.at (probes accountKeys message)) := by
  unfold candidates probes
  dsimp only
  cases hmessage : message.message with
  | slot msg => exact ⟨_, rfl, by simp [ids, IndexKey.method]⟩
  | account msg => exact ⟨_, rfl, by simp [ids, IndexKey.method, bucketIds]⟩
  | transaction msg =>
    rw [hmessage] at hsigned
    obtain ⟨signature, hsignature⟩ := hsigned
    dsimp only
    have hmentions : (if index.logsMentions.keys.length < (accountKeys msg).length then
        index.logsMentions.entries.flatMap fun entry =>
          if entry.1 ∈ accountKeys msg then ((some entry.2).getD []).map (SubscribeMethod.logs, ·) else []
        else (accountKeys msg).flatMap fun pubkey =>
          ((index.logsMentions.lookup pubkey).getD []).map (SubscribeMethod.logs, ·)).Perm
        (index.at ((accountKeys msg).map .mention)) := by
      split
      · exact mentions_perm _ (hkeys msg)
      · rw [SubscriptionsIndex.at, List.flatMap_map]
        exact List.Perm.refl _
    split
    · rename_i hempty
      have hnone : index.ids (.signature signature) = [] := by
        have hlookup : index.signature.lookup signature = none := by
          refine AList.lookup_eq_none.mpr ?_
          intro hin
          rw [AList.mem_keys, List.isEmpty_iff.mp hempty] at hin
          cases hin
        rw [ids, bucketIds, hlookup, Option.getD_none]
      refine ⟨_, rfl, ?_⟩
      rw [hsignature]
      simp only [Except.toOption, Option.map_some, Option.toList_some, at_cons, at_append, at_nil, hnone,
        List.map_nil, List.append_nil, List.append_assoc]
      exact List.Perm.append_left _ (hmentions.append_right _)
    · rw [hsignature]
      refine ⟨_, rfl, ?_⟩
      simp only [Except.toOption, Option.map_some, Option.toList_some, at_cons, at_append, at_nil,
        List.append_nil, List.append_assoc]
      exact List.Perm.append_left _ (hmentions.append_right _)
  | block msg => exact ⟨_, rfl, by simp [ids, IndexKey.method]⟩
  | _ => exact ⟨_, rfl, by simp⟩

end SubscriptionsIndex

/-! ### The jobs -/

namespace Subscriptions

variable {hash : SubscribeConfig → ℕ} {s : Subscriptions} {level : CommitmentLevel}

/-- The subscriptions of the candidates, in their order. -/
theorem jobs_eq {candidates : List (SubscribeMethod × SubscriptionId)} :
    ∀ {jobs : List (SubscribeMethod × SubscriptionInfo)}, s.jobs candidates = .ok jobs →
      jobs = candidates.filterMap fun c => (s.subscriptions.get? c.2).map (c.1, ·) := by
  induction candidates with
  | nil =>
    intro jobs h
    cases h
    rfl
  | cons candidate candidates ih =>
    obtain ⟨method, id⟩ := candidate
    intro jobs h
    unfold Subscriptions.jobs at h
    split at h
    · cases h
    · rename_i sub hsub
      cases hrest : s.jobs candidates with
      | error e =>
        rw [hrest] at h
        cases h
      | ok rest =>
        rw [hrest] at h
        cases h
        rw [List.filterMap_cons_some, ← ih hrest]
        simp [hsub]

/-- The subscriptions of a commitment. -/
def ofLevel (s : Subscriptions) (level : CommitmentLevel) : List SubscriptionInfo :=
  s.subscriptions.values.filter (·.config.commitmentLevel = level)

theorem mem_ofLevel {sub : SubscriptionInfo} : sub ∈ s.ofLevel level ↔
    (∃ id, s.subscriptions.get? id = some sub) ∧ sub.config.commitmentLevel = level := by
  unfold ofLevel SortedMap.values
  rw [List.mem_filter, decide_eq_true_eq, List.mem_map]
  refine and_congr_left fun _ => ?_
  constructor
  · rintro ⟨entry, hentry, rfl⟩
    exact ⟨entry.1, SortedMap.get?_eq_some.mpr hentry⟩
  · rintro ⟨id, hget⟩
    exact ⟨⟨id, sub⟩, SortedMap.get?_eq_some.mp hget, rfl⟩

/-- No two subscriptions have the same id. -/
theorem nodup_ofLevel (hids : ∀ id sub, s.subscriptions.get? id = some sub → sub.id = id) :
    ((s.ofLevel level).map (·.id)).Nodup := by
  have hvalues : s.subscriptions.values.map (·.id) = s.subscriptions.keys := by
    unfold SortedMap.values SortedMap.keys List.keys
    rw [List.map_map]
    refine List.map_congr_left fun entry hentry => ?_
    exact hids entry.1 entry.2 (SortedMap.get?_eq_some.mpr hentry)
  have hall : (s.subscriptions.values.map (·.id)).Nodup := by
    rw [hvalues]
    exact s.subscriptions.nodup_keys
  exact hall.sublist (List.filter_sublist.map _)

/-- The index has each subscription of its commitment once, at its key. -/
theorem at_perm (h : Stored hash s) (hids : ∀ id sub, s.subscriptions.get? id = some sub → sub.id = id)
    {keys : List IndexKey} (hkeys : keys.Nodup) :
    ((s.index level).at keys).Perm
      (((s.ofLevel level).filter (·.config.key ∈ keys)).map fun sub => (sub.config.method, sub.id)) := by
  have hindex := h.index level
  have hentry : ∀ id key, entry s.subscriptions level id = some key ↔
      ∃ sub ∈ s.ofLevel level, sub.id = id ∧ sub.config.key = key := by
    intro id key
    unfold entry
    rw [Option.bind_eq_some_iff]
    constructor
    · rintro ⟨sub, hsub, hkey⟩
      split at hkey
      · rename_i hlevel
        exact ⟨sub, mem_ofLevel.mpr ⟨⟨id, hsub⟩, hlevel⟩, hids id sub hsub, Option.some.inj hkey⟩
      · cases hkey
    · rintro ⟨sub, hsub, rfl, rfl⟩
      obtain ⟨⟨id, hget⟩, hlevel⟩ := mem_ofLevel.mp hsub
      rw [hids id sub hget]
      exact ⟨sub, hget, if_pos hlevel⟩
  have hnodup : ((s.index level).at keys).Nodup := by
    unfold SubscriptionsIndex.at
    rw [List.nodup_flatMap]
    refine ⟨?_, hkeys.imp ?_⟩
    · intro key _
      refine List.Nodup.map (fun a b hab => (Prod.ext_iff.mp hab).2) ?_
      rw [List.nodup_iff_count_le_one]
      intro id
      rw [hindex.count]
      split <;> simp
    · intro key key' hne c hc hc'
      obtain ⟨id, hid, rfl⟩ := List.mem_map.mp hc
      obtain ⟨id', hid', heq⟩ := List.mem_map.mp hc'
      obtain rfl : id' = id := (Prod.ext_iff.mp heq).2
      rw [hindex.mem_ids] at hid hid'
      exact hne (Option.some.inj (hid.symm.trans hid'))
  have hscan : (((s.ofLevel level).filter (·.config.key ∈ keys)).map fun sub =>
      (sub.config.method, sub.id)).Nodup := by
    have hsub : (((s.ofLevel level).filter (·.config.key ∈ keys)).map (·.id)).Nodup :=
      (nodup_ofLevel hids).sublist (List.filter_sublist.map _)
    refine List.Nodup.of_map Prod.snd ?_
    rw [List.map_map]
    exact hsub
  refine (List.perm_ext_iff_of_nodup hnodup hscan).mpr ?_
  rintro ⟨method, id⟩
  simp only [SubscriptionsIndex.at, List.mem_flatMap, List.mem_map, Prod.mk.injEq, List.mem_filter,
    decide_eq_true_eq]
  constructor
  · rintro ⟨key, hkey, id', hid, rfl, rfl⟩
    rw [hindex.mem_ids, hentry] at hid
    obtain ⟨sub, hsub, rfl, rfl⟩ := hid
    exact ⟨sub, ⟨hsub, hkey⟩, sub.config.method_key.symm, rfl⟩
  · rintro ⟨sub, ⟨hsub, hkey⟩, rfl, rfl⟩
    refine ⟨sub.config.key, hkey, sub.id, ?_, sub.config.method_key, rfl⟩
    rw [hindex.mem_ids, hentry]
    exact ⟨sub, hsub, rfl, rfl⟩

end Subscriptions

/-! ### The filters -/

namespace FilterEnv

variable {f : FilterEnv} {slotFinalized : Slot} {message : ParsedMessage}

theorem signatureRef_of_signature {msg : MessageTransaction} {signature : Signature}
    (h : msg.signature = .ok signature) : msg.signatureRef = .ok signature.val := by
  unfold MessageTransaction.signature at h
  split at h
  · cases h
  · rename_i bytes hbytes
    split at h
    · rename_i signature' hsignature
      cases h
      unfold Signature.tryFrom at hsignature
      split at hsignature
      · cases hsignature
        exact hbytes
      · cases hsignature
    · cases h

/-- The filters of a signed message do not panic. -/
theorem filterJob_ok (hsigned : message.message.Signed) {job : Job} (hjob : job.message = message) :
    ∃ notification, f.filterJob slotFinalized job = .ok notification := by
  subst hjob
  unfold filterJob
  dsimp only
  split
  case h_4 msg _ hmessage =>
    rw [hmessage] at hsigned
    obtain ⟨signature, hsignature⟩ := hsigned
    unfold Worker.filterSignature
    rw [signatureRef_of_signature hsignature]
    split <;> exact ⟨_, rfl⟩
  case h_9 msg _ hmessage =>
    rw [hmessage] at hsigned
    obtain ⟨signature, hsignature⟩ := hsigned
    have hmatches : ∀ filter : TransactionFilter, ∃ matched, filter.matches f msg = .ok matched := by
      intro filter
      unfold TransactionFilter.matches
      dsimp only
      rw [signatureRef_of_signature hsignature]
      split
      · exact ⟨_, rfl⟩
      · split
        · exact ⟨_, rfl⟩
        · split <;> exact ⟨_, rfl⟩
    unfold SubscribeConfig.filterTransaction
    split
    · rename_i level body hconfig
      obtain ⟨matched, hmatched⟩ := hmatches (f.transactionFilter body)
      rw [hmatched]
      exact ⟨_, rfl⟩
    · exact ⟨_, rfl⟩
  all_goals exact ⟨_, rfl⟩

/-- What a job that does not panic gives. -/
def notification (f : FilterEnv) (slotFinalized : Slot) (job : Job) : Option JobNotification :=
  (f.filterJob slotFinalized job).toOption.join

theorem filterJobs_ok (hsigned : message.message.Signed) : ∀ {jobs : List Job},
    (∀ job ∈ jobs, job.message = message) →
    f.filterJobs slotFinalized jobs = .ok (jobs.filterMap (f.notification slotFinalized))
  | [], _ => rfl
  | job :: jobs, hjobs => by
    obtain ⟨n, hn⟩ : ∃ n, f.filterJob slotFinalized job = .ok n :=
      filterJob_ok hsigned (hjobs job List.mem_cons_self)
    have hrest : f.filterJobs slotFinalized jobs = .ok (jobs.filterMap (f.notification slotFinalized)) :=
      filterJobs_ok hsigned fun j hj => hjobs j (List.mem_cons_of_mem _ hj)
    have hnotification : f.notification slotFinalized job = n := by
      unfold notification
      rw [hn]
      rfl
    unfold filterJobs
    rw [hn, hrest]
    cases n with
    | none =>
      rw [List.filterMap_cons_none hnotification]
      rfl
    | some n =>
      rw [List.filterMap_cons_some hnotification]
      rfl

/-- **Nothing is lost**: a subscription that is at none of the keys of a message does not match it. -/
theorem notification_of_not_probed (hsigned : message.message.Signed) (sub : SubscriptionInfo)
    (h : sub.config.key ∉ probes f.accountKeys message) :
    f.notification slotFinalized ⟨sub.config.method, message, sub, none⟩ = none := by
  obtain ⟨id, configHash, config, clients⟩ := sub
  unfold notification filterJob
  unfold probes at h
  dsimp only at h ⊢
  rcases config with ⟨pk, l, b⟩ | ⟨pk, l, b⟩ | ⟨_ | _ | pk, l⟩ | ⟨sig, l⟩ | _ | _ | ⟨l, b⟩ | _ | ⟨l, b⟩
  all_goals
    cases hmessage : message.message
  all_goals
    rw [hmessage] at h
    try rfl
  case account.account msg =>
    have hne : pk ≠ msg.pubkey := by
      rintro rfl
      simp [SubscribeConfig.key] at h
    simp [SubscribeConfig.method, SubscribeConfig.filterAccount, hne, Except.toOption]
  case program.account msg =>
    have hne : pk ≠ msg.owner := by
      rintro rfl
      simp [SubscribeConfig.key] at h
    simp [SubscribeConfig.method, SubscribeConfig.filterProgram, hne, Except.toOption]
  case signature.transaction msg =>
    rw [hmessage] at hsigned
    obtain ⟨signature, hsignature⟩ := hsigned
    have hne : sig.val ≠ signature.val := by
      intro heq
      obtain rfl := Subtype.ext heq
      simp [SubscribeConfig.key, hsignature, Except.toOption] at h
    simp [SubscribeConfig.method, Worker.filterSignature, signatureRef_of_signature hsignature, hne, Except.map,
      Except.toOption]
  case logs.single.transaction msg =>
    have hne : pk ∉ f.accountKeys msg := by
      intro hmem
      simp [SubscribeConfig.key, hmem] at h
    have hnone : ((f.accountKeys msg).any fun key => key = pk) = false := by
      rw [List.any_eq_false]
      rintro key hkey heq
      exact hne (of_decide_eq_true heq ▸ hkey)
    simp [SubscribeConfig.method, SubscribeConfig.filterLogs, hnone, Except.toOption]
  -- the other messages are looked up at the key of the subscription
  all_goals simp [SubscribeConfig.key, SubscribeConfig.method] at h

end FilterEnv

/-! ### Both ways -/

/-- The jobs of a message through the index: no subscription twice, and the notifications of the scan. -/
theorem Subscriptions.collectJobs_perm {f : FilterEnv} {s : Subscriptions} {message : ParsedMessage}
    (h : Subscriptions.Inv f.hash s) (hids : ∀ id sub, s.subscriptions.get? id = some sub → sub.id = id)
    (level : CommitmentLevel) (hsigned : message.message.Signed) (slotFinalized : Slot) :
    ∃ jobs indexed scanned, f.collectJobs s level message = .ok jobs ∧
      (jobs.map (·.subscription.id)).Nodup ∧ f.filterJobs slotFinalized jobs = .ok indexed ∧
      f.filterJobs slotFinalized (s.scanJobs level message) = .ok scanned ∧ indexed.Perm scanned := by
  let job (sub : SubscriptionInfo) : Job := ⟨sub.config.method, message, sub, none⟩
  let probed := (s.ofLevel level).filter (·.config.key ∈ probes f.accountKeys message)
  have hprobed : ∀ sub ∈ probed, s.subscriptions.get? sub.id = some sub := by
    intro sub hsub
    obtain ⟨⟨id, hget⟩, -⟩ := mem_ofLevel.mp (List.mem_filter.mp hsub).1
    rw [hids id sub hget]
    exact hget
  obtain ⟨candidates, hcandidates, hperm⟩ : ∃ candidates,
      (s.index level).candidates f.accountKeys message = .ok candidates ∧
        candidates.Perm ((s.index level).at (probes f.accountKeys message)) :=
    SubscriptionsIndex.candidates_perm f.accountKeys_nodup hsigned
  obtain ⟨found, hfound⟩ := jobs_ok h (SubscriptionsIndex.mem_candidates hcandidates)
  have hjobs : (found.map fun j => (⟨j.1, message, j.2, none⟩ : Job)).Perm (probed.map job) := by
    have hinfo := hperm.trans (at_perm h.stored hids (nodup_probes message f.accountKeys_nodup))
    rw [jobs_eq hfound]
    refine ((hinfo.filterMap _).map _).trans (List.Perm.of_eq ?_)
    rw [List.filterMap_map, List.map_filterMap, ← List.filterMap_eq_map]
    refine List.filterMap_congr ?_
    intro sub hsub
    simp [hprobed sub hsub, job]
  have hmessages : ∀ j ∈ found.map (fun j => (⟨j.1, message, j.2, none⟩ : Job)), j.message = message := by
    intro j hj
    obtain ⟨j, -, rfl⟩ := List.mem_map.mp hj
    rfl
  have hscan : ∀ j ∈ s.scanJobs level message, j.message = message := by
    intro j hj
    obtain ⟨sub, -, rfl⟩ := List.mem_map.mp hj
    rfl
  refine ⟨_, _, _, ?_, ?_, FilterEnv.filterJobs_ok hsigned hmessages, FilterEnv.filterJobs_ok hsigned hscan, ?_⟩
  · unfold FilterEnv.collectJobs
    rw [hcandidates]
    dsimp only
    rw [hfound]
  · refine ((hjobs.map _).nodup_iff).mpr ?_
    rw [List.map_map]
    exact (nodup_ofLevel hids).sublist (List.filter_sublist.map _)
  · refine (hjobs.filterMap _).trans (List.Perm.of_eq ?_)
    show (probed.map job).filterMap _ = ((s.ofLevel level).map job).filterMap _
    rw [List.filterMap_map, List.filterMap_map, List.filterMap_filter]
    refine List.filterMap_congr ?_
    intro sub _
    split
    · rfl
    · rename_i hkey
      exact (FilterEnv.notification_of_not_probed hsigned sub (by simpa using hkey)).symm

/-- The worker collects these jobs. -/
theorem Worker.collectMessage_jobs {f : FilterEnv} {s s' : Worker} {tick tick' : Tick} {message : ParsedMessage}
    (h : s.collectMessage f.toWorkerEnv tick message = .ok (s', tick')) :
    ∃ jobs, f.collectJobs s.tracker.subscriptions tick.level message = .ok jobs ∧
      tick'.jobs = tick.jobs ++ jobs := by
  obtain ⟨extra, candidates, jobs, -, -, hcandidates, hjobs, rfl⟩ := collectMessage_eq_ok h
  refine ⟨_, ?_, rfl⟩
  unfold FilterEnv.collectJobs
  rw [hcandidates]
  dsimp only
  rw [hjobs]

namespace Tracker

/-- The subscriptions of every run, with their own ids. -/
theorem exists_run_ids (hash : SubscribeConfig → ℕ) (encode : SubscriptionId → CachedSignature → String)
    (maxCount maxBytes : ℕ) (actions : List TrackerAction) :
    ∃ t events, run (step hash encode) (.new maxCount maxBytes) actions = .ok (t, events) ∧
      Subscriptions.Inv hash t.subscriptions ∧
      ∀ id sub, t.subscriptions.subscriptions.get? id = some sub → sub.id = id := by
  refine exists_run (P := fun t : Tracker => Subscriptions.Inv hash t.subscriptions ∧
    ∀ id sub, t.subscriptions.subscriptions.get? id = some sub → sub.id = id) ?_ actions ?_
  · rintro t action ⟨hinv, hids⟩
    obtain ⟨t', events, hstep, hinv'⟩ : ∃ t' events, step hash encode t action = .ok (t', events) ∧
        Subscriptions.Inv hash t'.subscriptions := step_ok hinv action
    refine ⟨t', events, hstep, hinv', ?_⟩
    intro id sub hsub
    rcases step_subscription hstep id sub hsub with ⟨old, hold, hid, -⟩ | ⟨_, _, _, -, hid, -⟩
    · exact hid.trans (hids id old hold)
    · exact hid
  · refine ⟨Subscriptions.default_inv, ?_⟩
    intro id sub hsub
    cases hsub

/-- Transactions without accounts, configs without filters and empty notifications. -/
def emptyEnv : FilterEnv where
  toWorkerEnv := .sample
  accountKeys_nodup := fun _ => List.nodup_nil
  vote := fun _ => false
  logMessages := fun _ => some []
  bytesMatch := fun _ _ => true
  validAccountData := fun _ => true
  programFilters := fun _ => []
  blockKind := fun _ => .all
  transactionFilter := fun _ => ⟨none, none, none, [], [], []⟩
  accountJson := fun _ _ _ => ""
  programJson := fun _ _ _ => ""
  logsJson := fun _ _ _ => ""
  slotJson := fun _ _ _ => ""
  slotsUpdatesJson := fun _ _ _ => ""
  blockJson := fun _ _ _ => ""
  rootJson := fun _ _ => ""
  transactionJson := fun _ _ _ => ""

/-- One subscription, of a signature. -/
def signatureSubscribed : List TrackerAction :=
  [.register 0 8, .subscribe 0 (.signature ⟨List.replicate 64 0, rfl⟩ .confirmed) ⟨fun _ => none, 0, 0⟩]

end Tracker

end Richat
