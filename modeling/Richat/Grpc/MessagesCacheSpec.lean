import Richat.Channel.Receiver
import Richat.Grpc.MessagesCache

/-!
# The cache is transparent

`EncodedInv` is about the bodies: each belongs to the message of its cell, and the byte counter is the sum
of their sizes. `SharedEncoder::encode` keeps it and returns the bytes of the plain encoding
(`EncodedInv.encode`). `CacheView` adds the messages: those in the cache were received at their position.

A message in the cache is returned also after the ring has overwritten it; apart from that a client gets
what its receiver returns.
-/

namespace Richat

open Lib Protobuf

section Bodies

variable {encodeUpdate : FilteredUpdateType → Bytes} {update : FilteredUpdate} {body : Bytes}

@[simp] theorem encodeBody_eq : encodeBody encodeUpdate update = encodeUpdate update.filteredUpdate :=
  rfl

theorem toVec_new : (SharedEncodedUpdate.new update.filters (encodeUpdate update.filteredUpdate)).toVec =
    update.encodeToVec encodeUpdate := rfl

theorem isMatch_iff {key : BodyKey} {u : FilteredUpdateType} : key.isMatch u ↔ key = .new u := by
  cases key <;> cases u <;> simp [BodyKey.new, BodyKey.isMatch]
  tauto

/-- Two updates of a message with the same shape are the same. -/
theorem eq_of_new_eq {u v : FilteredUpdateType} (h : BodyKey.new u = .new v)
    (hmessage : u.message = v.message) : u = v := by
  cases u <;> cases v <;> simp_all [BodyKey.new, FilteredUpdateType.message]

/-! ### The bodies of a message -/

namespace EncodeCache

variable {cache cache' : EncodeCache} {msg : Option ParsedMessage} {idx : ℕ}

/-- The bodies are those of updates of the message, and their sizes are counted. -/
structure Holds (encodeUpdate : FilteredUpdateType → Bytes) (msg : Option ParsedMessage)
    (cache : EncodeCache) : Prop where
  bodies : ∀ key body, (key, some body) ∈ cache.bodies → ∃ message u, msg = some message ∧
    u.message = message.message ∧ key = .new u ∧ body = encodeUpdate u
  bytes : cache.encodedBytes = ((cache.bodies.filterMap (·.2)).map (·.length)).sum

theorem holds_default : Holds encodeUpdate msg .default where
  bodies := by
    intro key body h
    cases h
  bytes := rfl

theorem find_eq_some (h : cache.find update = some idx) : ∃ key body,
    cache.bodies[idx]? = some (key, body) ∧ key = .new update.filteredUpdate := by
  obtain ⟨hlt, hmatch, -⟩ := List.findIdx?_eq_some_iff_getElem.mp h
  exact ⟨_, _, List.getElem?_eq_getElem hlt, isMatch_iff.mp hmatch⟩

/-- A body that is found is the one of the update. -/
theorem Holds.get (h : Holds encodeUpdate msg cache) {message : ParsedMessage} (hmsg : msg = some message)
    (hupdate : update.filteredUpdate.message = message.message) (hget : cache.get update = some body) :
    body = encodeUpdate update.filteredUpdate := by
  obtain ⟨idx, hfind, hbody⟩ := Option.bind_eq_some_iff.mp hget
  obtain ⟨key, body', hidx, rfl⟩ := find_eq_some hfind
  rw [hidx, Option.bind_some] at hbody
  obtain rfl : body' = some body := hbody
  obtain ⟨message', u, hmsg', hu, hkey, rfl⟩ := h.bodies _ _ (List.mem_of_getElem? hidx)
  rw [hmsg] at hmsg'
  cases hmsg'
  rw [eq_of_new_eq hkey (hupdate.trans hu.symm)]

theorem Holds.markSeen (h : Holds encodeUpdate msg cache) {seen : Bool}
    (hseen : cache.markSeen update = (cache', seen)) :
    Holds encodeUpdate msg cache' ∧ cache'.encodedBytes = cache.encodedBytes ∧
      (∀ key body, (key, some body) ∈ cache'.bodies ↔ (key, some body) ∈ cache.bodies) ∧
      (seen = true → cache' = cache ∧ ∃ idx, cache.find update = some idx) := by
  unfold EncodeCache.markSeen at hseen
  split at hseen
  · rename_i hsome
    cases hseen
    exact ⟨h, rfl, fun _ _ => Iff.rfl, fun _ => ⟨rfl, Option.isSome_iff_exists.mp hsome⟩⟩
  · split at hseen
    · cases hseen
      have hmem : ∀ key body, (key, some body) ∈ cache.bodies ++
          [(BodyKey.new update.filteredUpdate, (none : Option Bytes))] ↔ (key, some body) ∈ cache.bodies := by
        simp
      refine ⟨⟨fun key body hkey => h.bodies key body ((hmem key body).mp hkey), ?_⟩, rfl, hmem,
        fun hfalse => by cases hfalse⟩
      simpa using h.bytes
    · cases hseen
      exact ⟨h, rfl, fun _ _ => Iff.rfl, fun hfalse => by cases hfalse⟩

/-- A body that was asked for before is kept. -/
theorem Holds.insert (h : Holds encodeUpdate msg cache) {message : ParsedMessage}
    (hmsg : msg = some message) (hupdate : update.filteredUpdate.message = message.message)
    (overflowChecks : Bool) (hfind : cache.find update = some idx) (hget : cache.get update = none) :
    ∃ cache', cache.insert overflowChecks update (encodeUpdate update.filteredUpdate) =
        .ok (cache', true) ∧ Holds encodeUpdate msg cache' ∧
      cache'.encodedBytes = cache.encodedBytes + (encodeUpdate update.filteredUpdate).length ∧
      (∃ key, (key, some (encodeUpdate update.filteredUpdate)) ∈ cache'.bodies) ∧
      ∀ key body, (key, some body) ∈ cache.bodies → (key, some body) ∈ cache'.bodies := by
  obtain ⟨key, body, hidx, hkey⟩ := find_eq_some hfind
  obtain rfl : body = none := by
    unfold EncodeCache.get at hget
    rwa [hfind, Option.bind_some, hidx, Option.bind_some] at hget
  obtain ⟨l₁, l₂, hbodies, hlen⟩ : ∃ l₁ l₂, cache.bodies = l₁ ++ (key, none) :: l₂ ∧ l₁.length = idx := by
    obtain ⟨hlt, hval⟩ := List.getElem?_eq_some_iff.mp hidx
    refine ⟨cache.bodies.take idx, cache.bodies.drop (idx + 1), ?_, by simp; omega⟩
    rw [← hval, List.getElem_cons_drop, List.take_append_drop]
  have hset : cache.bodies.set idx (key, some (encodeUpdate update.filteredUpdate)) =
      l₁ ++ (key, some (encodeUpdate update.filteredUpdate)) :: l₂ := by
    rw [hbodies, List.set_append_right _ _ hlen.le, hlen, Nat.sub_self]
    rfl
  unfold EncodeCache.insert
  simp only [hfind, hidx]
  refine ⟨_, rfl, ⟨fun key' body' hmem => ?_, ?_⟩, rfl, ⟨key, ?_⟩, fun key' body' hmem => ?_⟩
  · rw [hset] at hmem
    rcases List.mem_append.mp hmem with hmem | hmem
    · exact h.bodies key' body' (hbodies ▸ List.mem_append_left _ hmem)
    · rcases List.mem_cons.mp hmem with hnew | hmem
      · cases hnew
        exact ⟨message, _, hmsg, hupdate, hkey, rfl⟩
      · exact h.bodies key' body' (hbodies ▸ List.mem_append_right _ (List.mem_cons_of_mem _ hmem))
  · have hbytes := h.bytes
    rw [hbodies] at hbytes
    simp only [hset, hbytes, List.filterMap_append, List.filterMap_cons, List.map_append, List.map_cons,
      List.sum_append, List.sum_cons]
    omega
  · rw [hset]
    exact List.mem_append_right _ List.mem_cons_self
  · rw [hbodies] at hmem
    rw [hset]
    rcases List.mem_append.mp hmem with hmem | hmem
    · exact List.mem_append_left _ hmem
    · rcases List.mem_cons.mp hmem with hnew | hmem
      · cases hnew
      · exact List.mem_append_right _ (List.mem_cons_of_mem _ hmem)

end EncodeCache

/-! ### The bodies of all messages -/

/-- The sizes of the bodies in the cells below `n`. -/
def totalBytes (buffer : ℕ → EncodeCache) (n : ℕ) : ℕ := ∑ i ∈ Finset.range n, (buffer i).encodedBytes

theorem totalBytes_update (buffer : ℕ → EncodeCache) {n i : ℕ} (hi : i < n) (cell : EncodeCache) :
    totalBytes (Function.update buffer i cell) n + (buffer i).encodedBytes =
      totalBytes buffer n + cell.encodedBytes := by
  unfold totalBytes
  have hmem : i ∈ Finset.range n := Finset.mem_range.mpr hi
  rw [← Finset.add_sum_erase _ _ hmem, ← Finset.add_sum_erase (Finset.range n) _ hmem,
    Function.update_self]
  have hsame : ∑ x ∈ (Finset.range n).erase i, (Function.update buffer i cell x).encodedBytes =
      ∑ x ∈ (Finset.range n).erase i, (buffer x).encodedBytes := by
    refine Finset.sum_congr rfl fun x hx => ?_
    rw [Function.update_of_ne (Finset.ne_of_mem_erase hx)]
  rw [hsame]
  omega

theorem le_totalBytes (buffer : ℕ → EncodeCache) {n i : ℕ} (hi : i < n) :
    (buffer i).encodedBytes ≤ totalBytes buffer n :=
  Finset.single_le_sum (f := fun i => (buffer i).encodedBytes) (fun _ _ => Nat.zero_le _)
    (Finset.mem_range.mpr hi)

@[simp] theorem EncodedCache.setCell_self (c : EncodedCache) (idx : ℕ) (cell : EncodeCache) :
    (c.setCell idx cell).buffer idx = cell := Function.update_self ..

/-- The cache of `2 ^ j` cells for the messages. The counter is exceeded by one body at most: without a
body that is still there it is within the limit. -/
structure EncodedInv (encodeUpdate : FilteredUpdateType → Bytes) (j bytesMax : ℕ)
    (msgs : ℕ → Option ParsedMessage) (c : EncodedCache) : Prop where
  mask : c.mask = 2 ^ j - 1
  bytesMax_eq : c.bytesMax = bytesMax
  holds : ∀ i, (c.buffer i).Holds encodeUpdate (msgs i)
  bytes : c.bytes = totalBytes c.buffer (2 ^ j)
  limit : c.bytes ≤ c.bytesMax ∨ ∃ i < 2 ^ j, ∃ key body, (key, some body) ∈ (c.buffer i).bodies ∧
    c.bytes < c.bytesMax + body.length

namespace EncodedInv

variable {j bytesMax pos : ℕ} {msgs : ℕ → Option ParsedMessage} {c c' : EncodedCache} {overflowChecks : Bool}
  {message : ParsedMessage}

theorem getIdx_eq (h : EncodedInv encodeUpdate j bytesMax msgs c) (pos : ℕ) : pos &&& c.mask = pos % 2 ^ j := by
  rw [h.mask, Nat.and_two_pow_sub_one_eq_mod]

theorem setTail (h : EncodedInv encodeUpdate j bytesMax msgs c) (tail : ℕ) :
    EncodedInv encodeUpdate j bytesMax msgs { c with tail } :=
  ⟨h.mask, h.bytesMax_eq, h.holds, h.bytes, h.limit⟩

theorem body_le {cell : EncodeCache} {msg : Option ParsedMessage}
    (h : cell.Holds encodeUpdate msg) {key : BodyKey} (hmem : (key, some body) ∈ cell.bodies) :
    body.length ≤ cell.encodedBytes := by
  rw [h.bytes]
  exact List.le_sum_of_mem (List.mem_map.mpr ⟨body, List.mem_filterMap.mpr ⟨_, hmem, rfl⟩, rfl⟩)

/-- A cell is emptied, perhaps for another message. -/
theorem clear (h : EncodedInv encodeUpdate j bytesMax msgs c) {i : ℕ} (hi : i < 2 ^ j) (overflowChecks : Bool)
    {msgs' : ℕ → Option ParsedMessage} (hmsgs : ∀ i', i' ≠ i → msgs' i' = msgs i') :
    ∃ c', c.clear overflowChecks i = .ok c' ∧ EncodedInv encodeUpdate j bytesMax msgs' c' ∧
      c'.tail = c.tail ∧ ∀ i', i' ≠ i → c'.buffer i' = c.buffer i' := by
  have htotal := totalBytes_update c.buffer hi .default
  have hle : (c.buffer i).encodedBytes ≤ c.bytes := by
    rw [h.bytes]
    exact le_totalBytes c.buffer hi
  have hbytes := h.bytes
  unfold EncodedCache.clear subU64
  rw [if_pos hle]
  refine ⟨_, rfl, ⟨h.mask, h.bytesMax_eq, fun i' => ?_, ?_, ?_⟩, rfl, fun i' hi' => Function.update_of_ne hi' ..⟩
  · by_cases heq : i' = i
    · subst heq
      simp only [Function.update_self]
      exact EncodeCache.holds_default
    · simp only [Function.update_of_ne heq, hmsgs i' heq]
      exact h.holds i'
  · have hdefault : EncodeCache.default.encodedBytes = 0 := rfl
    show c.bytes - (c.buffer i).encodedBytes = totalBytes (Function.update c.buffer i .default) (2 ^ j)
    omega
  · rcases h.limit with hle | ⟨i', hi', key, body, hmem, hlt⟩
    · exact Or.inl ((Nat.sub_le _ _).trans hle)
    · by_cases heq : i' = i
      · subst heq
        have hbody := body_le (h.holds i') hmem
        refine Or.inl ?_
        show c.bytes - (c.buffer i').encodedBytes ≤ c.bytesMax
        omega
      · refine Or.inr ⟨i', hi', key, body, ?_, (Nat.sub_le _ _).trans_lt hlt⟩
        simp only [Function.update_of_ne heq]
        exact hmem

theorem evictLoop (pos : ℕ) (overflowChecks : Bool) : ∀ (n : ℕ) {c : EncodedCache},
    EncodedInv encodeUpdate j bytesMax msgs c → pos < c.tail + 2 ^ j →
    ∃ c', EncodedCache.evictLoop overflowChecks pos n c = .ok c' ∧ EncodedInv encodeUpdate j bytesMax msgs c' ∧
      c'.buffer (pos % 2 ^ j) = c.buffer (pos % 2 ^ j)
  | 0, c, h, _ => ⟨c, rfl, h, rfl⟩
  | n + 1, c, h, hpos => by
    unfold EncodedCache.evictLoop
    split
    · rename_i hloop
      have hidx : c.tail % 2 ^ j < 2 ^ j := Nat.mod_lt _ (Nat.two_pow_pos j)
      obtain ⟨c₁, hclear, h₁, htail, hother⟩ := h.clear hidx overflowChecks fun _ _ => rfl
      have hpos₁ : pos < c₁.tail + 1 + 2 ^ j := by omega
      obtain ⟨c₂, hevict, h₂, hbuffer₂⟩ :=
        evictLoop pos overflowChecks n (h₁.setTail (c₁.tail + 1)) hpos₁
      rw [h.getIdx_eq, hclear]
      refine ⟨c₂, hevict, h₂, hbuffer₂.trans (hother _ ?_)⟩
      exact (Ring.mod_ne_of_lt hloop.2 hpos).symm
    · exact ⟨c, rfl, h, rfl⟩

/-- The cell of the position is kept. -/
theorem evict (h : EncodedInv encodeUpdate j bytesMax msgs c) (pos : ℕ) (overflowChecks : Bool) :
    ∃ c' room, c.evict overflowChecks pos = .ok (c', room) ∧ EncodedInv encodeUpdate j bytesMax msgs c' ∧
      (room = true → c'.bytes < c'.bytesMax) ∧ c'.buffer (pos % 2 ^ j) = c.buffer (pos % 2 ^ j) := by
  have hpos : pos < max c.tail (pos - c.mask) + 2 ^ j := by
    have hmask := h.mask
    have hsize := Nat.two_pow_pos j
    have hmax := le_max_right c.tail (pos - c.mask)
    omega
  obtain ⟨c', hloop, h', hbuffer⟩ := evictLoop pos overflowChecks
    (pos - max c.tail (pos - c.mask)) (h.setTail (max c.tail (pos - c.mask))) hpos
  refine ⟨c', decide (c'.bytes < c'.bytesMax), ?_, h', of_decide_eq_true, hbuffer⟩
  simp only [EncodedCache.evict, hloop]

/-- A cell with the same bodies. -/
theorem setCell (h : EncodedInv encodeUpdate j bytesMax msgs c) {i : ℕ} {cell : EncodeCache}
    (hcell : cell.Holds encodeUpdate (msgs i)) (hbytes : cell.encodedBytes = (c.buffer i).encodedBytes)
    (hbodies : ∀ key body, (key, some body) ∈ cell.bodies ↔ (key, some body) ∈ (c.buffer i).bodies) :
    EncodedInv encodeUpdate j bytesMax msgs (c.setCell i cell) where
  mask := h.mask
  bytesMax_eq := h.bytesMax_eq
  holds := by
    intro i'
    by_cases heq : i' = i
    · subst heq
      simpa [EncodedCache.setCell] using hcell
    · simpa [EncodedCache.setCell, Function.update_of_ne heq] using h.holds i'
  bytes := by
    refine h.bytes.trans (Finset.sum_congr rfl fun i' _ => ?_)
    by_cases heq : i' = i
    · subst heq
      simp [EncodedCache.setCell, hbytes]
    · simp [EncodedCache.setCell, Function.update_of_ne heq]
  limit := by
    refine h.limit.imp_right ?_
    rintro ⟨i', hi', key, body, hmem, hlt⟩
    refine ⟨i', hi', key, body, ?_, hlt⟩
    by_cases heq : i' = i
    · subst heq
      simpa [EncodedCache.setCell] using (hbodies key body).mpr hmem
    · simpa [EncodedCache.setCell, Function.update_of_ne heq] using hmem

/-- A body is added. -/
theorem addBody (h : EncodedInv encodeUpdate j bytesMax msgs c) {i : ℕ} (hi : i < 2 ^ j) {cell : EncodeCache}
    (hroom : c.bytes < c.bytesMax) (hcell : cell.Holds encodeUpdate (msgs i))
    (hbytes : cell.encodedBytes = (c.buffer i).encodedBytes + body.length)
    (hbody : ∃ key, (key, some body) ∈ cell.bodies) :
    EncodedInv encodeUpdate j bytesMax msgs { c.setCell i cell with bytes := c.bytes + body.length } where
  mask := h.mask
  bytesMax_eq := h.bytesMax_eq
  holds := by
    intro i'
    by_cases heq : i' = i
    · subst heq
      simpa [EncodedCache.setCell] using hcell
    · simpa [EncodedCache.setCell, Function.update_of_ne heq] using h.holds i'
  bytes := by
    have htotal := totalBytes_update c.buffer hi cell
    have hold := h.bytes
    show c.bytes + body.length = totalBytes (Function.update c.buffer i cell) (2 ^ j)
    omega
  limit := by
    obtain ⟨key, hmem⟩ := hbody
    refine Or.inr ⟨i, hi, key, body, by simpa [EncodedCache.setCell] using hmem, ?_⟩
    exact Nat.add_lt_add_right hroom _

/-- **An update is encoded as without the cache.** -/
theorem encode (h : EncodedInv encodeUpdate j bytesMax msgs c) (hmsg : msgs (pos % 2 ^ j) = some message)
    (hupdate : update.filteredUpdate.message = message.message) (overflowChecks : Bool) :
    ∃ c' out, c.encode overflowChecks encodeUpdate pos update = .ok (c', out) ∧
      EncodedInv encodeUpdate j bytesMax msgs c' ∧ out.toVec = update.encodeToVec encodeUpdate := by
  have hidx : pos % 2 ^ j < 2 ^ j := Nat.mod_lt _ (Nat.two_pow_pos j)
  unfold EncodedCache.encode
  split
  · exact ⟨_, _, rfl, h, rfl⟩
  simp only [h.getIdx_eq]
  have hcell := h.holds (pos % 2 ^ j)
  cases hget : (c.buffer (pos % 2 ^ j)).get update with
  | some body =>
    refine ⟨_, _, rfl, h, ?_⟩
    rw [hcell.get hmsg hupdate hget]
    exact toVec_new
  | none =>
    rcases hseen : (c.buffer (pos % 2 ^ j)).markSeen update with ⟨cell, seen⟩
    obtain ⟨hcell', hbytes, hbodies, hfind⟩ := hcell.markSeen hseen
    have h₁ := h.setCell hcell' hbytes hbodies
    cases seen with
    | false => exact ⟨_, _, rfl, h₁, rfl⟩
    | true =>
      obtain ⟨hsame, idx, hidx'⟩ := hfind rfl
      obtain ⟨c₂, room, hevict, h₂, hroom, hbuffer⟩ := h₁.evict pos overflowChecks
      simp only [hevict, not_true_eq_false, if_false]
      cases room with
      | false => exact ⟨_, _, rfl, h₂, rfl⟩
      | true =>
        have hcell₂ : c₂.buffer (pos % 2 ^ j) = c.buffer (pos % 2 ^ j) := by
          rw [hbuffer, EncodedCache.setCell_self, hsame]
        obtain ⟨cell₃, hinsert, hcell₃, hbytes₃, hbody, -⟩ :=
          hcell.insert hmsg hupdate overflowChecks hidx' hget
        simp only [hcell₂, encodeBody_eq, hinsert, if_true]
        refine ⟨_, _, rfl, h₂.addBody hidx (hroom rfl) hcell₃ ?_ hbody, toVec_new⟩
        rw [hbytes₃, hcell₂]

theorem encodeAll (hmsg : msgs (pos % 2 ^ j) = some message) (overflowChecks : Bool) :
    ∀ {updates : List FilteredUpdate} {c : EncodedCache}, EncodedInv encodeUpdate j bytesMax msgs c →
      (∀ update ∈ updates, update.filteredUpdate.message = message.message) →
      ∃ c' outs, EncodedCache.encodeAll overflowChecks encodeUpdate pos updates c = .ok (c', outs) ∧
        EncodedInv encodeUpdate j bytesMax msgs c' ∧
        outs.map (·.toVec) = updates.map (FilteredUpdate.encodeToVec encodeUpdate)
  | [], c, h, _ => ⟨c, [], rfl, h, rfl⟩
  | update :: updates, c, h, hupdates => by
    obtain ⟨c₁, out, hencode, h₁, hout⟩ :=
      h.encode hmsg (hupdates update List.mem_cons_self) overflowChecks
    obtain ⟨c₂, outs, hrest, h₂, houts⟩ :=
      encodeAll hmsg overflowChecks h₁ fun u hu => hupdates u (List.mem_cons_of_mem _ hu)
    refine ⟨c₂, out :: outs, ?_, h₂, ?_⟩
    · simp only [EncodedCache.encodeAll, hencode, hrest]
    · rw [List.map_cons, List.map_cons, hout, houts]

end EncodedInv

end Bodies

/-! ### The ring -/

section Ring

variable {size : ParsedMessage → ℕ} {k pos : ℕ} {c c' : Channel} {message : ParsedMessage}

theorem ReceiverSync.tryRecv_eq_some {shared : SharedChannel} :
    ReceiverSync.tryRecv (some shared) pos = .ok (some message) ↔
      pos ≤ shared.tail ∧ (shared.item pos).pos = pos ∧ (shared.item pos).data = some message := by
  simp only [ReceiverSync.tryRecv]
  split
  · rename_i hle
    split
    · rename_i hpos
      exact ⟨fun h => (by cases h), fun h => absurd h.2.1 hpos⟩
    · rename_i hpos
      split
      · rename_i hdata
        exact ⟨fun h => (by cases h), fun h => by simp [h.2.2] at hdata⟩
      · rename_i hdata
        simp [hle, not_not.mp hpos, hdata]
  · rename_i hle
    exact ⟨fun h => (by cases h), fun h => absurd h.1 hle⟩

/-- The message was published at the position. -/
def Channel.PublishedAt (size : ParsedMessage → ℕ) (c : Channel) (pos : ℕ) (message : ParsedMessage) :
    Prop :=
  ∃ k events, ChannelInv size k events c ∧ pos ≤ c.sender.shared.tail ∧
    ∃ item, (storedItems events)[pos - (2 ^ k + 1)]? = some item ∧ item.data = some message

/-- A message that is received was published there. -/
theorem publishedAt_of_tryRecv {events : List ChannelEvent} (h : ChannelInv size k events c)
    (hrecv : ReceiverSync.tryRecv (some c.sender.shared) pos = .ok (some message)) :
    c.PublishedAt size pos message := by
  obtain ⟨hle, hpos, hdata⟩ := ReceiverSync.tryRecv_eq_some.mp hrecv
  exact ⟨k, events, h, hle, _, h.item_of_read hpos hdata, hdata⟩

/-- Later it is received again, or it has left the ring. -/
theorem Channel.PublishedAt.tryRecv (h : c.PublishedAt size pos message) :
    ReceiverSync.tryRecv (some c.sender.shared) pos = .ok (some message) ∨
      ReceiverSync.tryRecv (some c.sender.shared) pos = .error .lagged := by
  obtain ⟨k, events, hinv, hle, item, hlog, hdata⟩ := h
  by_cases hpos : (c.sender.shared.item pos).pos = pos
  · cases hcell : (c.sender.shared.item pos).data with
    | none => exact Or.inr (by simp [ReceiverSync.tryRecv, hle, hcell])
    | some message' =>
      have hread := hinv.item_of_read hpos hcell
      rw [hlog] at hread
      cases hread
      exact Or.inl (ReceiverSync.tryRecv_eq_some.mpr ⟨hle, hpos, hdata⟩)
  · exact Or.inr (by simp [ReceiverSync.tryRecv, hle, hpos])

theorem Channel.PublishedAt.step (h : c.PublishedAt size pos message) {a : ChannelAction}
    {out : List ChannelEvent} (hstep : Channel.step size c a = .ok (c', out)) :
    c'.PublishedAt size pos message := by
  obtain ⟨k, events, hinv, hle, item, hlog, hdata⟩ := h
  refine ⟨k, events ++ out, hinv.step hstep, hle.trans (hinv.tail_le hstep), item, ?_, hdata⟩
  rw [storedItems_append, List.getElem?_append_left (List.getElem?_eq_some_iff.mp hlog).1]
  exact hlog

end Ring

/-! ### A turn of a client -/

theorem subU64_cases (overflowChecks : Bool) (a b : ℕ) :
    (∃ e, subU64 overflowChecks a b = .error e ∧ overflowChecks = true ∧ a < b) ∨
      ∃ n, subU64 overflowChecks a b = .ok n := by
  unfold subU64
  split
  · exact Or.inr ⟨_, rfl⟩
  · rename_i hlt
    cases overflowChecks with
    | true => exact Or.inl ⟨_, rfl, rfl, not_le.mp hlt⟩
    | false => exact Or.inr ⟨_, rfl⟩

/-- The subtraction fails, or the message is in its cell, or the receiver is asked, and its message may
be put into the cell. -/
theorem MessagesCache.tryRecv_cases (overflowChecks : Bool) (c : MessagesCache)
    (shared : Option SharedChannel) (head : ℕ) :
    (∃ e, c.tryRecv overflowChecks shared head = .error e ∧ overflowChecks = true ∧
      max head c.head < c.mask) ∨
    ∃ c' : MessagesCache, c'.mask = c.mask ∧ c'.buffer = c.buffer ∧ c'.encoded = c.encoded ∧
      ((c.tryRecv overflowChecks shared head = .ok (c', .ok (c.buffer (c.getIdx head)).msg, true) ∧
          (c.buffer (c.getIdx head)).pos = head) ∨
        c.tryRecv overflowChecks shared head = .ok (c', ReceiverSync.tryRecv shared head, false) ∨
        ∃ message, ReceiverSync.tryRecv shared head = .ok (some message) ∧
          ∀ encoded, c.encoded.clear overflowChecks (c.getIdx head) = .ok encoded →
            c.tryRecv overflowChecks shared head =
              .ok ({ c' with
                encoded
                buffer := Function.update c.buffer (c.getIdx head) ⟨head, some message⟩ },
                .ok (some message), true)) := by
  obtain ⟨c', hc', hhead, hmask, hbuffer, hencoded⟩ : ∃ c' : MessagesCache,
      (if head > c.head then { c with head } else c) = c' ∧ c'.head = max head c.head ∧
        c'.mask = c.mask ∧ c'.buffer = c.buffer ∧ c'.encoded = c.encoded := by
    refine ⟨_, rfl, ?_⟩
    split
    · rename_i hlt
      exact ⟨(max_eq_left hlt.le).symm, rfl, rfl, rfl⟩
    · rename_i hle
      exact ⟨(max_eq_right (not_lt.mp hle)).symm, rfl, rfl, rfl⟩
  have hidx : c'.getIdx head = c.getIdx head := by
    unfold MessagesCache.getIdx
    rw [hmask]
  unfold MessagesCache.tryRecv
  simp only [hc', hidx, hbuffer, hencoded]
  rcases subU64_cases overflowChecks c'.head c'.mask with ⟨e, hsub, hchecks, hlt⟩ | ⟨low, hsub⟩
  · rw [hhead, hmask] at hlt
    exact Or.inl ⟨e, by rw [hsub], hchecks, hlt⟩
  · refine Or.inr ⟨c', hmask, hbuffer, hencoded, ?_⟩
    simp only [hsub]
    split
    · rename_i hcached
      exact Or.inl ⟨rfl, hcached.2⟩
    · refine Or.inr ?_
      cases hrecv : ReceiverSync.tryRecv shared head with
      | error e => exact Or.inl rfl
      | ok received =>
        cases received with
        | none => exact Or.inl rfl
        | some message =>
          by_cases hin : head ≥ low
          · refine Or.inr ⟨message, rfl, fun encoded hclear => ?_⟩
            simp only [hin, not_true_eq_false, if_false, hclear]
          · exact Or.inl (by simp only [hin, not_false_eq_true, if_true])

/-- What the receiver returns, each update encoded as without the cache. A message that was received there
before is returned also after it has left the ring. -/
def CacheRecv.Transparent (encodeUpdate : FilteredUpdateType → Bytes) (before : List CacheEvent)
    (r : CacheRecv) : Prop :=
  (r.result = r.plain ∨ r.plain = .error .lagged ∧ ∃ message r₀, .recv r₀ ∈ before ∧
    r₀.head = r.head ∧ r₀.plain = .ok (some message) ∧ r.result = .ok (some message)) ∧
  r.encoded = match r.result with
    | .ok (some message) =>
      (r.filter.getUpdatesRef message).map fun update => (update, update.encodeToVec encodeUpdate)
    | _ => []

/-- What a client got in the event. -/
def CacheEvent.recv? : CacheEvent → Option CacheRecv
  | channel _ => none
  | recv r => some r

def CacheEvent.Transparent (encodeUpdate : FilteredUpdateType → Bytes) (before : List CacheEvent) :
    CacheEvent → Prop
  | channel _ => True
  | recv r => r.Transparent encodeUpdate before

/-- A cell is empty or holds a message that was received at its position. -/
structure CacheView (size : ParsedMessage → ℕ) (encodeUpdate : FilteredUpdateType → Bytes)
    (j bytesMax : ℕ) (events : List CacheEvent) (s : CacheWorker) : Prop where
  stream : ∀ c, s.channel = some c → ∃ k events, ChannelInv size k events c
  mask : s.cache.mask = 2 ^ j - 1
  encoded : EncodedInv encodeUpdate j bytesMax (fun i => (s.cache.buffer i).msg) s.cache.encoded
  empty : ∀ i, (s.cache.buffer i).msg = none → (s.cache.buffer i).pos = 2 ^ 64 - 1
  received : ∀ i message, (s.cache.buffer i).msg = some message →
    (∃ r, .recv r ∈ events ∧ r.head = (s.cache.buffer i).pos ∧ r.plain = .ok (some message)) ∧
      ∃ c, s.channel = some c ∧ c.PublishedAt size (s.cache.buffer i).pos message
  transparent : AtEach (CacheEvent.Transparent encodeUpdate) events

namespace CacheView

variable {size : ParsedMessage → ℕ} {encodeUpdate : FilteredUpdateType → Bytes}
  {j bytesMax head : ℕ}
  {events : List CacheEvent} {s : CacheWorker} {cache : MessagesCache} {r : CacheRecv}
  {message : ParsedMessage} {overflowChecks : Bool}

theorem new {cfg : Option ConfigChannelInner} {messagesCachedMax encodedBytesMax : ℕ}
    (hj : nextPowerOfTwo messagesCachedMax = 2 ^ j) :
    CacheView size encodeUpdate j encodedBytesMax [] (.new cfg messagesCachedMax encodedBytesMax) where
  stream := by
    intro c hc
    obtain ⟨cfg, -, rfl⟩ := Option.map_eq_some_iff.mp hc
    obtain ⟨k, hk⟩ := exists_nextPowerOfTwo cfg.maxMessages
    exact ⟨k, [], .new hk⟩
  mask := congrArg (· - 1) hj
  encoded := by
    refine ⟨congrArg (· - 1) hj, rfl, fun i => EncodeCache.holds_default, ?_, Or.inl (Nat.zero_le _)⟩
    simp [CacheWorker.new, MessagesCache.new, totalBytes, EncodeCache.default]
  empty := by
    intro i _
    rfl
  received := by
    intro i message h
    cases h
  transparent := atEach_nil

theorem getIdx_eq (h : CacheView size encodeUpdate j bytesMax events s) (pos : ℕ) :
    s.cache.getIdx pos = pos % 2 ^ j := by
  unfold MessagesCache.getIdx
  rw [h.mask, Nat.and_two_pow_sub_one_eq_mod]

/-- The sender acts. -/
theorem send (h : CacheView size encodeUpdate j bytesMax events s) {c c' : Channel} {a : ChannelAction}
    {out : List ChannelEvent} (hc : s.channel = some c) (hstep : Channel.step size c a = .ok (c', out)) :
    CacheView size encodeUpdate j bytesMax (events ++ out.map .channel) { s with channel := some c' } where
  stream := by
    intro c₁ hc₁
    cases hc₁
    obtain ⟨k, events', hinv⟩ := h.stream c hc
    exact ⟨k, _, hinv.step hstep⟩
  mask := h.mask
  encoded := h.encoded
  empty := h.empty
  received := by
    intro i message hmsg
    obtain ⟨⟨r, hr, hrest⟩, c₁, hc₁, hpublished⟩ := h.received i message hmsg
    rw [hc] at hc₁
    cases hc₁
    exact ⟨⟨r, List.mem_append_left _ hr, hrest⟩, c', rfl, hpublished.step hstep⟩
  transparent := by
    rw [atEach_append]
    refine ⟨h.transparent, fun pre x post heq => ?_⟩
    have hx : x ∈ out.map CacheEvent.channel := by
      rw [heq]
      exact List.mem_append_right _ List.mem_cons_self
    obtain ⟨event, -, rfl⟩ := List.mem_map.mp hx
    trivial

/-- A turn that leaves the messages as they are. -/
theorem keep (h : CacheView size encodeUpdate j bytesMax events s) (hmask : cache.mask = s.cache.mask)
    (hbuffer : cache.buffer = s.cache.buffer)
    (hencoded : EncodedInv encodeUpdate j bytesMax (fun i => (s.cache.buffer i).msg) cache.encoded)
    (hr : r.Transparent encodeUpdate events) :
    CacheView size encodeUpdate j bytesMax (events ++ [.recv r]) { s with cache } where
  stream := h.stream
  mask := hmask.trans h.mask
  encoded := by
    simp only [hbuffer]
    exact hencoded
  empty := by
    simp only [hbuffer]
    exact h.empty
  received := by
    simp only [hbuffer]
    intro i message hmsg
    obtain ⟨⟨r₀, hr₀, hrest⟩, hpublished⟩ := h.received i message hmsg
    exact ⟨⟨r₀, List.mem_append_left _ hr₀, hrest⟩, hpublished⟩
  transparent := by
    rw [atEach_append, atEach_singleton, List.append_nil]
    exact ⟨h.transparent, hr⟩

/-- A turn that puts the message into its cell. -/
theorem fill (h : CacheView size encodeUpdate j bytesMax events s)
    (hrecv : ReceiverSync.tryRecv s.shared head = .ok (some message)) (hmask : cache.mask = s.cache.mask)
    {i : ℕ} (hbuffer : cache.buffer = Function.update s.cache.buffer i ⟨head, some message⟩)
    (hencoded : EncodedInv encodeUpdate j bytesMax (fun i => (cache.buffer i).msg) cache.encoded)
    (hhead : r.head = head) (hplain : r.plain = .ok (some message))
    (hr : r.Transparent encodeUpdate events) :
    CacheView size encodeUpdate j bytesMax (events ++ [.recv r]) { s with cache } where
  stream := h.stream
  mask := hmask.trans h.mask
  encoded := hencoded
  empty := by
    intro i' hmsg
    simp only [hbuffer] at hmsg ⊢
    by_cases heq : i' = i
    · subst heq
      simp at hmsg
    · rw [Function.update_of_ne heq] at hmsg ⊢
      exact h.empty i' hmsg
  received := by
    intro i' message' hmsg
    simp only [hbuffer] at hmsg ⊢
    by_cases heq : i' = i
    · subst heq
      rw [Function.update_self] at hmsg ⊢
      cases hmsg
      refine ⟨⟨r, by simp, hhead, hplain⟩, ?_⟩
      cases hc : s.channel with
      | none =>
        simp only [CacheWorker.shared, hc] at hrecv
        cases hrecv
      | some c =>
        simp only [CacheWorker.shared, hc] at hrecv
        obtain ⟨k, events', hinv⟩ := h.stream c hc
        exact ⟨c, rfl, publishedAt_of_tryRecv hinv hrecv⟩
    · rw [Function.update_of_ne heq] at hmsg ⊢
      obtain ⟨⟨r₀, hr₀, hrest⟩, hpublished⟩ := h.received i' message' hmsg
      exact ⟨⟨r₀, List.mem_append_left _ hr₀, hrest⟩, hpublished⟩
  transparent := by
    rw [atEach_append, atEach_singleton, List.append_nil]
    exact ⟨h.transparent, hr⟩

theorem zip_toVec {updates : List FilteredUpdate} {outs : List SharedEncodedUpdate}
    (h : outs.map (·.toVec) = updates.map (FilteredUpdate.encodeToVec encodeUpdate)) :
    updates.zip (outs.map (·.toVec)) =
      updates.map fun update => (update, update.encodeToVec encodeUpdate) := by
  calc updates.zip (outs.map (·.toVec))
      = (updates.map id).zip (updates.map (FilteredUpdate.encodeToVec encodeUpdate)) := by
        rw [h, List.map_id]
    _ = updates.map fun update => (update, update.encodeToVec encodeUpdate) := List.zip_map'

/-- A position before the cells of the cache are full. -/
theorem recv_underflow (hlt : max head s.cache.head < s.cache.mask) (filter : UpdatesFilter) :
    s.recv true encodeUpdate head filter = .error "attempt to subtract with overflow" := by
  have hsub : ∀ a b, a < b → subU64 true a b = .error "attempt to subtract with overflow" := by
    intro a b hab
    unfold subU64
    rw [if_neg (not_le.mpr hab), if_pos rfl]
  have htry : s.cache.tryRecv true s.shared head = .error "attempt to subtract with overflow" := by
    unfold MessagesCache.tryRecv
    split
    · simp only [hsub _ _ ((le_max_left ..).trans_lt hlt)]
    · simp only [hsub _ _ ((le_max_right ..).trans_lt hlt)]
  unfold CacheWorker.recv
  rw [htry]

/-- **A turn of a client** fails only in the subtraction, and returns what is transparent. -/
theorem recv (h : CacheView size encodeUpdate j bytesMax events s) (hhead : head < 2 ^ 64 - 1)
    (overflowChecks : Bool) (filter : UpdatesFilter) :
    (∃ e, s.recv overflowChecks encodeUpdate head filter = .error e ∧ overflowChecks = true ∧
      max head s.cache.head < s.cache.mask) ∨
    ∃ s' r, s.recv overflowChecks encodeUpdate head filter = .ok (s', r) ∧
      CacheView size encodeUpdate j bytesMax (events ++ [.recv r]) s' := by
  have hidx := h.getIdx_eq head
  have hlt : head % 2 ^ j < 2 ^ j := Nat.mod_lt _ (Nat.two_pow_pos j)
  unfold CacheWorker.recv
  rcases MessagesCache.tryRecv_cases overflowChecks s.cache s.shared head with
    ⟨e, herror, hchecks⟩ | ⟨c', hmask, hbuffer, hencoded, hcases⟩
  · exact Or.inl ⟨e, by rw [herror], hchecks⟩
  refine Or.inr ?_
  rcases hcases with ⟨hrecv, hpos⟩ | hrecv | ⟨message, hplain, hfill⟩
  · -- in the cache
    rw [hidx] at hrecv hpos
    cases hmsg : (s.cache.buffer (head % 2 ^ j)).msg with
    | none =>
      have hempty := h.empty _ hmsg
      omega
    | some message =>
      obtain ⟨⟨r₀, hr₀, hr₀head, hr₀plain⟩, c, hc, hpublished⟩ := h.received _ _ hmsg
      rw [hpos] at hr₀head hpublished
      have hshared : s.shared = some c.sender.shared := by
        unfold CacheWorker.shared
        rw [hc]
        rfl
      obtain ⟨c₁, outs, hencode, hinv, houts⟩ := EncodedInv.encodeAll hmsg overflowChecks h.encoded
        (filter.message_eq message)
      rw [hmsg] at hrecv
      simp only [hrecv, hencoded, hencode]
      refine ⟨_, _, rfl, h.keep hmask hbuffer hinv ⟨?_, zip_toVec houts⟩⟩
      rcases hpublished.tryRecv with hagain | hlagged
      · exact Or.inl (by rw [hshared, hagain])
      · exact Or.inr ⟨by rw [hshared, hlagged], message, r₀, hr₀, hr₀head, hr₀plain, rfl⟩
  · -- the receiver alone
    have hinv : EncodedInv encodeUpdate j bytesMax (fun i => (s.cache.buffer i).msg) c'.encoded := by
      rw [hencoded]
      exact h.encoded
    cases hplain : ReceiverSync.tryRecv s.shared head with
    | error e =>
      simp only [hrecv, hplain]
      exact ⟨_, _, rfl, h.keep hmask hbuffer hinv ⟨Or.inl rfl, rfl⟩⟩
    | ok received =>
      cases received with
      | none =>
        simp only [hrecv, hplain]
        exact ⟨_, _, rfl, h.keep hmask hbuffer hinv ⟨Or.inl rfl, rfl⟩⟩
      | some message =>
        simp only [hrecv, hplain]
        refine ⟨_, _, rfl, h.keep hmask hbuffer hinv ⟨Or.inl rfl, ?_⟩⟩
        calc (filter.getUpdatesRef message).zip ((filter.getUpdatesRef message).map
              (FilteredUpdate.encodeToVec encodeUpdate))
            = ((filter.getUpdatesRef message).map id).zip ((filter.getUpdatesRef message).map
              (FilteredUpdate.encodeToVec encodeUpdate)) := by rw [List.map_id]
          _ = _ := List.zip_map'
  · -- the message is new in its cell
    rw [hidx] at hfill
    have hother : ∀ i, i ≠ head % 2 ^ j →
        (Function.update s.cache.buffer (head % 2 ^ j) ⟨head, some message⟩ i).msg =
          (s.cache.buffer i).msg := by
      intro i hi
      rw [Function.update_of_ne hi]
    have hmsg : (Function.update s.cache.buffer (head % 2 ^ j) ⟨head, some message⟩
        (head % 2 ^ j)).msg = some message := by rw [Function.update_self]
    obtain ⟨c₁, hclear, hinv, -⟩ := h.encoded.clear hlt overflowChecks hother
    obtain ⟨c₂, outs, hencode, hinv₂, houts⟩ := EncodedInv.encodeAll hmsg overflowChecks hinv
      (filter.message_eq message)
    simp only [hfill c₁ hclear, if_true, hencode]
    refine ⟨_, _, rfl, h.fill hplain ?_ rfl ?_ rfl hplain ⟨Or.inl ?_, zip_toVec houts⟩⟩
    · exact hmask
    · exact hinv₂
    · exact hplain.symm

theorem step (h : CacheView size encodeUpdate j bytesMax events s) {a : CacheAction} {s' : CacheWorker}
    {out : List CacheEvent} (hstep : CacheWorker.step size overflowChecks encodeUpdate s a = .ok (s', out)) :
    CacheView size encodeUpdate j bytesMax (events ++ out) s' := by
  obtain ⟨channel, cache⟩ := s
  cases a with
  | channel action =>
    cases channel with
    | none => cases hstep
    | some channel =>
      simp only [CacheWorker.step] at hstep
      split at hstep
      · cases hstep
      · rename_i channel' out' hchannel
        obtain ⟨rfl, rfl⟩ := Prod.mk.inj (Except.ok.inj hstep)
        exact h.send rfl hchannel
  | recv head filter =>
    simp only [CacheWorker.step] at hstep
    rcases h.recv head.2 overflowChecks filter with ⟨e, herror, -⟩ | ⟨s₁, r, hok, h₁⟩
    · rw [herror] at hstep
      cases hstep
    · rw [hok] at hstep
      obtain ⟨rfl, rfl⟩ := Prod.mk.inj (Except.ok.inj hstep)
      exact h₁

end CacheView

/-- The counter is the sum of the sizes of the bodies, and without one of them it is within the limit. -/
def EncodedCache.Counted (cells bytesMax : ℕ) (c : EncodedCache) : Prop :=
  c.bytes = ∑ i ∈ Finset.range cells, (((c.buffer i).bodies.filterMap (·.2)).map (·.length)).sum ∧
    (c.bytes ≤ bytesMax ∨ ∃ i < cells, ∃ key body, (key, some body) ∈ (c.buffer i).bodies ∧
      c.bytes < bytesMax + body.length)

namespace CacheWorker

variable {size : ParsedMessage → ℕ} {overflowChecks : Bool} {encodeUpdate : FilteredUpdateType → Bytes}
  {cfg : Option ConfigChannelInner} {messagesCachedMax encodedBytesMax : ℕ} {actions : List CacheAction}
  {s : CacheWorker} {events : List CacheEvent}

end CacheWorker

end Richat
