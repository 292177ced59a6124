import Mathlib.Data.List.AList
import Richat.Storage.JournalOrder
import Richat.Storage.MetadataDb

/-!
# The catalog and its rows

`Reflects` says which rows the database has for a catalog. Every commit keeps it: the batch and the change of
the mirror do the same to it, the chunks of a trim by their first indices on one side and by their segments
on the other. `load_of_reflects` reads the catalog from these rows.
-/

namespace Richat

open Lib Lib.Protobuf

/-! ### The values of the rows -/

def MetadataState.Fits (state : MetadataState) : Prop :=
  state.nextSegmentId < 2 ^ 64 ∧ state.activeSegmentId < 2 ^ 64

def SlotMeta.Fits (m : SlotMeta) : Prop :=
  m.slot < 2 ^ 64 ∧ m.firstIndex < 2 ^ 64 ∧ m.segmentId < 2 ^ 64

def SegmentMeta.Fits (m : SegmentMeta) : Prop :=
  m.segmentId < 2 ^ 64 ∧ m.lastIndex < 2 ^ 64 ∧ m.fileLen < 2 ^ 64 ∧ m.chunkCount < 2 ^ 32

def ChunkMeta.Fits (m : ChunkMeta) : Prop :=
  m.segmentId < 2 ^ 64 ∧ m.offset < 2 ^ 64 ∧ m.size < 2 ^ 64 ∧ m.compression < 2 ^ 8 ∧
    m.firstIndex < 2 ^ 64 ∧ m.lastIndex < 2 ^ 64

/-- The numbers of the call are of the types of their fields. -/
def MetadataCall.Fits : MetadataCall → Prop
  | .open => True
  | .initializeEmpty state segment => state.Fits ∧ segment.Fits
  | .chunk commit =>
    (∀ m ∈ commit.newSlots, m.Fits) ∧ (∀ m ∈ commit.updatedSlots, m.Fits) ∧ commit.chunk.Fits ∧
      commit.segment.Fits ∧ commit.state.Fits
  | .trim commit =>
    commit.removedSlot < 2 ^ 64 ∧ (∀ slot ∈ commit.deletedSlots, slot < 2 ^ 64) ∧
      (∀ firstIndex ∈ commit.deletedChunks, firstIndex < 2 ^ 64) ∧
      ∀ segmentId ∈ commit.deletedSegments, segmentId < 2 ^ 64
  | .rotation commit => commit.sealedSegment.Fits ∧ commit.newSegment.Fits ∧ commit.state.Fits
  | .replayFloor index => index < 2 ^ 64

section Codec

variable {α : Type} {w n : ℕ}

theorem takeNumber_append (h : n < 2 ^ (8 * w)) (rest : Bytes) (f : ℕ × Bytes → Except MetadataError α) :
    (takeNumber w (toBe w n ++ rest) >>= f) = f (n, rest) := by
  rw [takeNumber, takeBe_append h]
  rfl

theorem takeNumber_toBe (h : n < 2 ^ (8 * w)) (f : ℕ × Bytes → Except MetadataError α) :
    (takeNumber w (toBe w n) >>= f) = f (n, []) := by
  rw [takeNumber, takeBe_toBe h]
  rfl

theorem takeBool_encodeBool (b : Bool) (rest : Bytes) (f : Bool × Bytes → Except MetadataError α) :
    (takeBool (encodeBool b ++ rest) >>= f) = f (b, rest) := by
  have hbe : encodeBool b = toBe 1 (if b then 1 else 0) := by cases b <;> rfl
  rw [takeBool, hbe, takeNumber_append (by cases b <;> decide)]
  cases b <;> rfl

theorem decodeU64Key_encodeU64Key (h : n < 2 ^ 64) : decodeU64Key (encodeU64Key n) = .ok n := by
  rw [decodeU64Key, encodeU64Key, length_toBe, if_pos rfl, ofBe_toBe h]

theorem encodeU64Key_inj {m : ℕ} (hn : n < 2 ^ 64) (hm : m < 2 ^ 64) (h : encodeU64Key n = encodeU64Key m) :
    n = m :=
  toBe_inj hn hm h

theorem MetadataState.decode_encode {state : MetadataState} (h : state.Fits) :
    MetadataState.decode state.encode = .ok state := by
  obtain ⟨hnext, hactive⟩ := h
  have hversion : MetadataState.stateFormatVersion < 2 ^ (8 * 2) := by decide
  simp only [MetadataState.encode, MetadataState.decode, List.append_assoc, takeNumber_append hversion, ne_eq,
    not_true_eq_false, if_false, takeNumber_append (w := 8) hnext, takeNumber_toBe (w := 8) hactive]
  rfl

theorem SlotMeta.decode_encode {m : SlotMeta} (h : m.Fits) : SlotMeta.decode m.slot m.encode = .ok m := by
  obtain ⟨-, hfirst, hsegment⟩ := h
  simp only [SlotMeta.encode, SlotMeta.decode, List.append_assoc, takeBool_encodeBool,
    takeNumber_append (w := 8) hfirst, takeNumber_toBe (w := 8) hsegment]
  rfl

theorem SegmentMeta.decode_encode {m : SegmentMeta} (h : m.Fits) :
    SegmentMeta.decode m.segmentId m.encode = .ok m := by
  obtain ⟨-, hlast, hlen, hcount⟩ := h
  simp only [SegmentMeta.encode, SegmentMeta.decode, List.append_assoc, takeBool_encodeBool,
    takeNumber_append (w := 8) hlast, takeNumber_append (w := 8) hlen, takeNumber_toBe (w := 4) hcount]
  rfl

theorem ChunkMeta.decode_encode {m : ChunkMeta} (h : m.Fits) :
    ChunkMeta.decode m.firstIndex m.encode = .ok m := by
  obtain ⟨hsegment, hoffset, hsize, hcompression, -, hlast⟩ := h
  simp only [ChunkMeta.encode, ChunkMeta.decode, List.append_assoc, takeNumber_append (w := 8) hsegment,
    takeNumber_append (w := 8) hoffset, takeNumber_append (w := 8) hsize,
    takeNumber_append (w := 1) hcompression, takeNumber_toBe (w := 8) hlast]
  rfl

end Codec

/-! ### The rows of a column family -/

section Rows

variable {lib : RocksDb} {db : lib.Db} {column : Column} {R : ℕ → Bytes → Prop} {batch : List BatchOp}

/-- The rows of a column family that has them by numbers. -/
def Holds (lib : RocksDb) (db : lib.Db) (column : Column) (R : ℕ → Bytes → Prop) : Prop :=
  ∀ key value, lib.get db column key = some value ↔ ∃ n < 2 ^ 64, key = encodeU64Key n ∧ R n value

/-- What an operation with a number as its key does to the rows of its column. -/
inductive RowOp where
  | put (n : ℕ) (value : Bytes)
  | delete (n : ℕ)

def RowOp.n : RowOp → ℕ
  | put n _ | delete n => n

def RowOp.batchOp (column : Column) : RowOp → BatchOp
  | put n value => .put column (encodeU64Key n) value
  | delete n => .delete column (encodeU64Key n)

def RowOp.rows (R : ℕ → Bytes → Prop) : RowOp → ℕ → Bytes → Prop
  | put n value => fun m v => if m = n then v = value else R m v
  | delete n => fun m v => m ≠ n ∧ R m v

def BatchOp.family : BatchOp → Column
  | put c _ _ | delete c _ => c

/-- The operations of a batch on a column family, in their order. -/
def rowOps (column : Column) (batch : List BatchOp) : List BatchOp := batch.filter (·.family = column)

theorem foldl_rowOps (column : Column) (key : Bytes) (batch : List BatchOp) : ∀ row : Option Bytes,
    batch.foldl (BatchOp.row column key) row = (rowOps column batch).foldl (BatchOp.row column key) row := by
  induction batch with
  | nil => exact fun _ => rfl
  | cons op batch ih =>
    intro row
    by_cases hcolumn : op.family = column
    · rw [rowOps, List.filter_cons_of_pos (by simpa using hcolumn), List.foldl_cons, List.foldl_cons, ih]
      rfl
    · have hsame : BatchOp.row column key row op = row := by
        cases op with
        | put c k value => exact if_neg fun h => hcolumn h.1
        | delete c k => exact if_neg fun h => hcolumn h.1
      rw [rowOps, List.filter_cons_of_neg (by simpa using hcolumn), List.foldl_cons, hsame, ih]
      rfl

/-- A row after operations with numbers as their keys. -/
theorem foldl_batchOp {key : Bytes} : ∀ {ops : List RowOp} {row : Option Bytes} {R : ℕ → Bytes → Prop},
    (∀ op ∈ ops, op.n < 2 ^ 64) →
    (∀ value, row = some value ↔ ∃ n < 2 ^ 64, key = encodeU64Key n ∧ R n value) →
    ∀ value, (ops.map (RowOp.batchOp column)).foldl (BatchOp.row column key) row = some value ↔
      ∃ n < 2 ^ 64, key = encodeU64Key n ∧ ops.foldl RowOp.rows R n value
  | [], _, _, _, hrow => hrow
  | op :: ops, row, R, hops, hrow => by
    rw [List.map_cons, List.foldl_cons, List.foldl_cons]
    refine foldl_batchOp (fun op' hop' => hops op' (List.mem_cons_of_mem _ hop')) fun value => ?_
    cases op with
    | put n value' =>
      have hn : n < 2 ^ 64 := hops _ List.mem_cons_self
      simp only [RowOp.batchOp, BatchOp.row, RowOp.rows, true_and]
      by_cases hkey : encodeU64Key n = key
      · rw [if_pos hkey]
        constructor
        · rintro ⟨⟩
          exact ⟨n, hn, hkey.symm, by simp⟩
        · rintro ⟨m, hm, hkey', hvalue⟩
          obtain rfl := encodeU64Key_inj hn hm (hkey.trans hkey')
          rw [if_pos rfl] at hvalue
          rw [hvalue]
      · rw [if_neg hkey, hrow]
        refine exists_congr fun m => and_congr_right fun hm => and_congr_right fun hkey' => ?_
        rw [if_neg fun heq : m = n => hkey (heq ▸ hkey'.symm)]
    | delete n =>
      have hn : n < 2 ^ 64 := hops _ List.mem_cons_self
      simp only [RowOp.batchOp, BatchOp.row, RowOp.rows, true_and]
      by_cases hkey : encodeU64Key n = key
      · rw [if_pos hkey]
        refine iff_of_false (by simp) ?_
        rintro ⟨m, hm, hkey', hne, -⟩
        exact hne (encodeU64Key_inj hm hn (hkey'.symm.trans hkey.symm))
      · rw [if_neg hkey, hrow]
        refine exists_congr fun m => and_congr_right fun hm => and_congr_right fun hkey' => ?_
        exact ⟨fun h => ⟨fun heq => hkey (heq ▸ hkey'.symm), h⟩, fun h => h.2⟩

/-- A batch that does some operations to a column family. -/
theorem Holds.writeBatch {ops : List RowOp} (h : Holds lib db column R)
    (hbatch : rowOps column batch = ops.map (RowOp.batchOp column)) (hops : ∀ op ∈ ops, op.n < 2 ^ 64) :
    Holds lib (lib.writeBatch db batch) column (ops.foldl RowOp.rows R) := by
  intro key value
  rw [lib.get_writeBatch, foldl_rowOps, hbatch]
  exact foldl_batchOp hops (h key) value

theorem Holds.writeBatch_of_none (h : Holds lib db column R) (hbatch : rowOps column batch = []) :
    Holds lib (lib.writeBatch db batch) column R := by
  intro key value
  rw [lib.get_writeBatch, foldl_rowOps, hbatch]
  exact h key value

end Rows

/-! ### The load -/

section Load

variable {lib : RocksDb} {db : lib.Db} {column : Column} {α : Type} (decode : ℕ → Bytes → Except MetadataError α)

/-- Rows that decode are all decoded, and nothing else is. -/
theorem loadRows_ok {P : Bytes × Bytes → ℕ × α → Prop}
    (hP : ∀ row x, P row x → row.1 = encodeU64Key x.1 ∧ x.1 < 2 ^ 64 ∧ decode x.1 row.2 = .ok x.2) :
    ∀ rows : List (Bytes × Bytes), (∀ row ∈ rows, ∃ x, P row x) →
      ∃ loaded, loadRows decode rows = .ok loaded ∧
        rows.map Prod.fst = (loaded.map Prod.fst).map encodeU64Key ∧
        (∀ row ∈ rows, ∃ x ∈ loaded, P row x) ∧ ∀ x ∈ loaded, ∃ row ∈ rows, P row x
  | [], _ => ⟨[], rfl, rfl, by simp, by simp⟩
  | row :: rows, h => by
    obtain ⟨x, hx⟩ := h row List.mem_cons_self
    obtain ⟨loaded, hload, hkeys, hleft, hright⟩ :=
      loadRows_ok hP rows fun row' hrow' => h row' (List.mem_cons_of_mem _ hrow')
    obtain ⟨hkey, hlt, hvalue⟩ := hP row x hx
    refine ⟨x :: loaded, ?_, by simp [hkeys, hkey], ?_, ?_⟩
    · rw [loadRows, hkey, decodeU64Key_encodeU64Key hlt]
      simp only [hvalue, hload, bind, Except.bind, pure, Except.pure]
    · intro row' hrow'
      rcases List.mem_cons.mp hrow' with rfl | hrow'
      · exact ⟨x, List.mem_cons_self, hx⟩
      · obtain ⟨x', hmem, hx'⟩ := hleft row' hrow'
        exact ⟨x', List.mem_cons_of_mem _ hmem, hx'⟩
    · intro x' hx'
      rcases List.mem_cons.mp hx' with rfl | hx'
      · exact ⟨row, List.mem_cons_self, hx⟩
      · obtain ⟨row', hmem, hrow'⟩ := hright x' hx'
        exact ⟨row', List.mem_cons_of_mem _ hmem, hrow'⟩

/-- A column family is read as it was written. -/
theorem loadRows_holds {g : ℕ → α → Prop} {encode : α → Bytes}
    (h : Holds lib db column fun n value => ∃ x, g n x ∧ value = encode x) (hlt : ∀ n x, g n x → n < 2 ^ 64)
    (hcodec : ∀ n x, g n x → decode n (encode x) = .ok x) :
    ∃ loaded, loadRows decode (lib.iterator db column) = .ok loaded ∧ (loaded.map Prod.fst).Nodup ∧
      ∀ n x, (n, x) ∈ loaded ↔ g n x := by
  obtain ⟨loaded, hload, hkeys, hleft, hright⟩ := loadRows_ok decode
    (P := fun row x => row.1 = encodeU64Key x.1 ∧ g x.1 x.2 ∧ row.2 = encode x.2)
    (fun row x ⟨hkey, hg, hvalue⟩ => ⟨hkey, hlt _ _ hg, hvalue ▸ hcodec _ _ hg⟩)
    (lib.iterator db column) (fun row hrow => by
      obtain ⟨n, -, hkey, x, hg, hvalue⟩ := (h row.1 row.2).mp ((lib.mem_iterator ..).mp hrow)
      exact ⟨(n, x), hkey, hg, hvalue⟩)
  refine ⟨loaded, hload, (hkeys ▸ lib.iterator_nodup db column).of_map _, fun n x => ⟨fun hmem => ?_, fun hg => ?_⟩⟩
  · obtain ⟨-, -, -, hg, -⟩ := hright (n, x) hmem
    exact hg
  · have hrow := (lib.mem_iterator ..).mpr ((h (encodeU64Key n) (encode x)).mpr ⟨n, hlt n x hg, rfl, x, hg, rfl⟩)
    obtain ⟨⟨n', x'⟩, hmem, hkey, hg', hvalue⟩ := hleft _ hrow
    obtain rfl := encodeU64Key_inj (hlt _ _ hg) (hlt _ _ hg') hkey
    have hsame := hcodec n x hg
    rw [show encode x = encode x' from hvalue, hcodec n x' hg'] at hsame
    obtain rfl := Except.ok.inj hsame
    exact hmem

theorem get?_mapOfRows {n : ℕ} {x : α} : ∀ {rows : List (ℕ × α)} {m : SortedMap ℕ α},
    (rows.map Prod.fst).Nodup →
    ((rows.foldl (fun m row => m.insert row.1 row.2) m).get? n = some x ↔
      (n, x) ∈ rows ∨ n ∉ rows.map Prod.fst ∧ m.get? n = some x)
  | [], m, _ => by simp
  | (k, y) :: rows, m, hnodup => by
    obtain ⟨hk, hrows⟩ := List.nodup_cons.mp hnodup
    rw [List.foldl_cons, get?_mapOfRows hrows, SortedMap.get?_insert]
    by_cases hn : n = k
    · subst hn
      have hnot : (n, x) ∉ rows := fun hmem => hk (List.mem_map.mpr ⟨(n, x), hmem, rfl⟩)
      simp [hk, hnot, eq_comm]
    · simp [hn]

/-- A map is its lookups. -/
theorem mapOfRows_eq {m : SortedMap ℕ α} {rows : List (ℕ × α)} (hnodup : (rows.map Prod.fst).Nodup)
    (hmem : ∀ n x, (n, x) ∈ rows ↔ m.get? n = some x) : mapOfRows rows = m := by
  refine SortedMap.ext_get? fun n => Option.ext fun x => ?_
  rw [mapOfRows, get?_mapOfRows hnodup, ← hmem]
  simp

end Load

/-! ### The rows of a catalog -/

/-- The database has the rows of the catalog. -/
structure Reflects (lib : RocksDb) (db : lib.Db) (catalog : MetadataMirror) : Prop where
  state : lib.get db .state stateKey = some catalog.state.encode
  replayFloor : lib.get db .state replayFloorKey = some (toBe 8 catalog.replayFloor) ∨
    lib.get db .state replayFloorKey = none ∧ catalog.replayFloor = 0
  slots : Holds lib db .slots fun n value => ∃ m, catalog.slots.get? n = some m ∧ value = m.encode
  segments : Holds lib db .segments fun n value => ∃ m, catalog.segments.get? n = some m ∧ value = m.encode
  chunks : Holds lib db .chunks fun n value =>
    ∃ m, (m ∈ catalog.chunks ∧ m.firstIndex = n) ∧ value = m.encode

/-- The rows are under their own numbers, which are of the types of their fields, and the chunks in order. -/
structure MetadataMirror.WellFormed (catalog : MetadataMirror) : Prop where
  state : catalog.state.Fits
  replayFloor : catalog.replayFloor < 2 ^ 64
  slots : ∀ n m, catalog.slots.get? n = some m → m.slot = n ∧ m.Fits
  segments : ∀ n m, catalog.segments.get? n = some m → m.segmentId = n ∧ m.Fits
  chunks : ∀ m ∈ catalog.chunks, m.Fits
  order : catalog.chunks.Pairwise fun a b => a.firstIndex < b.firstIndex

section Reflects

variable {lib : RocksDb} {db : lib.Db} {catalog : MetadataMirror}

theorem MetadataMirror.WellFormed.chunk_inj (h : catalog.WellFormed) {a b : ChunkMeta} (ha : a ∈ catalog.chunks)
    (hb : b ∈ catalog.chunks) (heq : a.firstIndex = b.firstIndex) : a = b := by
  by_contra hne
  have hsymm : Std.Symm fun a b : ChunkMeta => a.firstIndex ≠ b.firstIndex := ⟨fun _ _ h => h.symm⟩
  exact (h.order.imp fun hlt => hlt.ne).forall ha hb hne heq

/-- The chunks come in the order of their first indices. -/
theorem mergeSort_chunks {rows : List (ℕ × ChunkMeta)} (hwf : catalog.WellFormed)
    (hkeys : (rows.map Prod.fst).Nodup)
    (hmem : ∀ n m, (n, m) ∈ rows ↔ m ∈ catalog.chunks ∧ m.firstIndex = n) :
    (rows.map Prod.snd).mergeSort (fun a b => a.firstIndex ≤ b.firstIndex) = catalog.chunks := by
  have hchunk : ∀ m, m ∈ rows.map Prod.snd ↔ m ∈ catalog.chunks := by
    intro m
    constructor
    · intro hm
      obtain ⟨⟨n, m⟩, hrow, rfl⟩ := List.mem_map.mp hm
      exact ((hmem n m).mp hrow).1
    · intro hm
      exact List.mem_map.mpr ⟨(m.firstIndex, m), (hmem _ m).mpr ⟨hm, rfl⟩, rfl⟩
  have hfirst : rows.map Prod.fst = (rows.map Prod.snd).map (·.firstIndex) := by
    rw [List.map_map]
    exact List.map_congr_left fun row hrow => ((hmem row.1 row.2).mp hrow).2.symm
  have hperm : (rows.map Prod.snd).Perm catalog.chunks :=
    (List.perm_ext_iff_of_nodup ((hfirst ▸ hkeys).of_map _) (hwf.order.imp fun hlt heq => by
      rw [heq] at hlt
      exact lt_irrefl _ hlt)).mpr hchunk
  refine ((List.mergeSort_perm ..).trans hperm).eq_of_pairwise ?_
    (List.pairwise_mergeSort ?_ ?_ _) (hwf.order.imp fun hlt => by simpa using hlt.le)
  · intro a b ha hb hab hba
    have ha' := (hchunk a).mp ((List.mergeSort_perm ..).mem_iff.mp ha)
    exact hwf.chunk_inj ha' hb (le_antisymm (by simpa using hab) (by simpa using hba))
  · intro a b c hab hbc
    simp only [decide_eq_true_eq] at hab hbc ⊢
    omega
  · intro a b
    simp only [Bool.or_eq_true, decide_eq_true_eq]
    omega

/-- **The catalog is loaded from its rows.** -/
theorem load_of_reflects (h : Reflects lib db catalog) (hwf : catalog.WellFormed) :
    Metadata.loadCatalogFromDb lib db = .ok catalog := by
  have hstate : Metadata.readState lib db = .ok (some catalog.state) := by
    rw [Metadata.readState, h.state]
    simp only [MetadataState.decode_encode hwf.state, Except.map]
  have hfloor : Metadata.readReplayFloor lib db = .ok catalog.replayFloor := by
    rw [Metadata.readReplayFloor]
    rcases h.replayFloor with hget | ⟨hget, hzero⟩
    · rw [hget]
      exact decodeU64Key_encodeU64Key hwf.replayFloor
    · rw [hget, hzero]
  obtain ⟨slots, hslots, hslotKeys, hslotMem⟩ := loadRows_holds SlotMeta.decode h.slots
    (fun n m hm => (hwf.slots n m hm).1 ▸ (hwf.slots n m hm).2.1)
    (fun n m hm => (hwf.slots n m hm).1 ▸ SlotMeta.decode_encode (hwf.slots n m hm).2)
  obtain ⟨segments, hsegments, hsegmentKeys, hsegmentMem⟩ := loadRows_holds SegmentMeta.decode
    h.segments (fun n m hm => (hwf.segments n m hm).1 ▸ (hwf.segments n m hm).2.1)
    (fun n m hm => (hwf.segments n m hm).1 ▸ SegmentMeta.decode_encode (hwf.segments n m hm).2)
  obtain ⟨chunks, hchunks, hchunkKeys, hchunkMem⟩ := loadRows_holds ChunkMeta.decode h.chunks
    (fun n m hm => hm.2 ▸ (hwf.chunks m hm.1).2.2.2.2.1)
    (fun n m hm => hm.2 ▸ ChunkMeta.decode_encode (hwf.chunks m hm.1))
  have hsorted := mergeSort_chunks hwf hchunkKeys hchunkMem
  simp only [Metadata.loadCatalogFromDb, hstate, hslots, hsegments, hchunks, hfloor, bind, Except.bind, pure,
    Except.pure, mapOfRows_eq hslotKeys hslotMem, mapOfRows_eq hsegmentKeys hsegmentMem, hsorted]
  rfl

end Reflects

/-! ### The batches -/

section Batches

variable {column : Column}

theorem rowOps_append (batch batch' : List BatchOp) :
    rowOps column (batch ++ batch') = rowOps column batch ++ rowOps column batch' := List.filter_append ..

theorem rowOps_map {β : Type} {f : β → BatchOp} {family : Column} (hf : ∀ x, (f x).family = family)
    (l : List β) : rowOps column (l.map f) = if family = column then l.map f else [] := by
  unfold rowOps
  split
  · rename_i heq
    exact List.filter_eq_self.mpr fun op hop => by
      obtain ⟨x, -, rfl⟩ := List.mem_map.mp hop
      simp [hf, heq]
  · rename_i hne
    exact List.filter_eq_nil_iff.mpr fun op hop => by
      obtain ⟨x, -, rfl⟩ := List.mem_map.mp hop
      simp [hf, hne]

/-- The operations of a chunk commit. -/
theorem rowOps_chunkBatch (commit : MetadataChunkCommit) :
    rowOps .slots (Metadata.chunkBatch commit) =
        ((commit.newSlots ++ commit.updatedSlots).map fun m => RowOp.put m.slot m.encode).map
          (RowOp.batchOp .slots) ∧
      rowOps .segments (Metadata.chunkBatch commit) =
        [RowOp.put commit.segment.segmentId commit.segment.encode].map (RowOp.batchOp .segments) ∧
      rowOps .chunks (Metadata.chunkBatch commit) =
        [RowOp.put commit.chunk.firstIndex commit.chunk.encode].map (RowOp.batchOp .chunks) ∧
      rowOps .state (Metadata.chunkBatch commit) = [Metadata.putState commit.state] := by
  have hslot : ∀ m, (Metadata.putSlot m).family = .slots := fun _ => rfl
  have hmap : ((commit.newSlots ++ commit.updatedSlots).map fun m => RowOp.put m.slot m.encode).map
      (RowOp.batchOp .slots) = commit.newSlots.map Metadata.putSlot ++ commit.updatedSlots.map Metadata.putSlot := by
    rw [List.map_map, List.map_append]
    rfl
  simp only [Metadata.chunkBatch, rowOps_append, rowOps_map hslot, hmap]
  simp [rowOps, Metadata.putChunk, Metadata.putSegment, Metadata.putState, BatchOp.family, RowOp.batchOp]

/-- The operations of a trim. -/
theorem rowOps_trimBatch (commit : MetadataTrimCommit) :
    rowOps .slots (Metadata.trimBatch commit) =
        ((commit.removedSlot :: commit.deletedSlots).map RowOp.delete).map (RowOp.batchOp .slots) ∧
      rowOps .segments (Metadata.trimBatch commit) =
        (commit.deletedSegments.map RowOp.delete).map (RowOp.batchOp .segments) ∧
      rowOps .chunks (Metadata.trimBatch commit) =
        (commit.deletedChunks.map RowOp.delete).map (RowOp.batchOp .chunks) ∧
      rowOps .state (Metadata.trimBatch commit) = [] := by
  have hdelete : ∀ (family : Column) (n : ℕ), (BatchOp.delete family (encodeU64Key n)).family = family :=
    fun _ _ => rfl
  have hhead : Metadata.trimBatch commit =
      ((commit.removedSlot :: commit.deletedSlots).map fun n => .delete .slots (encodeU64Key n)) ++
        (commit.deletedChunks.map fun n => .delete .chunks (encodeU64Key n)) ++
        commit.deletedSegments.map fun n => .delete .segments (encodeU64Key n) := rfl
  simp only [hhead, rowOps_append, rowOps_map (hdelete .slots), rowOps_map (hdelete .chunks),
    rowOps_map (hdelete .segments), List.map_map, Function.comp_def, RowOp.batchOp]
  simp

theorem rowOps_rotationBatch (commit : RotationCommit) :
    rowOps .slots (Metadata.rotationBatch commit) = [] ∧
      rowOps .segments (Metadata.rotationBatch commit) =
        [RowOp.put commit.sealedSegment.segmentId commit.sealedSegment.encode,
          RowOp.put commit.newSegment.segmentId commit.newSegment.encode].map (RowOp.batchOp .segments) ∧
      rowOps .chunks (Metadata.rotationBatch commit) = [] ∧
      rowOps .state (Metadata.rotationBatch commit) = [Metadata.putState commit.state] := by
  simp [Metadata.rotationBatch, rowOps, Metadata.putSegment, Metadata.putState, BatchOp.family, RowOp.batchOp]

/-- A row is written under its number. -/
theorem rows_put {υ : Type} {m : SortedMap ℕ υ} {encode : υ → Bytes} {n : ℕ} {x : υ} :
    (RowOp.put n (encode x)).rows (fun n value => ∃ y, m.get? n = some y ∧ value = encode y) =
      fun k value => ∃ y, (m.insert n x).get? k = some y ∧ value = encode y := by
  funext k value
  simp only [RowOp.rows, SortedMap.get?_insert]
  by_cases hk : k = n
  · simp [hk]
  · simp [hk]

theorem foldl_putSlots (metas : List SlotMeta) : ∀ slots : SortedMap Slot SlotMeta,
    (metas.map fun m => RowOp.put m.slot m.encode).foldl RowOp.rows
        (fun n value => ∃ m, slots.get? n = some m ∧ value = m.encode) =
      fun n value => ∃ m, (MetadataMirror.insertSlots slots metas).get? n = some m ∧ value = m.encode := by
  induction metas with
  | nil => exact fun _ => rfl
  | cons m metas ih =>
    intro slots
    rw [List.map_cons, List.foldl_cons, rows_put, ih]
    rfl

theorem foldl_deletes {R : ℕ → Bytes → Prop} (ns : List ℕ) :
    (ns.map RowOp.delete).foldl RowOp.rows R = fun n value => n ∉ ns ∧ R n value := by
  induction ns generalizing R with
  | nil => simp
  | cons k ns ih =>
    rw [List.map_cons, List.foldl_cons, ih]
    funext n value
    simp only [RowOp.rows, List.mem_cons, not_or]
    exact propext ⟨fun ⟨hns, hk, hR⟩ => ⟨⟨hk, hns⟩, hR⟩, fun ⟨⟨hk, hns⟩, hR⟩ => ⟨hns, hk, hR⟩⟩

theorem foldl_deletes_map {υ : Type} {m : SortedMap ℕ υ} {encode : υ → Bytes} (ns : List ℕ) :
    (ns.map RowOp.delete).foldl RowOp.rows (fun n value => ∃ y, m.get? n = some y ∧ value = encode y) =
      fun n value => ∃ y, (ns.foldl (·.erase ·) m).get? n = some y ∧ value = encode y := by
  rw [foldl_deletes]
  funext n value
  rw [get?_foldl_erase]
  by_cases hn : n ∈ ns
  · simp [hn]
  · simp [hn]

end Batches

/-! ### The commits -/

namespace Reflects

variable {lib : RocksDb} {db : lib.Db} {catalog catalog' : MetadataMirror} {batch : List BatchOp}

theorem stateKey_ne : stateKey ≠ replayFloorKey := by decide

/-- The rows of the state after a batch that writes the state, or not. -/
theorem get_state {state : MetadataState} (h : Reflects lib db catalog)
    (hbatch : rowOps .state batch = [Metadata.putState state] ∨
      rowOps .state batch = [] ∧ state = catalog.state) :
    lib.get (lib.writeBatch db batch) .state stateKey = some state.encode ∧
      lib.get (lib.writeBatch db batch) .state replayFloorKey = lib.get db .state replayFloorKey := by
  rw [lib.get_writeBatch, lib.get_writeBatch, foldl_rowOps _ stateKey, foldl_rowOps _ replayFloorKey]
  rcases hbatch with hbatch | ⟨hbatch, rfl⟩
  · rw [hbatch]
    simp [Metadata.putState, BatchOp.row, stateKey_ne]
  · rw [hbatch]
    exact ⟨h.state, rfl⟩

/-- The chunk of a commit is the last one. -/
theorem rows_putChunk {chunk : ChunkMeta} (horder : (catalog.chunks ++ [chunk]).Pairwise
      fun a b => a.firstIndex < b.firstIndex) :
    (RowOp.put chunk.firstIndex chunk.encode).rows
        (fun n value => ∃ m, (m ∈ catalog.chunks ∧ m.firstIndex = n) ∧ value = m.encode) =
      fun n value => ∃ m, (m ∈ catalog.chunks ++ [chunk] ∧ m.firstIndex = n) ∧ value = m.encode := by
  have hlt := (List.pairwise_append.mp horder).2.2
  funext n value
  simp only [RowOp.rows, List.mem_append, List.mem_singleton]
  by_cases hn : n = chunk.firstIndex
  · rw [if_pos hn]
    refine propext ⟨fun hvalue => ⟨chunk, ⟨.inr rfl, hn.symm⟩, hvalue⟩, ?_⟩
    rintro ⟨m, ⟨hm | rfl, hfirst⟩, rfl⟩
    · have := hlt m hm chunk (List.mem_singleton.mpr rfl)
      omega
    · rfl
  · rw [if_neg hn]
    refine propext ⟨fun ⟨m, ⟨hm, hfirst⟩, hvalue⟩ => ⟨m, ⟨.inl hm, hfirst⟩, hvalue⟩, ?_⟩
    rintro ⟨m, ⟨hm | rfl, hfirst⟩, rfl⟩
    · exact ⟨m, ⟨hm, hfirst⟩, rfl⟩
    · exact absurd hfirst.symm hn

theorem chunk {commit : MetadataChunkCommit} (h : Reflects lib db catalog)
    (hfits : (MetadataCall.chunk commit).Fits)
    (horder : (catalog.applyChunkCommit commit).chunks.Pairwise fun a b => a.firstIndex < b.firstIndex) :
    Reflects lib (lib.writeBatch db (Metadata.chunkBatch commit)) (catalog.applyChunkCommit commit) := by
  obtain ⟨hnew, hupdated, hchunk, hsegment, -⟩ := hfits
  obtain ⟨hslots, hsegments, hchunks, hstate⟩ := rowOps_chunkBatch commit
  obtain ⟨hget, hfloor⟩ := h.get_state (.inl hstate)
  refine ⟨hget, by rw [hfloor]; exact h.replayFloor, ?_, ?_, ?_⟩
  · have hholds := h.slots.writeBatch hslots (fun op hop => by
      obtain ⟨m, hm, rfl⟩ := List.mem_map.mp hop
      exact (List.mem_append.mp hm).elim (fun hm => (hnew m hm).1) (fun hm => (hupdated m hm).1))
    rw [foldl_putSlots] at hholds
    simpa only [MetadataMirror.applyChunkCommit, MetadataMirror.insertSlots, List.foldl_append] using hholds
  · have hholds := h.segments.writeBatch hsegments (fun op hop => by
      obtain rfl := List.mem_singleton.mp hop
      exact hsegment.1)
    rwa [List.foldl_cons, List.foldl_nil, rows_put] at hholds
  · have hholds := h.chunks.writeBatch hchunks (fun op hop => by
      obtain rfl := List.mem_singleton.mp hop
      exact hchunk.2.2.2.2.1)
    rwa [List.foldl_cons, List.foldl_nil, rows_putChunk horder] at hholds

theorem trim {slot : Slot} {upTo : Option ℕ} (h : Reflects lib db catalog) (hwf : catalog.WellFormed)
    (hfits : (MetadataCall.trim (buildTrimCommit catalog slot upTo)).Fits) :
    Reflects lib (lib.writeBatch db (Metadata.trimBatch (buildTrimCommit catalog slot upTo)))
      (catalog.applyTrimCommit (buildTrimCommit catalog slot upTo)) := by
  obtain ⟨hremoved, hdeletedSlots, hdeletedChunks, hdeletedSegments⟩ := hfits
  obtain ⟨hslots, hsegments, hchunks, hstate⟩ := rowOps_trimBatch (buildTrimCommit catalog slot upTo)
  obtain ⟨hget, hfloor⟩ := h.get_state (.inr ⟨hstate, rfl⟩)
  refine ⟨hget, by rw [hfloor]; exact h.replayFloor, ?_, ?_, ?_⟩
  · have hholds := h.slots.writeBatch hslots (fun op hop => by
      obtain ⟨n, hn, rfl⟩ := List.mem_map.mp hop
      rcases List.mem_cons.mp hn with rfl | hn
      · exact hremoved
      · exact hdeletedSlots n hn)
    rw [foldl_deletes_map] at hholds
    exact hholds
  · have hholds := h.segments.writeBatch hsegments (fun op hop => by
      obtain ⟨n, hn, rfl⟩ := List.mem_map.mp hop
      exact hdeletedSegments n hn)
    rw [foldl_deletes_map] at hholds
    exact hholds
  · have hholds := h.chunks.writeBatch hchunks (fun op hop => by
      obtain ⟨n, hn, rfl⟩ := List.mem_map.mp hop
      exact hdeletedChunks n hn)
    rw [foldl_deletes] at hholds
    -- the rows go by their first indices, the mirror by the segments
    have hsame : ∀ m ∈ catalog.chunks, m.firstIndex ∈ (buildTrimCommit catalog slot upTo).deletedChunks ↔
        m.segmentId ∈ (buildTrimCommit catalog slot upTo).deletedSegments := by
      intro m hm
      constructor
      · intro hdel
        obtain ⟨m', hm', hfirst⟩ := List.mem_map.mp hdel
        obtain ⟨hm', hdel'⟩ := List.mem_filter.mp hm'
        exact hwf.chunk_inj hm' hm hfirst ▸ of_decide_eq_true hdel'
      · intro hdel
        exact List.mem_map.mpr ⟨m, List.mem_filter.mpr ⟨hm, decide_eq_true hdel⟩, rfl⟩
    intro key value
    rw [hholds key value]
    refine exists_congr fun n => and_congr_right fun _ => and_congr_right fun _ => ?_
    constructor
    · rintro ⟨hdel, m, ⟨hm, rfl⟩, hvalue⟩
      exact ⟨m, ⟨List.mem_filter.mpr ⟨hm, by simpa using fun h => hdel ((hsame m hm).mpr h)⟩, rfl⟩, hvalue⟩
    · rintro ⟨m, ⟨hm, rfl⟩, hvalue⟩
      obtain ⟨hm, hdel⟩ := List.mem_filter.mp hm
      exact ⟨fun h => by simpa using absurd ((hsame m hm).mp h) (by simpa using hdel), m, ⟨hm, rfl⟩, hvalue⟩

theorem rotation {commit : RotationCommit} (h : Reflects lib db catalog)
    (hfits : (MetadataCall.rotation commit).Fits) :
    Reflects lib (lib.writeBatch db (Metadata.rotationBatch commit)) (catalog.applyRotationCommit commit) := by
  obtain ⟨hsealed, hnew, -⟩ := hfits
  obtain ⟨hslots, hsegments, hchunks, hstate⟩ := rowOps_rotationBatch commit
  obtain ⟨hget, hfloor⟩ := h.get_state (.inl hstate)
  refine ⟨hget, by rw [hfloor]; exact h.replayFloor, ?_, ?_, ?_⟩
  · exact h.slots.writeBatch_of_none hslots
  · have hholds := h.segments.writeBatch hsegments (fun op hop => by
      rcases List.mem_pair.mp hop with rfl | rfl
      · exact hsealed.1
      · exact hnew.1)
    rwa [List.foldl_cons, List.foldl_cons, List.foldl_nil, rows_put, rows_put] at hholds
  · exact h.chunks.writeBatch_of_none hchunks

theorem setReplayFloor {index : ℕ} (h : Reflects lib db catalog) :
    Reflects lib (lib.writeBatch db [.put .state replayFloorKey (toBe 8 index)])
      (catalog.setReplayFloor index) := by
  refine ⟨?_, .inl ?_, ?_, ?_, ?_⟩
  · rw [lib.get_writeBatch]
    simp [BatchOp.row, stateKey_ne.symm, h.state, MetadataMirror.setReplayFloor]
  · rw [lib.get_writeBatch]
    simp [BatchOp.row, MetadataMirror.setReplayFloor]
  · exact h.slots.writeBatch_of_none rfl
  · exact h.segments.writeBatch_of_none rfl
  · exact h.chunks.writeBatch_of_none rfl

theorem initializeEmpty {state : MetadataState} {segment : SegmentMeta} (h : Reflects lib db catalog)
    (hfits : (MetadataCall.initializeEmpty state segment).Fits) :
    Reflects lib (lib.writeBatch db [Metadata.putSegment segment, Metadata.putState state])
      (catalog.initializeEmpty state segment) := by
  have hbatch : rowOps .state [Metadata.putSegment segment, Metadata.putState state] = [Metadata.putState state] :=
    rfl
  obtain ⟨hget, hfloor⟩ := h.get_state (.inl hbatch)
  refine ⟨hget, by rw [hfloor]; exact h.replayFloor, ?_, ?_, ?_⟩
  · exact h.slots.writeBatch_of_none rfl
  · have hsegment : rowOps .segments [Metadata.putSegment segment, Metadata.putState state] =
        [RowOp.put segment.segmentId segment.encode].map (RowOp.batchOp .segments) := rfl
    have hholds := h.segments.writeBatch hsegment fun op hop => by
      obtain rfl := List.mem_singleton.mp hop
      exact hfits.2.1
    rwa [List.foldl_cons, List.foldl_nil, rows_put] at hholds
  · exact h.chunks.writeBatch_of_none rfl

/-- A database that was created, with its state. -/
theorem create (lib : RocksDb) :
    Reflects lib (lib.writeBatch lib.create [Metadata.putState .default]) .new := by
  have hempty : ∀ column, Holds lib lib.create column fun _ _ => False := by
    intro column key value
    rw [lib.get_create]
    simp
  have hrows : ∀ {column} {R : ℕ → Bytes → Prop}, column ≠ .state → (∀ n value, ¬R n value) →
      Holds lib (lib.writeBatch lib.create [Metadata.putState .default]) column R := by
    intro column R hne hR
    have hbatch : rowOps column [Metadata.putState .default] = [] := by
      simp [rowOps, Metadata.putState, BatchOp.family, hne.symm]
    intro key value
    rw [(hempty column).writeBatch_of_none hbatch key value]
    simp [hR]
  refine ⟨?_, .inr ⟨?_, rfl⟩, hrows (by simp) ?_, hrows (by simp) ?_, hrows (by simp) ?_⟩
  · rw [lib.get_writeBatch]
    simp [Metadata.putState, BatchOp.row, MetadataMirror.new]
  · rw [lib.get_writeBatch, lib.get_create]
    simp [Metadata.putState, BatchOp.row, stateKey_ne]
  · rintro n value ⟨m, hm, -⟩
    cases hm
  · rintro n value ⟨m, hm, -⟩
    cases hm
  · rintro n value ⟨m, ⟨hm, -⟩, -⟩
    cases hm

end Reflects

namespace MetadataMirror.WellFormed

variable {catalog : MetadataMirror}

theorem new : MetadataMirror.new.WellFormed where
  state := ⟨by decide, by decide⟩
  replayFloor := by decide
  slots _ _ h := by cases h
  segments _ _ h := by cases h
  chunks _ h := by cases h
  order := .nil

theorem initializeEmpty {state : MetadataState} {segment : SegmentMeta} (h : catalog.WellFormed)
    (hfits : (MetadataCall.initializeEmpty state segment).Fits) :
    (catalog.initializeEmpty state segment).WellFormed := by
  refine ⟨hfits.1, h.replayFloor, h.slots, fun n m hm => ?_, h.chunks, h.order⟩
  rw [MetadataMirror.initializeEmpty, SortedMap.get?_insert] at hm
  split at hm
  · cases hm
    rename_i hn
    exact ⟨hn.symm, hfits.2⟩
  · exact h.segments n m hm

theorem chunk {commit : MetadataChunkCommit} (h : catalog.WellFormed)
    (hfits : (MetadataCall.chunk commit).Fits)
    (horder : (catalog.applyChunkCommit commit).chunks.Pairwise fun a b => a.firstIndex < b.firstIndex) :
    (catalog.applyChunkCommit commit).WellFormed := by
  obtain ⟨hnew, hupdated, hchunk, hsegment, hstate⟩ := hfits
  refine ⟨hstate, h.replayFloor, fun n m hm => ?_, fun n m hm => ?_, fun m hm => ?_, horder⟩
  · rcases get?_insertSlots hm with ⟨hmem, hslot⟩ | hm
    · exact ⟨hslot, hupdated m hmem⟩
    · rcases get?_insertSlots hm with ⟨hmem, hslot⟩ | hm
      · exact ⟨hslot, hnew m hmem⟩
      · exact h.slots n m hm
  · rw [MetadataMirror.applyChunkCommit, SortedMap.get?_insert] at hm
    split at hm
    · cases hm
      rename_i hn
      exact ⟨hn.symm, hsegment⟩
    · exact h.segments n m hm
  · rcases List.mem_append.mp hm with hm | hm
    · exact h.chunks m hm
    · obtain rfl := List.mem_singleton.mp hm
      exact hchunk

theorem trim {commit : MetadataTrimCommit} (h : catalog.WellFormed) :
    (catalog.applyTrimCommit commit).WellFormed := by
  refine ⟨h.state, h.replayFloor, fun n m hm => ?_, fun n m hm => ?_, fun m hm => ?_, h.order.filter _⟩
  · rw [MetadataMirror.applyTrimCommit, get?_foldl_erase, SortedMap.get?_erase] at hm
    split at hm
    · cases hm
    · split at hm
      · cases hm
      · exact h.slots n m hm
  · rw [MetadataMirror.applyTrimCommit, get?_foldl_erase] at hm
    split at hm
    · cases hm
    · exact h.segments n m hm
  · exact h.chunks m (List.mem_of_mem_filter hm)

theorem rotation {commit : RotationCommit} (h : catalog.WellFormed)
    (hfits : (MetadataCall.rotation commit).Fits) : (catalog.applyRotationCommit commit).WellFormed := by
  refine ⟨hfits.2.2, h.replayFloor, h.slots, fun n m hm => ?_, h.chunks, h.order⟩
  rw [MetadataMirror.applyRotationCommit, SortedMap.get?_insert, SortedMap.get?_insert] at hm
  split at hm
  · cases hm
    rename_i hn
    exact ⟨hn.symm, hfits.2.1⟩
  · split at hm
    · cases hm
      rename_i hn
      exact ⟨hn.symm, hfits.1⟩
    · exact h.segments n m hm

theorem setReplayFloor {index : ℕ} (h : catalog.WellFormed) (hfits : index < 2 ^ 64) :
    (catalog.setReplayFloor index).WellFormed :=
  ⟨h.state, hfits, h.slots, h.segments, h.chunks, h.order⟩

end MetadataMirror.WellFormed

/-! ### The runs of a node -/

section Runs

variable {lib : RocksDb} {cfg : ConfigNode} {s s' : Node} {md : Metadata lib} {out events : List NodeEvent}

/-- The metadata of a node: the mirror is its catalog, and the database has the rows of it. -/
structure Mirrors (s : Node) (md : Metadata lib) : Prop where
  catalog : md.catalog = s.disk.catalog
  reflects : Reflects lib md.db s.disk.catalog
  wellFormed : s.disk.catalog.WellFormed

theorem Mirrors.load (h : Mirrors s md) : Metadata.loadCatalogFromDb lib md.db = .ok md.catalog :=
  h.catalog ▸ load_of_reflects h.reflects h.wellFormed

theorem load_bind {db : lib.Db} {catalog : MetadataMirror}
    (h : Metadata.loadCatalogFromDb lib db = .ok catalog) :
    (Metadata.loadCatalogFromDb lib db >>= fun catalog => pure (⟨db, catalog⟩ : Metadata lib)) =
      .ok ⟨db, catalog⟩ := by
  rw [h]
  rfl

theorem open_create (lib : RocksDb) : Metadata.open lib lib.create =
    .ok ⟨lib.writeBatch lib.create [Metadata.putState .default], .new⟩ := by
  have hload := load_of_reflects (Reflects.create lib) .new
  have hread : Metadata.readState lib lib.create = .ok none := by rw [Metadata.readState, lib.get_create]
  rw [Metadata.open, hread]
  exact load_bind hload

theorem open_of_reflects {db : lib.Db} {catalog : MetadataMirror} (h : Reflects lib db catalog)
    (hwf : catalog.WellFormed) : Metadata.open lib db = .ok ⟨db, catalog⟩ := by
  have hload := load_of_reflects h hwf
  have hread : Metadata.readState lib db = .ok (some catalog.state) := by
    rw [Metadata.readState, h.state]
    simp only [MetadataState.decode_encode hwf.state, Except.map]
  rw [Metadata.open, hread]
  exact load_bind hload

/-- The first process. -/
theorem mirrors_start (lib : RocksDb) (cfg : ConfigNode) (hasher : RandomState) :
    ∃ md, Metadata.start lib = .ok md ∧ Mirrors (Node.new cfg hasher) md := by
  have hfits : (MetadataCall.initializeEmpty ⟨2, 1⟩ (.empty 1 0)).Fits :=
    ⟨⟨by decide, by decide⟩, by decide, by decide, by decide, by decide⟩
  have hfirst := (Reflects.create lib).initializeEmpty hfits
  have hwf := MetadataMirror.WellFormed.new.initializeEmpty hfits
  refine ⟨⟨_, _⟩, ?_, rfl, hfirst, hwf⟩
  rw [Metadata.start, open_create]
  exact load_bind (load_of_reflects hfirst hwf)

/-- The next commit of the writer. -/
theorem Mirrors.write (h : Mirrors s md) (hstep : Node.step cfg s .write = .ok (s', out))
    (hfits : ∀ call ∈ s.call cfg s.disk.catalog .write, call.Fits)
    (horder : s'.disk.catalog.chunks.Pairwise fun a b => a.firstIndex < b.firstIndex) :
    ∃ md', md.follow cfg s .write = .ok md' ∧ Mirrors s' md' := by
  simp only [Metadata.follow, Node.call, h.catalog] at hfits ⊢
  simp only [Node.step] at hstep
  unfold Node.writerCall at hfits ⊢
  split at hstep
  · rename_i hrotating
    rw [if_pos hrotating] at hfits ⊢
    cases hstep
    have hfits := hfits _ rfl
    refine ⟨_, rfl, ?_, h.reflects.rotation hfits, h.wellFormed.rotation hfits⟩
    rw [Metadata.applyRotationCommit, h.catalog]
    rfl
  · rename_i hrotating
    rw [if_neg hrotating] at hfits ⊢
    split at hstep
    · cases hstep
    · rename_i output hget
      cases hstep
      rw [hget] at hfits ⊢
      cases output with
      | rawChunk chunk =>
        have hfits := hfits _ rfl
        refine ⟨_, rfl, ?_, h.reflects.chunk hfits horder, h.wellFormed.chunk hfits horder⟩
        rw [Metadata.applyChunkCommit, h.catalog]
        rfl
      | trim slot upTo =>
        have hfits := hfits _ rfl
        refine ⟨_, rfl, ?_, h.reflects.trim h.wellFormed hfits, h.wellFormed.trim⟩
        rw [Metadata.applyTrimCommit, h.catalog]
        rfl

/-- A process that starts has the catalog again. -/
theorem Mirrors.restart {hasher : RandomState} {j : Journal} (h : Mirrors s md)
    (hview : CatalogView j s.writer s.disk) (hstep : Node.step cfg s (.restart hasher) = .ok (s', out)) :
    ∃ md', md.follow cfg s (.restart hasher) = .ok md' ∧ Mirrors s' md' := by
  have hactive : s.disk.catalog.state.activeSegmentId ≠ 0 := hview.active.2.2
  have hsame : s'.disk.catalog = s.disk.catalog := by
    simp only [Node.step] at hstep
    split at hstep
    · cases hstep
    · rename_i s₁ hstart
      cases hstep
      obtain ⟨catalog, writer, sender, hopen, -, rfl⟩ := Node.start_eq_ok hstart
      exact (hview.opened hopen).1
  refine ⟨⟨md.db, s.disk.catalog⟩, ?_, hsame.symm, hsame ▸ h.reflects, hsame ▸ h.wellFormed⟩
  simp only [Metadata.follow, Node.call, Metadata.call, open_of_reflects h.reflects h.wellFormed,
    Metadata.firstSegment, bind, Except.bind, if_neg hactive]

/-- An action that is no commit. -/
theorem Mirrors.quiet {action : NodeAction} (h : Mirrors s md)
    (hcall : s.call cfg md.catalog action = none) (hdisk : s'.disk = s.disk) :
    ∃ md', md.follow cfg s action = .ok md' ∧ Mirrors s' md' := by
  refine ⟨md, ?_, hdisk ▸ h.catalog, hdisk ▸ h.reflects, hdisk ▸ h.wellFormed⟩
  rw [Metadata.follow, hcall]
  rfl

theorem disk_collected {input : CollectorInput} {queue : List WriterCommand}
    (h : s.collected input queue cfg = .ok (s', out)) : s'.disk = s.disk := by
  unfold Node.collected at h
  split at h <;> cases h
  rfl

theorem Mirrors.step {action : NodeAction} {j : Journal} (h : Mirrors s md)
    (hstorage : cfg.channel.storage.isSome) (hview : CatalogView j s.writer s.disk)
    (horder : s'.disk.catalog.chunks.Pairwise fun a b => a.firstIndex < b.firstIndex)
    (hfits : ∀ call ∈ s.call cfg s.disk.catalog action, call.Fits)
    (hstep : Node.step cfg s action = .ok (s', out)) :
    ∃ md', md.follow cfg s action = .ok md' ∧ Mirrors s' md' := by
  cases action with
  | push input =>
    refine h.quiet rfl ?_
    simp only [Node.step] at hstep
    split at hstep
    · cases hstep
    · split at hstep
      · cases hstep
      · split at hstep <;> cases hstep
        rfl
  | beginLiveEpoch =>
    have hindex : s.sender.index < 2 ^ 64 := hfits (.replayFloor s.sender.index) (by
      rw [Node.call, if_pos hstorage]
      rfl)
    simp only [Node.step, hstorage, if_true] at hstep
    split at hstep
    · cases hstep
    · cases hstep
      refine ⟨md.setReplayFloor s.sender.index, ?_, ?_, h.reflects.setReplayFloor,
        h.wellFormed.setReplayFloor hindex⟩
      · rw [Metadata.follow, Node.call, if_pos hstorage]
        rfl
      · rw [Metadata.setReplayFloor, h.catalog]
  | close =>
    cases hstep
    exact h.quiet rfl rfl
  | collect =>
    refine h.quiet rfl ?_
    simp only [Node.step] at hstep
    split at hstep
    · exact disk_collected hstep
    · split at hstep
      · exact disk_collected hstep
      · cases hstep
  | timeout => exact h.quiet rfl (disk_collected hstep)
  | compressed i =>
    refine h.quiet rfl ?_
    simp only [Node.step] at hstep
    split at hstep <;> cases hstep
    rfl
  | write => exact h.write hstep hfits horder
  | restart hasher => exact h.restart hview hstep

/-- The chunks of the disk are in the order of their first indices. -/
theorem CatalogView.order {j : Journal} {w : SegmentWriter} {disk : Disk} (h : CatalogView j w disk) :
    disk.catalog.chunks.Pairwise fun a b => a.firstIndex < b.firstIndex := by
  refine List.Pairwise.imp_of_mem ?_ h.sorted
  intro a b ha _ hlt
  exact (h.range a ha).1.trans_lt hlt

/-- **The catalog and its database.** Along every run of a node with a storage the metadata follows without
an error; the catalog in memory is the one of the segment writer and the one that would be loaded; and every
row is decoded as it was encoded. -/
theorem NodeDb.catalog_refines (lib : RocksDb) (hstorage : cfg.channel.storage.isSome) {hasher : RandomState}
    {actions : List NodeAction}
    (hfits : AllSteps (Node.step cfg) (fun s action => ∀ call ∈ s.call cfg s.disk.catalog action, call.Fits)
      (Node.new cfg hasher) actions)
    (hrun : run (Node.step cfg) (Node.new cfg hasher) actions = .ok (s, events)) :
    ∃ md₀ md, Metadata.start lib = .ok md₀ ∧
      run (NodeDb.step cfg) ⟨Node.new cfg hasher, md₀⟩ actions = .ok (⟨s, md⟩, events) ∧
      md.catalog = s.disk.catalog ∧ Metadata.loadCatalogFromDb lib md.db = .ok md.catalog ∧
      MetadataState.decode md.catalog.state.encode = .ok md.catalog.state ∧
      (∀ slot m, md.catalog.slots.get? slot = some m → SlotMeta.decode slot m.encode = .ok m) ∧
      (∀ segmentId m, md.catalog.segments.get? segmentId = some m →
        SegmentMeta.decode segmentId m.encode = .ok m) ∧
      ∀ m ∈ md.catalog.chunks, ChunkMeta.decode m.firstIndex m.encode = .ok m := by
  obtain ⟨md₀, hstart, hmirrors₀⟩ := mirrors_start lib cfg hasher
  obtain ⟨-, md, hfollow, hmirrors⟩ := run_induction_of
    (P := fun is s events => (∃ j₀ outs ls l, NodeView cfg s events j₀ outs ls l) ∧ ∃ md : Metadata lib,
      run (NodeDb.step cfg) ⟨Node.new cfg hasher, md₀⟩ is = .ok (⟨s, md⟩, events) ∧ Mirrors s md)
    ⟨⟨_, _, _, _, nodeView_new cfg hasher⟩, md₀, rfl, hmirrors₀⟩
    (by
      rintro is s events action s' out - ⟨⟨j₀, outs, ls, l, hview⟩, md, hfollow, hmirrors⟩ hok hstep
      obtain ⟨j₀', outs', ls', l', hview'⟩ := nodeView_step hstorage hview hstep
      obtain ⟨md', hmd', hmirrors'⟩ :=
        hmirrors.step hstorage hview.catalog hview'.catalog.order hok hstep
      refine ⟨⟨j₀', outs', ls', l', hview'⟩, md', run_snoc.mpr ⟨_, _, out, hfollow, ?_, rfl⟩, hmirrors'⟩
      simp only [NodeDb.step, hmd', hstep])
    hfits hrun
  have hcatalog := hmirrors.catalog
  have hwf := hmirrors.wellFormed
  refine ⟨md₀, md, hstart, hfollow, hcatalog, hmirrors.load, ?_, ?_, ?_, ?_⟩
  all_goals
    rw [hcatalog]
  · exact MetadataState.decode_encode hwf.state
  · intro slot m hm
    obtain ⟨rfl, hfits⟩ := hwf.slots slot m hm
    exact SlotMeta.decode_encode hfits
  · intro segmentId m hm
    obtain ⟨rfl, hfits⟩ := hwf.segments segmentId m hm
    exact SegmentMeta.decode_encode hfits
  · intro m hm
    exact ChunkMeta.decode_encode (hwf.chunks m hm)

end Runs

/-! ### A database in memory -/

namespace RocksDb

abbrev Maps := Column → AList fun _ : Bytes => Bytes

def writeMaps (db : Maps) : BatchOp → Maps
  | .put column key value => Function.update db column ((db column).insert key value)
  | .delete column key => Function.update db column ((db column).erase key)

theorem lookup_writeMaps (db : Maps) (op : BatchOp) (column : Column) (key : Bytes) :
    (writeMaps db op column).lookup key = BatchOp.row column key ((db column).lookup key) op := by
  cases op with
  | put c k value =>
    by_cases hc : c = column
    · subst hc
      by_cases hk : key = k
      · subst hk
        simp [writeMaps, BatchOp.row, AList.lookup_insert]
      · simp [writeMaps, BatchOp.row, AList.lookup_insert_ne hk, Ne.symm hk]
    · simp [writeMaps, BatchOp.row, hc, Function.update_of_ne (Ne.symm hc)]
  | delete c k =>
    by_cases hc : c = column
    · subst hc
      by_cases hk : key = k
      · subst hk
        simp [writeMaps, BatchOp.row, AList.lookup_erase]
      · simp [writeMaps, BatchOp.row, AList.lookup_erase_ne hk, Ne.symm hk]
    · simp [writeMaps, BatchOp.row, hc, Function.update_of_ne (Ne.symm hc)]

/-- The rows in maps; an iterator comes to them in the order of their keys. -/
def inMemory : RocksDb where
  Db := Maps
  create := fun _ => ∅
  get db column key := (db column).lookup key
  iterator db column :=
    ((db column).entries.map fun e => (e.1, e.2)).mergeSort fun a b => a.1 ≤ b.1
  writeBatch db batch := batch.foldl writeMaps db
  get_create _ _ := rfl
  get_writeBatch db batch column key := by
    induction batch generalizing db with
    | nil => rfl
    | cons op batch ih => rw [List.foldl_cons, List.foldl_cons, ih, lookup_writeMaps]
  iterator_nodup db column := by
    rw [((List.mergeSort_perm ..).map Prod.fst).nodup_iff, List.map_map]
    exact (db column).nodupKeys
  mem_iterator db column key value := by
    rw [(List.mergeSort_perm ..).mem_iff, ← Option.mem_def, AList.mem_lookup_iff, List.mem_map]
    constructor
    · rintro ⟨e, he, heq⟩
      obtain ⟨rfl, rfl⟩ := Prod.mk.inj heq
      exact he
    · intro he
      exact ⟨⟨key, value⟩, he, rfl⟩

end RocksDb

instance : DecidablePred MetadataState.Fits := fun _ => inferInstanceAs (Decidable (_ ∧ _))
instance : DecidablePred SlotMeta.Fits := fun _ => inferInstanceAs (Decidable (_ ∧ _ ∧ _))
instance : DecidablePred SegmentMeta.Fits := fun _ => inferInstanceAs (Decidable (_ ∧ _ ∧ _ ∧ _))
instance : DecidablePred ChunkMeta.Fits := fun _ => inferInstanceAs (Decidable (_ ∧ _ ∧ _ ∧ _ ∧ _ ∧ _))

instance : DecidablePred MetadataCall.Fits
  | .open => inferInstanceAs (Decidable True)
  | .initializeEmpty .. => inferInstanceAs (Decidable (_ ∧ _))
  | .chunk _ => inferInstanceAs (Decidable (_ ∧ _ ∧ _ ∧ _ ∧ _))
  | .trim _ => inferInstanceAs (Decidable (_ ∧ _ ∧ _ ∧ _))
  | .rotation _ => inferInstanceAs (Decidable (_ ∧ _ ∧ _))
  | .replayFloor _ => inferInstanceAs (Decidable (_ < _))

/-- The status of a slot is written in a chunk, a live epoch begins, and the process starts again. -/
theorem NodeDb.catalog_refines_restart : ∃ s events md₀ md,
    run (Node.step .small) (Node.new .small List.length)
      ([.push ⟨false, "a", .slot ⟨5, .slotProcessed, none, []⟩⟩] ++ List.replicate 3 .collect ++
        [.compressed 0, .write, .write, .beginLiveEpoch, .restart List.length]) = .ok (s, events) ∧
    s.disk.catalog.chunks ≠ [] ∧ Metadata.start .inMemory = .ok md₀ ∧
    run (NodeDb.step .small) ⟨Node.new .small List.length, md₀⟩
      ([.push ⟨false, "a", .slot ⟨5, .slotProcessed, none, []⟩⟩] ++ List.replicate 3 .collect ++
        [.compressed 0, .write, .write, .beginLiveEpoch, .restart List.length]) = .ok (⟨s, md⟩, events) ∧
    Metadata.loadCatalogFromDb .inMemory md.db = .ok md.catalog := by
  have hall : AllSteps (Node.step .small)
      (fun s action => ∀ call ∈ s.call .small s.disk.catalog action, call.Fits) (Node.new .small List.length)
      ([.push ⟨false, "a", .slot ⟨5, .slotProcessed, none, []⟩⟩] ++ List.replicate 3 .collect ++
        [.compressed 0, .write, .write, .beginLiveEpoch, .restart List.length]) := by
    refine allSteps_of_checkSteps
      (p := fun s action => (s.call .small s.disk.catalog action).all fun call => decide call.Fits) ?_
      (by decide +kernel)
    intro s action h call hcall
    rw [hcall] at h
    exact of_decide_eq_true h
  obtain ⟨s, events, hrun, hchunks⟩ := exists_of_returns
    (p := fun (s : Node) _ => !s.disk.catalog.chunks.isEmpty)
    (x := run (Node.step .small) (Node.new .small List.length)
      ([.push ⟨false, "a", .slot ⟨5, .slotProcessed, none, []⟩⟩] ++ List.replicate 3 .collect ++
        [.compressed 0, .write, .write, .beginLiveEpoch, .restart List.length])) (by decide +kernel)
  obtain ⟨md₀, md, hstart, hfollow, -, hload, -⟩ := NodeDb.catalog_refines .inMemory rfl hall hrun
  exact ⟨s, events, md₀, md, hrun, by simpa using hchunks, hstart, hfollow, hload⟩

end Richat
