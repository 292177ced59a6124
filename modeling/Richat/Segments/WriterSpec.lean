import Richat.Segments.Writer
import Richat.Storage.Catalog

/-!
# The disk and the catalog

`Sound` says what the disk has of the catalog: a file for every segment with the bytes of all its chunks, synced.
`Disk.Keeps` is what an operation of the file system leaves of that, and a crash. `Disk.Unused` says that the
names of segments that are not created yet are free, which the next segment needs.

Each program of the writer keeps them (`Live`), from one lemma for each operation and each commit, and what it
commits is what the writer of the node commits.
-/

namespace Richat.Segments

open Lib Lib.Crash Lib.Protobuf

/-! ### The names of the files -/

theorem toList_segmentFileName (segmentId : ℕ) : (segmentFileName segmentId).toList =
    List.leftpad 12 '0' (Nat.toDigits 10 segmentId) ++ ".seg".toList := String.toList_ofList

theorem ofDigitChars_leftpad (segmentId : ℕ) :
    Nat.ofDigitChars 10 (List.leftpad 12 '0' (Nat.toDigits 10 segmentId)) 0 = segmentId := by
  rw [List.leftpad, Nat.ofDigitChars_append, Nat.ofDigitChars_replicate_zero, Nat.mul_zero,
    Nat.ofDigitChars_ten_toDigits]

theorem segmentFileName_inj {a b : ℕ} (h : segmentFileName a = segmentFileName b) : a = b := by
  have hchars := congrArg String.toList h
  rw [toList_segmentFileName, toList_segmentFileName] at hchars
  rw [← ofDigitChars_leftpad a, ← ofDigitChars_leftpad b, List.append_cancel_right hchars]

/-- Only the numbers of twelve digits are read. -/
theorem segmentIdOf_segmentFileName (segmentId : ℕ) : segmentIdOf (segmentFileName segmentId) =
    if segmentId < 10 ^ 12 then some segmentId else none := by
  have hdigits : (List.leftpad 12 '0' (Nat.toDigits 10 segmentId)).all Char.isDigit = true := by
    rw [List.all_eq_true]
    intro c hc
    rcases List.mem_append.mp hc with hc | hc
    · rw [List.eq_of_mem_replicate hc]
      rfl
    · exact Nat.isDigit_of_mem_toDigits (by decide) (by decide) hc
  have hlength : (List.leftpad 12 '0' (Nat.toDigits 10 segmentId)).length = 12 ↔ segmentId < 10 ^ 12 := by
    rw [List.length_leftpad, ← Nat.length_toDigits_le_iff (by decide) (by decide)]
    omega
  have hsuffix : (List.leftpad 12 '0' (Nat.toDigits 10 segmentId) ++ ".seg".toList).length - 4 =
      (List.leftpad 12 '0' (Nat.toDigits 10 segmentId)).length := by
    rw [List.length_append]
    exact Nat.add_sub_cancel _ 4
  unfold segmentIdOf
  simp only [toList_segmentFileName, hsuffix, List.take_left, List.drop_left, hdigits, hlength,
    ofDigitChars_leftpad, true_and, and_true]

/-! ### The disk and the catalog -/

/-- The files have all bytes of the catalog. -/
structure Sound (d : Disk) : Prop where
  first : d.catalog.state.activeSegmentId = 0 →
    (∀ k, d.catalog.segments.get? k = none) ∧ d.catalog.state.nextSegmentId = 1
  active : d.catalog.state.activeSegmentId ≠ 0 → ∃ m,
    d.catalog.segments.get? d.catalog.state.activeSegmentId = some m ∧ m.isSealed = false
  segments : ∀ k m, d.catalog.segments.get? k = some m → m.segmentId = k ∧
    k < d.catalog.state.nextSegmentId ∧
      ∃ file, d.files.get? (segmentFileName k) = some file ∧ m.fileLen ≤ file.synced
  chunks : ∀ chunk ∈ d.catalog.chunks, ∃ m file payload,
    d.catalog.segments.get? chunk.segmentId = some m ∧
      d.files.get? (segmentFileName chunk.segmentId) = some file ∧ (chunk, payload) ∈ d.committed ∧
        payload.length = chunk.size ∧ chunk.offset + chunk.size ≤ m.fileLen ∧
          StandsAt file.content chunk.offset payload
  disjoint : d.catalog.chunks.Pairwise fun a b => a.segmentId = b.segmentId → a.offset + a.size ≤ b.offset

/-- The files of the segments are kept as far as the catalog has them. -/
structure Disk.Keeps (d d' : Disk) : Prop where
  catalog : d'.catalog = d.catalog
  committed : d'.committed = d.committed
  files : ∀ k m file, d.catalog.segments.get? k = some m → d.files.get? (segmentFileName k) = some file →
    m.fileLen ≤ file.synced → ∃ file', d'.files.get? (segmentFileName k) = some file' ∧
      m.fileLen ≤ file'.synced ∧ file'.content.take m.fileLen = file.content.take m.fileLen

/-- No file has the name of a segment that is not created yet, of those that `p` holds of. -/
def Disk.Unused (p : ℕ → Prop) (d : Disk) : Prop :=
  ∀ k, d.catalog.state.nextSegmentId ≤ k → p k → d.files.get? (segmentFileName k) = none

section

variable {d d' : Disk} {w : Writer} {segmentTargetSize : ℕ} {name : String} {file file' : File}
  {p : ℕ → Prop}

theorem Disk.Keeps.refl (d : Disk) : d.Keeps d :=
  ⟨rfl, rfl, fun _ _ file _ hfile hle => ⟨file, hfile, hle, rfl⟩⟩

theorem Disk.Keeps.trans {d'' : Disk} (h : d.Keeps d') (h' : d'.Keeps d'') : d.Keeps d'' where
  catalog := h'.catalog.trans h.catalog
  committed := h'.committed.trans h.committed
  files := by
    intro k m file hk hfile hle
    obtain ⟨file', hfile', hle', htake⟩ := h.files k m file hk hfile hle
    obtain ⟨file'', hfile'', hle'', htake'⟩ := h'.files k m file' (h.catalog ▸ hk) hfile' hle'
    exact ⟨file'', hfile'', hle'', htake'.trans htake⟩

theorem Disk.Keeps.of_files (hfiles : ∀ k m, d.catalog.segments.get? k = some m →
    d'.files.get? (segmentFileName k) = d.files.get? (segmentFileName k)) (hcatalog : d'.catalog = d.catalog)
    (hcommitted : d'.committed = d.committed) : d.Keeps d' where
  catalog := hcatalog
  committed := hcommitted
  files := fun k m file hk hfile hle => ⟨file, (hfiles k m hk).trans hfile, hle, rfl⟩

/-- What a crash leaves. -/
theorem Disk.Loses.keeps (h : d.Loses d') : d.Keeps d' where
  catalog := h.catalog
  committed := h.committed
  files := by
    intro k m file _ hfile hle
    obtain ⟨file', hfile', hsynced, htake⟩ := h.files _ _ hfile
    refine ⟨file', hfile', hsynced ▸ hle, ?_⟩
    have := congrArg (List.take m.fileLen) htake
    rwa [List.take_take, List.take_take, Nat.min_eq_left hle] at this

theorem Disk.Loses.refl (d : Disk) : d.Loses d :=
  ⟨rfl, rfl, fun _ => id, fun _ file hfile => ⟨file, hfile, rfl, rfl⟩⟩

theorem Sound.keeps (h : Sound d) (hkeeps : d.Keeps d') : Sound d' := by
  obtain ⟨files', catalog', committed'⟩ := d'
  obtain ⟨rfl, rfl, hfiles⟩ := hkeeps
  refine ⟨h.first, h.active, fun k m hk => ?_, fun chunk hc => ?_, h.disjoint⟩
  · obtain ⟨hid, hlt, file, hfile, hle⟩ := h.segments k m hk
    obtain ⟨file', hfile', hle', -⟩ := hfiles k m file hk hfile hle
    exact ⟨hid, hlt, file', hfile', hle'⟩
  · obtain ⟨m, file, payload, hk, hfile, hcommitted, hlength, hle, hstands⟩ := h.chunks chunk hc
    obtain ⟨-, -, file₀, hfile₀, hsynced⟩ := h.segments _ m hk
    obtain rfl := Option.some.inj (hfile₀.symm.trans hfile)
    obtain ⟨file', hfile', -, htake⟩ := hfiles _ m file₀ hk hfile hsynced
    exact ⟨m, file', payload, hk, hfile', hcommitted, hlength, hle,
      hstands.of_take_eq (by rwa [hlength]) htake⟩

theorem Sound.new : Sound .new where
  first := fun _ => ⟨fun _ => rfl, rfl⟩
  active := fun h => absurd rfl h
  segments := fun _ _ h => by cases h
  chunks := fun _ h => absurd h List.not_mem_nil
  disjoint := List.Pairwise.nil

theorem Sound.next_pos (h : Sound d) : 0 < d.catalog.state.nextSegmentId := by
  by_cases hactive : d.catalog.state.activeSegmentId = 0
  · rw [(h.first hactive).2]
    exact Nat.one_pos
  · obtain ⟨m, hm, -⟩ := h.active hactive
    exact (Nat.zero_le _).trans_lt (h.segments _ m hm).2.1

/-! ### The operations of the file system -/

theorem exec_createNew (h : d.files.get? name = none) :
    exec (.createNew name) d = .ok { d with files := d.files.insert name .empty } := by
  have hcontains : d.files.contains name = false := by
    unfold SortedMap.contains
    rw [h]
    rfl
  simp [exec, hcontains]

theorem Disk.withFile_ok {f : File → SortedMap String File} (h : d.files.get? name = some file) :
    d.withFile name f = .ok { d with files := f file } := by
  unfold Disk.withFile
  rw [h]

theorem Disk.withFile_eq_ok {f : File → SortedMap String File} (h : d.withFile name f = .ok d') :
    ∃ file, d.files.get? name = some file ∧ d' = { d with files := f file } := by
  unfold Disk.withFile at h
  split at h
  · cases h
  · rename_i file hfile
    exact ⟨file, hfile, (Except.ok.inj h).symm⟩

theorem Disk.withFile_eq_error {f : File → SortedMap String File} {e : SegmentError}
    (h : d.withFile name f = .error e) : e = .notFound name := by
  unfold Disk.withFile at h
  split at h
  · exact (Except.error.inj h).symm
  · cases h

theorem keeps_createNew (h : d.files.get? name = none) :
    d.Keeps { d with files := d.files.insert name .empty } where
  catalog := rfl
  committed := rfl
  files := by
    intro k m file _ hfile hle
    have hne : segmentFileName k ≠ name := by
      rintro rfl
      rw [h] at hfile
      cases hfile
    exact ⟨file, (SortedMap.get?_insert_of_ne _ _ hne).trans hfile, hle, rfl⟩

theorem keeps_removeFile (h : ∀ k m, d.catalog.segments.get? k = some m → segmentFileName k ≠ name) :
    d.Keeps { d with files := d.files.erase name } :=
  .of_files (fun k m hk => (SortedMap.get?_erase ..).trans (if_neg (h k m hk))) rfl rfl

/-- A file is replaced by one that has as many bytes of its segment. -/
theorem keeps_insert (h : d.files.get? name = some file) (hfile : ∀ k m, d.catalog.segments.get? k = some m →
      segmentFileName k = name → m.fileLen ≤ file.synced →
        m.fileLen ≤ file'.synced ∧ file'.content.take m.fileLen = file.content.take m.fileLen) :
    d.Keeps { d with files := d.files.insert name file' } where
  catalog := rfl
  committed := rfl
  files := by
    intro k m file₀ hk hfile₀ hle
    by_cases hne : segmentFileName k = name
    · rw [hne, h] at hfile₀
      obtain rfl := Option.some.inj hfile₀
      exact ⟨file', (SortedMap.get?_insert ..).trans (if_pos hne), hfile k m hk hne hle⟩
    · exact ⟨file₀, (SortedMap.get?_insert_of_ne _ _ hne).trans hfile₀, hle, rfl⟩

theorem keeps_sync (h : d.files.get? name = some file) :
    d.Keeps { d with files := d.files.insert name file.sync } :=
  keeps_insert h fun _ _ _ _ hle => ⟨hle.trans file.synced_le, rfl⟩

/-- Bytes are written behind those of the segment. -/
theorem keeps_write {offset : ℕ} {bytes : Bytes} (h : d.files.get? name = some file)
    (hoffset : ∀ k m, d.catalog.segments.get? k = some m → segmentFileName k = name → m.fileLen ≤ offset) :
    d.Keeps { d with files := d.files.insert name (file.write offset bytes) } := by
  refine keeps_insert h fun k m hk hname hle => ⟨le_min hle (hoffset k m hk hname), ?_⟩
  have hlen := hle.trans file.synced_le
  have hpad : offset ≤ (file.content ++ List.replicate (offset - file.content.length) 0).length := by
    rw [List.length_append, List.length_replicate]
    omega
  show (overwrite _ offset bytes).take m.fileLen = _
  have hle' := hoffset k m hk hname
  rw [overwrite, List.take_append_of_le_length (by rwa [List.length_take, min_eq_left hpad]),
    List.take_take, min_eq_left hle', List.take_append_of_le_length hlen]

/-! ### The commits -/

/-- The writer has the active segment of the catalog. -/
structure Active (w : Writer) (d : Disk) : Prop where
  ne : d.catalog.state.activeSegmentId ≠ 0
  segment : d.catalog.segments.get? d.catalog.state.activeSegmentId = some w.activeSegment
  file : w.activeFile = segmentFileName w.activeSegment.segmentId

theorem Active.keeps (h : Active w d) (hkeeps : d.Keeps d') : Active w d' := by
  obtain ⟨hne, hsegment, hfile⟩ := h
  rw [← hkeeps.catalog] at hne hsegment
  exact ⟨hne, hsegment, hfile⟩

theorem Active.segmentId (h : Active w d) (hsound : Sound d) :
    w.activeSegment.segmentId = d.catalog.state.activeSegmentId :=
  (hsound.segments _ _ h.segment).1

theorem Active.isSealed (h : Active w d) (hsound : Sound d) : w.activeSegment.isSealed = false := by
  obtain ⟨m, hm, hsealed⟩ := hsound.active h.ne
  rw [h.segment] at hm
  rwa [Option.some.inj hm]

/-- The active file has all bytes of the active segment. -/
theorem Active.exists_file (h : Active w d) (hsound : Sound d) : ∃ file,
    d.files.get? w.activeFile = some file ∧ w.activeSegment.fileLen ≤ file.synced := by
  obtain ⟨hid, -, hfile⟩ := hsound.segments _ _ h.segment
  rwa [h.file, hid]

/-- The active file is the one of the active segment. -/
theorem Active.fileLen (h : Active w d) (hsound : Sound d) {k : ℕ} {m : SegmentMeta}
    (hk : d.catalog.segments.get? k = some m) (hname : segmentFileName k = w.activeFile) :
    m = w.activeSegment := by
  rw [h.file] at hname
  rw [segmentFileName_inj hname, h.segmentId hsound, h.segment] at hk
  exact (Option.some.inj hk).symm

/-- A chunk that is in the active file. -/
theorem Sound.chunkCommit {chunk : CompressedChunk} (h : Sound d) (hactive : Active w d)
    (hfile : d.files.get? w.activeFile = some file)
    (hsynced : w.activeSegment.fileLen + chunk.payload.length ≤ file.synced)
    (hstands : StandsAt file.content w.activeSegment.fileLen chunk.payload)
    (hcatalog : d'.catalog = d.catalog.applyChunkCommit (w.chunkCommit d.catalog chunk))
    (hcommitted : d'.committed = d.committed ++ [(w.chunkMeta chunk, chunk.payload)])
    (hfiles : d'.files = d.files) : Sound d' := by
  obtain ⟨files', catalog', committed'⟩ := d'
  obtain rfl : files' = d.files := hfiles
  obtain rfl : catalog' = _ := hcatalog
  obtain rfl : committed' = _ := hcommitted
  have hid := hactive.segmentId h
  let m' : SegmentMeta :=
    { w.activeSegment with
      lastIndex := chunk.lastIndex
      fileLen := w.activeSegment.fileLen + chunk.payload.length
      chunkCount := w.activeSegment.chunkCount + 1 }
  have hget : ∀ k, (d.catalog.segments.insert w.activeSegment.segmentId m').get? k =
      if k = w.activeSegment.segmentId then some m' else d.catalog.segments.get? k :=
    fun k => SortedMap.get?_insert ..
  have hself := (hget _).trans (if_pos hid.symm)
  have hname : segmentFileName w.activeSegment.segmentId = w.activeFile := hactive.file.symm
  refine ⟨fun h0 => absurd h0 hactive.ne, fun _ => ⟨m', hself, hactive.isSealed h⟩, fun k m hk => ?_,
    fun c hc => ?_, ?_⟩
  · replace hk := (hget k).symm.trans hk
    split at hk
    · rename_i heq
      obtain rfl := Option.some.inj hk
      refine ⟨heq.symm, ?_, file, by rw [heq, hname, hfile], hsynced⟩
      rw [heq, hid]
      exact (h.segments _ _ hactive.segment).2.1
    · exact h.segments k m hk
  · rcases List.mem_append.mp hc with hc | hc
    · obtain ⟨m, file₀, payload, hk, hfile₀, hcommitted, hlength, hle, hstands⟩ := h.chunks c hc
      by_cases heq : c.segmentId = w.activeSegment.segmentId
      · rw [heq, hid, hactive.segment] at hk
        obtain rfl := Option.some.inj hk
        exact ⟨m', file₀, payload, (hget _).trans (if_pos heq), hfile₀, List.mem_append_left _ hcommitted,
          hlength, hle.trans (Nat.le_add_right _ _), hstands⟩
      · exact ⟨m, file₀, payload, (hget _).trans ((if_neg heq).trans hk), hfile₀,
          List.mem_append_left _ hcommitted, hlength, hle, hstands⟩
    · obtain rfl : c = w.chunkMeta chunk := List.mem_singleton.mp hc
      exact ⟨m', file, chunk.payload, (hget _).trans (if_pos rfl), by rw [← hfile, ← hname]; rfl,
        List.mem_append_right _ (List.mem_singleton.mpr rfl), rfl, le_rfl, hstands⟩
  · refine List.pairwise_append.mpr ⟨h.disjoint, List.pairwise_singleton _ _, fun c hc c' hc' heq => ?_⟩
    obtain rfl : c' = w.chunkMeta chunk := List.mem_singleton.mp hc'
    obtain ⟨m, -, -, hk, -, -, -, hle, -⟩ := h.chunks c hc
    rw [show c.segmentId = w.activeSegment.segmentId from heq, hid, hactive.segment] at hk
    obtain rfl := Option.some.inj hk
    exact hle

/-- The file of the new segment is there. -/
theorem Sound.rotationCommit (h : Sound d) (hactive : Active w d)
    (hfile : d.files.get? (segmentFileName d.catalog.state.nextSegmentId) = some file) :
    Sound { d with
      catalog := d.catalog.applyRotationCommit (buildRotationCommit d.catalog w.activeSegment) } := by
  have hid := hactive.segmentId h
  have hget : ∀ k, (d.catalog.applyRotationCommit
      (buildRotationCommit d.catalog w.activeSegment)).segments.get? k =
        if k = d.catalog.state.nextSegmentId then some (.empty d.catalog.state.nextSegmentId 0)
        else if k = w.activeSegment.segmentId then some { w.activeSegment with isSealed := true }
        else d.catalog.segments.get? k := by
    intro k
    refine (SortedMap.get?_insert ..).trans ?_
    rw [SortedMap.get?_insert]
    rfl
  refine ⟨fun h0 => absurd h0 h.next_pos.ne', fun _ => ⟨_, (hget _).trans (if_pos rfl), rfl⟩,
    fun k m hk => ?_, fun c hc => ?_, h.disjoint⟩
  · replace hk := (hget k).symm.trans hk
    split at hk
    · rename_i heq
      obtain rfl := Option.some.inj hk
      rw [heq]
      exact ⟨rfl, Nat.lt_succ_self _, file, hfile, Nat.zero_le _⟩
    · split at hk
      · rename_i heq
        obtain rfl := Option.some.inj hk
        obtain ⟨-, hlt, hfile'⟩ := h.segments _ _ hactive.segment
        rw [← hid, ← heq] at hlt hfile'
        exact ⟨heq.symm, hlt.trans (Nat.lt_succ_self _), hfile'⟩
      · obtain ⟨hk', hlt, hfile'⟩ := h.segments k m hk
        exact ⟨hk', hlt.trans (Nat.lt_succ_self _), hfile'⟩
  · obtain ⟨m, file₀, payload, hk, hfile₀, hrest⟩ := h.chunks c hc
    have hne : c.segmentId ≠ d.catalog.state.nextSegmentId := (h.segments _ m hk).2.1.ne
    by_cases heq : c.segmentId = w.activeSegment.segmentId
    · rw [heq, hid, hactive.segment] at hk
      obtain rfl := Option.some.inj hk
      exact ⟨_, file₀, payload, (hget _).trans ((if_neg hne).trans (if_pos heq)), hfile₀, hrest⟩
    · exact ⟨m, file₀, payload, (hget _).trans ((if_neg hne).trans ((if_neg heq).trans hk)), hfile₀,
        hrest⟩

/-- The active segment is not sealed and stays. -/
theorem Sound.trimCommit (h : Sound d) (hactive : Active w d) (slot : Slot) (upTo : Option ℕ) :
    Sound { d with catalog := d.catalog.applyTrimCommit (buildTrimCommit d.catalog slot upTo) } ∧
      Active w { d with catalog := d.catalog.applyTrimCommit (buildTrimCommit d.catalog slot upTo) } := by
  have hget : ∀ k, (d.catalog.applyTrimCommit (buildTrimCommit d.catalog slot upTo)).segments.get? k =
      if k ∈ deletedSegments d.catalog upTo then none else d.catalog.segments.get? k :=
    fun k => get?_foldl_erase ..
  have hsegment := hactive.segment
  have hkept : d.catalog.state.activeSegmentId ∉ deletedSegments d.catalog upTo := by
    intro hmem
    obtain ⟨m, hm, hsealed, -⟩ :=
      d.catalog.mem_deletedSegments (fun k m hk => (h.segments k m hk).1) hmem
    rw [hsegment] at hm
    obtain rfl := Option.some.inj hm
    rw [hactive.isSealed h] at hsealed
    cases hsealed
  have hactive' := (hget _).trans ((if_neg hkept).trans hsegment)
  refine ⟨⟨fun h0 => absurd h0 hactive.ne, fun _ => ⟨_, hactive', hactive.isSealed h⟩, fun k m hk => ?_,
    fun c hc => ?_, h.disjoint.filter _⟩, hactive.ne, hactive', hactive.file⟩
  · replace hk := (hget k).symm.trans hk
    split at hk
    · cases hk
    · exact h.segments k m hk
  · obtain ⟨hc, hdeleted⟩ := List.mem_filter.mp hc
    obtain ⟨m, file, payload, hk, hrest⟩ := h.chunks c hc
    exact ⟨m, file, payload, (hget _).trans ((if_neg (of_decide_eq_true hdeleted)).trans hk), hrest⟩

/-! ### The names in use -/

/-- No segment number is taken and no name is new. -/
structure Disk.NoNew (d d' : Disk) : Prop where
  next : d'.catalog.state.nextSegmentId = d.catalog.state.nextSegmentId
  missing : ∀ name, d.files.get? name = none → d'.files.get? name = none

theorem Disk.NoNew.unused (h : d.NoNew d') (hunused : d.Unused p) : d'.Unused p := by
  intro k hk hp
  rw [h.next] at hk
  exact h.missing _ (hunused k hk hp)

theorem Disk.Loses.noNew (h : d.Loses d') : d.NoNew d' := ⟨by rw [h.catalog], h.missing⟩

/-- A file of the disk is replaced. -/
theorem noNew_insert (h : d.files.get? name = some file) :
    d.NoNew { d with files := d.files.insert name file' } where
  next := rfl
  missing := by
    intro name' hname'
    refine (SortedMap.get?_insert_of_ne _ _ ?_).trans hname'
    rintro rfl
    rw [h] at hname'
    cases hname'

theorem noNew_erase (d : Disk) (name : String) : d.NoNew { d with files := d.files.erase name } where
  next := rfl
  missing := by
    intro name' hname'
    refine (SortedMap.get?_erase ..).trans ?_
    rw [hname']
    exact ite_self _

/-- What an operation finds. -/
structure Cut (l : Operation) (d : Disk) : Prop where
  sound : Sound d
  create : ∀ name, l = .createNew name → d.files.get? name = none
  unused : l.LeavesShortName → d.Unused (10 ^ 12 ≤ ·)

/-- What the process has while it waits. -/
structure Live (segmentTargetSize : ℕ) (w : Writer) (d : Disk) : Prop where
  sound : Sound d
  active : Active w d
  unused : d.Unused fun _ => True
  target : w.segmentTargetSize = segmentTargetSize

/-! ### The programs -/

theorem Disk.NoNew.refl (d : Disk) : d.NoNew d := ⟨rfl, fun _ => id⟩

theorem Disk.NoNew.trans {d'' : Disk} (h : d.NoNew d') (h' : d'.NoNew d'') : d.NoNew d'' :=
  ⟨h'.next.trans h.next, fun name hname => h'.missing name (h.missing name hname)⟩

/-- What a committed chunk leaves. -/
structure Commits (chunk : CompressedChunk) (w : Writer) (d : Disk) (w' : Writer) (d' : Disk) : Prop where
  sound : Sound d'
  active : Active w' d'
  noNew : d.NoNew d'
  kept : ∀ name, (d.files.get? name).isSome → (d'.files.get? name).isSome
  target : w'.segmentTargetSize = w.segmentTargetSize
  segment : w'.activeSegment = (w.chunkCommit d.catalog chunk).segment
  catalog : d'.catalog = d.catalog.applyChunkCommit (w.chunkCommit d.catalog chunk)

theorem Commits.fileLen {w' : Writer} {chunk : CompressedChunk} (h : Commits chunk w d w' d') :
    w'.activeSegment.fileLen = w.activeSegment.fileLen + chunk.payload.length := by
  rw [h.segment]
  rfl

theorem commitChunk_meets (h : Sound d) (hactive : Active w d) (chunk : CompressedChunk) :
    Meets (w.commitChunk chunk) d (fun l d' => Sound d' ∧ d.NoNew d' ∧ ∀ name, l ≠ .createNew name)
      (Commits chunk w d) := by
  obtain ⟨file, hfile, hsynced⟩ := hactive.exists_file h
  have hlen := hsynced.trans file.synced_le
  let written := file.write w.activeSegment.fileLen chunk.payload
  let d₁ : Disk := { d with files := d.files.insert w.activeFile written }
  let d₂ : Disk := { d₁ with files := d₁.files.insert w.activeFile written.sync }
  have hk₁ : d.Keeps d₁ := keeps_write hfile fun k m hk hname => (hactive.fileLen h hk hname ▸ le_rfl)
  have hfile₁ : d₁.files.get? w.activeFile = some written := SortedMap.get?_insert_self ..
  have hk₂ : d₁.Keeps d₂ := keeps_sync hfile₁
  have hfile₂ : d₂.files.get? w.activeFile = some written.sync := SortedMap.get?_insert_self ..
  have hn₁ : d.NoNew d₁ := noNew_insert hfile
  have hn₂ : d.NoNew d₂ := hn₁.trans (noNew_insert hfile₁)
  have hs₁ := h.keeps hk₁
  have hs₂ := hs₁.keeps hk₂
  have ha₂ := (hactive.keeps hk₁).keeps hk₂
  -- the chunk stands where the commit says
  have hstands : StandsAt written.sync.content w.activeSegment.fileLen chunk.payload :=
    StandsAt.written _ (by rw [List.length_append]; omega)
  refine .perform_bind ⟨h, .refl d, by simp⟩ (Disk.withFile_ok hfile) ?_
  refine .perform_bind ⟨hs₁, hn₁, by simp⟩ (Disk.withFile_ok hfile₁) ?_
  refine .get_bind (.perform_bind ⟨hs₂, hn₂, by simp⟩ rfl (.pure ?_))
  refine ⟨hs₂.chunkCommit ha₂ hfile₂ hstands.length_le hstands rfl rfl rfl,
    ⟨ha₂.ne, ?_, hactive.file⟩, ⟨hn₂.next, hn₂.missing⟩, fun name hname => ?_, rfl, rfl, rfl⟩
  · exact (SortedMap.get?_insert ..).trans (if_pos (ha₂.segmentId hs₂).symm)
  · show ((d₁.files.insert w.activeFile written.sync).get? name).isSome
    rw [SortedMap.get?_insert, SortedMap.get?_insert]
    split
    · rfl
    · exact hname

/-- What a rotation leaves. -/
structure Rotates (w : Writer) (d : Disk) (w' : Writer) (d' : Disk) : Prop where
  sound : Sound d'
  active : Active w' d'
  unused : d'.Unused fun _ => True
  target : w'.segmentTargetSize = w.segmentTargetSize
  segment : w'.activeSegment = (buildRotationCommit d.catalog w.activeSegment).newSegment
  catalog : d'.catalog = d.catalog.applyRotationCommit (buildRotationCommit d.catalog w.activeSegment)

theorem Rotates.next {w' : Writer} (h : Rotates w d w' d') :
    d'.catalog.state.nextSegmentId = d.catalog.state.nextSegmentId + 1 := by
  rw [h.catalog]
  rfl

theorem rotateSegment_meets (h : Sound d) (hactive : Active w d) (hunused : d.Unused fun _ => True) :
    Meets w.rotateSegment d Cut (Rotates w d) := by
  have hfile := hunused _ le_rfl trivial
  let d₁ : Disk :=
    { d with files := d.files.insert (segmentFileName d.catalog.state.nextSegmentId) .empty }
  have hk₁ : d.Keeps d₁ := keeps_createNew hfile
  have hs₁ := h.keeps hk₁
  have ha₁ := hactive.keeps hk₁
  have hfile₁ : d₁.files.get? (segmentFileName d.catalog.state.nextSegmentId) = some .empty :=
    SortedMap.get?_insert_self ..
  -- the only new name is the one of the new segment
  have hother : ∀ k, d.catalog.state.nextSegmentId < k → d₁.files.get? (segmentFileName k) = none := by
    intro k hk
    refine (SortedMap.get?_insert_of_ne _ _ fun hname => ?_).trans (hunused k hk.le trivial)
    exact hk.ne' (segmentFileName_inj hname)
  refine .get_bind (.perform_bind ⟨h, ?_, fun _ k hk _ => hunused k hk trivial⟩ (exec_createNew hfile) ?_)
  · rintro name ⟨⟩
    exact hfile
  refine .perform_bind ⟨hs₁, by simp, fun hshort k hk hbig => ?_⟩ rfl (.pure ?_)
  · refine hother k (lt_of_le_of_ne hk ?_)
    rintro rfl
    exact absurd hshort (not_lt.mpr hbig)
  · refine ⟨hs₁.rotationCommit ha₁ hfile₁, ⟨h.next_pos.ne', ?_, rfl⟩, fun k hk _ => hother k hk, rfl,
      rfl, rfl⟩
    exact SortedMap.get?_insert_self ..

/-- Files of segments that the catalog does not have are removed. -/
theorem removeSegments_meets {segmentIds : List ℕ}
    (hids : ∀ k ∈ segmentIds, d.catalog.segments.get? k = none) :
    Meets (Writer.removeSegments segmentIds) d
      (fun l d' => d.Keeps d' ∧ d.NoNew d' ∧ ∀ name, l ≠ .createNew name)
      fun _ d' => d.Keeps d' ∧ d.NoNew d' := by
  induction segmentIds generalizing d with
  | nil => exact .pure ⟨.refl d, .refl d⟩
  | cons k ks ih =>
    have hname : ∀ j m, d.catalog.segments.get? j = some m → segmentFileName j ≠ segmentFileName k := by
      intro j m hj hname
      rw [segmentFileName_inj hname, hids k List.mem_cons_self] at hj
      cases hj
    have hrest : ∀ {d'}, d.Keeps d' → d.NoNew d' → Meets (Writer.removeSegments ks) d'
        (fun l d' => d.Keeps d' ∧ d.NoNew d' ∧ ∀ name, l ≠ .createNew name)
        fun _ d' => d.Keeps d' ∧ d.NoNew d' := by
      intro d' hk hn
      refine (ih fun j hj => ?_).mono (fun l d'' h => ⟨hk.trans h.1, hn.trans h.2.1, h.2.2⟩)
        fun _ d'' h => ⟨hk.trans h.1, hn.trans h.2⟩
      rw [hk.catalog]
      exact hids j (List.mem_cons_of_mem _ hj)
    refine (Meets.attempt (R := fun r d' => d.Keeps d' ∧ d.NoNew d' ∧
      (r = .ok () ∨ ∃ name, r = .error (.notFound name))) ⟨.refl d, .refl d, by simp⟩ ?_ ?_).bind ?_
    · intro d' hexec
      obtain ⟨-, -, rfl⟩ := Disk.withFile_eq_ok hexec
      exact ⟨keeps_removeFile hname, noNew_erase d _, Or.inl rfl⟩
    · intro e hexec
      exact ⟨.refl d, .refl d, Or.inr ⟨_, congrArg _ (Disk.withFile_eq_error hexec)⟩⟩
    · rintro r d' ⟨hk, hn, rfl | ⟨name, rfl⟩⟩
      · exact hrest hk hn
      · exact hrest hk hn

theorem Live.cut (h : Live segmentTargetSize w d) {l : Operation} (hl : ∀ name, l ≠ .createNew name) :
    Cut l d :=
  ⟨h.sound, fun name hname => absurd hname (hl name), fun _ k hk _ => h.unused k hk trivial⟩

theorem Live.keeps (h : Live segmentTargetSize w d) (hk : d.Keeps d') (hn : d.NoNew d') :
    Live segmentTargetSize w d' :=
  ⟨h.sound.keeps hk, h.active.keeps hk, hn.unused h.unused, h.target⟩

theorem handleTrim_meets (h : Live segmentTargetSize w d) (slot : Slot) (upTo : Option ℕ) :
    Meets (w.handleTrim slot upTo) d Cut fun w' d' => Live segmentTargetSize w' d' ∧
      d'.catalog = d.catalog.applyTrimCommit (buildTrimCommit d.catalog slot upTo) := by
  obtain ⟨hs₁, ha₁⟩ := h.sound.trimCommit h.active slot upTo
  have h₁ : Live segmentTargetSize w
      { d with catalog := d.catalog.applyTrimCommit (buildTrimCommit d.catalog slot upTo) } :=
    ⟨hs₁, ha₁, h.unused, h.target⟩
  refine .get_bind (.perform_bind (h.cut (by simp)) rfl ?_)
  have hdeleted : ∀ k ∈ deletedSegments d.catalog upTo,
      (d.catalog.applyTrimCommit (buildTrimCommit d.catalog slot upTo)).segments.get? k = none :=
    fun k hk => (get?_foldl_erase ..).trans (if_pos hk)
  have hremove := removeSegments_meets (d := ⟨d.files, _, d.committed⟩) hdeleted
  exact (hremove.mono (fun l d' hcut => (h₁.keeps hcut.1 hcut.2.1).cut hcut.2.2)
    fun _ d' hend => And.intro (h₁.keeps hend.1 hend.2) hend.1.catalog).bind fun _ d' hend => .pure hend

/-- With a chunk that fills the active segment the next one begins. -/
theorem appendChunk_meets (h : Live segmentTargetSize w d) (chunk : CompressedChunk) :
    Meets (w.appendChunk chunk) d Cut fun w' d' => Live segmentTargetSize w' d' ∧
      (segmentTargetSize ≤ w.activeSegment.fileLen + chunk.payload.length →
        d'.catalog.state.nextSegmentId = d.catalog.state.nextSegmentId + 1) := by
  refine ((commitChunk_meets h.sound h.active chunk).mono (fun l d' hcut => ?_) fun _ _ => id).bind ?_
  · obtain ⟨hs, hn, hl⟩ := hcut
    exact ⟨hs, fun name hname => absurd hname (hl name), fun _ k hk _ => hn.unused h.unused k hk trivial⟩
  · intro w₁ d₁ h₁
    have hunused := h₁.noNew.unused h.unused
    have htarget := h₁.target.trans h.target
    split
    · refine (rotateSegment_meets h₁.sound h₁.active hunused).mono (fun _ _ => id) fun w' d' h' => ?_
      exact ⟨⟨h'.sound, h'.active, h'.unused, h'.target.trans htarget⟩,
        fun _ => h'.next.trans (congrArg (· + 1) h₁.noNew.next)⟩
    · rename_i hnot
      rw [htarget, h₁.fileLen] at hnot
      exact .pure ⟨⟨h₁.sound, h₁.active, hunused, htarget⟩, fun hle => absurd hle hnot⟩

/-! ### The writer of the node -/

/-- A chunk of the collector with the payload that a compressor made of it. -/
def compress (cfg : ConfigNode) (chunk : PendingChunk) (payload : Bytes) : CompressedChunk where
  compression := SegmentWriter.compression cfg
  firstIndex := chunk.firstIndex
  lastIndex := chunk.lastIndex
  payload := payload
  pendingSlots := chunk.pendingSlots
  pendingFinalized := chunk.pendingFinalized

/-- The catalog of the node's writer is what the files are committed with. -/
theorem Commits.refines {cfg : ConfigNode} {chunk : PendingChunk} {payload : Bytes} {w' : Writer}
    {node : SegmentWriter} {disk : Richat.Disk} (h : Commits (compress cfg chunk payload) w d w' d')
    (hsize : payload.length = cfg.storage.compressedSize chunk) (hsegment : node.activeSegment = w.activeSegment)
    (hcatalog : disk.catalog = d.catalog) :
    (node.appendChunk cfg disk chunk).1.activeSegment = w'.activeSegment ∧
      (node.appendChunk cfg disk chunk).2.catalog = d'.catalog := by
  rw [h.segment, h.catalog]
  unfold Writer.chunkCommit Writer.chunkMeta compress SegmentWriter.appendChunk
  rw [hsegment, hcatalog, hsize]
  exact ⟨rfl, rfl⟩

theorem Rotates.refines {w' : Writer} {node : SegmentWriter} {disk : Richat.Disk} (h : Rotates w d w' d')
    (hsegment : node.activeSegment = w.activeSegment) (hcatalog : disk.catalog = d.catalog) :
    (node.rotateSegment disk).1.activeSegment = w'.activeSegment ∧
      (node.rotateSegment disk).2.catalog = d'.catalog := by
  rw [h.segment, h.catalog]
  unfold SegmentWriter.rotateSegment
  rw [hsegment, hcatalog]
  exact ⟨rfl, rfl⟩

end

end Richat.Segments
