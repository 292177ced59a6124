import Richat.Segments.CrashConsistent
import Richat.Segments.Reader

/-!
# Where a chunk stays

`Calm` is what the operations of a live writer are like: a new file has the next number, the bytes go behind those of
the catalog, and a file is removed when the catalog does not know its segment. Under such operations a chunk that the
catalog had once stays where it is, as long as the file of its segment is there.

The catalog lists what was committed, in this order, after every operation and every crash.
-/

namespace Richat.Segments

open Lib Lib.Crash Lib.Protobuf

variable {d d' : Disk} {w : Writer} {segmentTargetSize : ℕ} {l : Operation}

/-! ### The chunks that were committed -/

/-- The catalog after an operation. -/
def Operation.apply (catalog : MetadataMirror) : Operation → MetadataMirror
  | .initializeEmpty state segment => catalog.initializeEmpty state segment
  | .chunkCommit commit _ => catalog.applyChunkCommit commit
  | .rotationCommit commit => catalog.applyRotationCommit commit
  | .trimCommit commit => catalog.applyTrimCommit commit
  | _ => catalog

/-- What an operation commits. -/
def Operation.commits : Operation → List (ChunkMeta × Bytes)
  | .chunkCommit commit payload => [(commit.chunk, payload)]
  | _ => []

theorem exec_catalog (hexec : exec l d = .ok d') :
    d'.catalog = l.apply d.catalog ∧ d'.committed = d.committed ++ l.commits := by
  cases l with
  | createNew name =>
    simp only [exec] at hexec
    split at hexec <;> cases hexec
    exact ⟨rfl, (List.append_nil _).symm⟩
  | openFile name | write name offset bytes | syncData name | removeFile name =>
    obtain ⟨file, -, rfl⟩ := Disk.withFile_eq_ok hexec
    exact ⟨rfl, (List.append_nil _).symm⟩
  | initializeEmpty state segment | rotationCommit commit | trimCommit commit =>
    cases hexec
    exact ⟨rfl, (List.append_nil _).symm⟩
  | chunkCommit commit payload =>
    cases hexec
    exact ⟨rfl, rfl⟩

theorem exec_committed (hexec : exec l d = .ok d') : d.committed <+: d'.committed := by
  rw [(exec_catalog hexec).2]
  exact List.prefix_append ..

/-- The chunks of the catalog are some of those that were committed. -/
def Listed (d : Disk) : Prop := d.catalog.chunks.Sublist (d.committed.map Prod.fst)

theorem Listed.exec (h : Listed d) (hexec : exec l d = .ok d') : Listed d' := by
  obtain ⟨hcatalog, hcommitted⟩ := exec_catalog hexec
  rw [Listed, hcatalog, hcommitted, List.map_append]
  cases l with
  | chunkCommit commit payload => exact h.append (.refl _)
  | trimCommit commit => exact List.filter_sublist.trans (h.trans (List.sublist_append_left ..))
  | _ => exact h.trans (List.sublist_append_left ..)

/-! ### The programs of the writer -/

theorem chained_perform (l : Operation) : Chained exec (perform l) := .perform exec l

theorem chained_removeOrphans (catalog : MetadataMirror) : ∀ names, Chained exec (removeOrphans catalog names)
  | [] => .pure 0
  | name :: names => by
    unfold removeOrphans
    split
    · exact chained_removeOrphans catalog names
    · split
      · exact chained_removeOrphans catalog names
      · exact (chained_perform _).bind fun _ => (chained_removeOrphans catalog names).bind fun _ => .pure _

theorem chained_removeSegments : ∀ segmentIds, Chained exec (Writer.removeSegments segmentIds)
  | [] => .pure ()
  | segmentId :: segmentIds => by
    refine (Chained.attempt (chained_perform _)).bind fun r => ?_
    cases r with
    | ok _ => exact chained_removeSegments segmentIds
    | error e =>
      cases e with
      | notFound _ => exact chained_removeSegments segmentIds
      | alreadyExists _ => exact .fail _
      | missingActiveSegment => exact .fail _

theorem chained_open (fs : FileSystem) (segmentTargetSize : ℕ) : Chained exec (Writer.open fs segmentTargetSize) := by
  refine (Chained.get _).bind fun catalog => ?_
  refine ((Chained.get _).bind fun entries => chained_removeOrphans catalog entries).bind fun _ => ?_
  refine Chained.bind ?_ fun _ => (Chained.get _).bind fun catalog => ?_
  · unfold Writer.createFirst
    split
    · exact (chained_perform _).bind fun _ => chained_perform _
    · exact .pure ()
  · unfold Writer.openActive
    split
    · exact .fail _
    · exact (chained_perform _).bind fun _ => .pure _

theorem chained_serve (w : Writer) (call : WriterCall) : Chained exec (w.serve call) := by
  cases call with
  | compressedChunk chunk =>
    have hcommit : Chained exec (w.commitChunk chunk) :=
      (chained_perform _).bind fun _ => (chained_perform _).bind fun _ => (Chained.get _).bind fun _ =>
        (chained_perform _).bind fun _ => .pure _
    refine hcommit.bind fun w => ?_
    split
    · exact (Chained.get _).bind fun _ => (chained_perform _).bind fun _ => (chained_perform _).bind fun _ => .pure _
    · exact .pure w
  | trim slot upTo =>
    exact (Chained.get _).bind fun _ => (chained_perform _).bind fun _ =>
      (chained_removeSegments _).bind fun _ => .pure w

/-- The process has listed what it committed. -/
theorem listed_run (fs : FileSystem) (segmentTargetSize : ℕ) {actions : List (Action Operation WriterCall)}
    {s : State Disk Writer} (hrun : (system fs segmentTargetSize).Run ⟨.new, none⟩ actions s) : Listed s.disk := by
  refine hrun.always (chained_open fs segmentTargetSize) chained_serve (fun _ _ _ hexec h => h.exec hexec) ?_ (.refl _)
  intro d d' hloses h
  rw [Listed, hloses.catalog, hloses.committed]
  exact h

/-! ### What the operations leave alone -/

/-- An operation of a live writer. -/
inductive Calm (d : Disk) : Operation → Prop where
  | createNew : Calm d (.createNew (segmentFileName d.catalog.state.nextSegmentId))
  | write {k : ℕ} {m : SegmentMeta} {bytes : Bytes} (hk : d.catalog.segments.get? k = some m) :
    Calm d (.write (segmentFileName k) m.fileLen bytes)
  | syncData {name : String} : Calm d (.syncData name)
  | removeFile {k : ℕ} (hk : d.catalog.segments.get? k = none) : Calm d (.removeFile (segmentFileName k))
  | chunkCommit {m : SegmentMeta} {commit : MetadataChunkCommit} {payload : Bytes}
    (hm : d.catalog.segments.get? commit.segment.segmentId = some m) (hlen : m.fileLen ≤ commit.segment.fileLen)
    (hstate : commit.state = d.catalog.state) : Calm d (.chunkCommit commit payload)
  | rotationCommit {m : SegmentMeta} (hm : d.catalog.segments.get? m.segmentId = some m) :
    Calm d (.rotationCommit (buildRotationCommit d.catalog m))
  | trimCommit {commit : MetadataTrimCommit} : Calm d (.trimCommit commit)

/-- What the operation finds, and what it is like. -/
structure CalmCut (l : Operation) (d : Disk) : Prop where
  cut : Cut l d
  calm : Calm d l

theorem Meets.and {α : Type} {p : Program α} {C C' : Operation → Disk → Prop} {Q Q' : α → Disk → Prop}
    (h : Meets p d C Q) (h' : Meets p d C' Q') :
    Meets p d (fun l d => C l d ∧ C' l d) (fun a d => Q a d ∧ Q' a d) where
  cuts := fun l d₁ hmem => ⟨h.cuts l d₁ hmem, h'.cuts l d₁ hmem⟩
  ends := by
    obtain ⟨a, ha, hq⟩ := h.ends
    obtain ⟨a', ha', hq'⟩ := h'.ends
    obtain rfl := Except.ok.inj (ha.symm.trans ha')
    exact ⟨a, ha, hq, hq'⟩

theorem commitChunk_calm (h : Sound d) (hactive : Active w d) (chunk : CompressedChunk) :
    Meets (w.commitChunk chunk) d (fun l d => Calm d l) fun _ _ => True := by
  obtain ⟨file, hfile, -⟩ := hactive.exists_file h
  have hsegment : d.catalog.segments.get? w.activeSegment.segmentId = some w.activeSegment := by
    rw [hactive.segmentId h]
    exact hactive.segment
  have hwrite : Calm d (.write w.activeFile w.activeSegment.fileLen chunk.payload) := by
    rw [hactive.file]
    exact .write hsegment
  refine .perform_bind hwrite (Disk.withFile_ok hfile) ?_
  refine .perform_bind .syncData (Disk.withFile_ok (SortedMap.get?_insert_self ..)) ?_
  refine .get_bind (.perform_bind ?_ rfl (.pure trivial))
  exact .chunkCommit hsegment (Nat.le_add_right ..) rfl

theorem rotateSegment_calm (h : Sound d) (hactive : Active w d) (hunused : d.Unused fun _ => True) :
    Meets w.rotateSegment d (fun l d => Calm d l) fun _ _ => True := by
  have hsegment : d.catalog.segments.get? w.activeSegment.segmentId = some w.activeSegment := by
    rw [hactive.segmentId h]
    exact hactive.segment
  refine .get_bind (.perform_bind .createNew (exec_createNew (hunused _ le_rfl trivial)) ?_)
  exact .perform_bind (.rotationCommit hsegment) rfl (.pure trivial)

theorem removeSegments_calm {segmentIds : List ℕ} (hids : ∀ k ∈ segmentIds, d.catalog.segments.get? k = none) :
    Meets (Writer.removeSegments segmentIds) d (fun l d => Calm d l) fun _ _ => True := by
  induction segmentIds generalizing d with
  | nil => exact .pure trivial
  | cons k ks ih =>
    refine (Meets.attempt (R := fun r d' => d'.catalog = d.catalog ∧
      (r = .ok () ∨ ∃ name, r = .error (.notFound name))) (.removeFile (hids k List.mem_cons_self)) ?_ ?_).bind ?_
    · intro d' hexec
      obtain ⟨-, -, rfl⟩ := Disk.withFile_eq_ok hexec
      exact ⟨rfl, .inl rfl⟩
    · intro e hexec
      exact ⟨rfl, .inr ⟨_, congrArg _ (Disk.withFile_eq_error hexec)⟩⟩
    · rintro r d' ⟨hcatalog, hr⟩
      have hrest := ih (d := d') fun j hj => by
        rw [hcatalog]
        exact hids j (List.mem_cons_of_mem _ hj)
      rcases hr with rfl | ⟨name, rfl⟩
      · exact hrest
      · exact hrest

theorem serve_calm (h : Live segmentTargetSize w d) (call : WriterCall) :
    Meets (w.serve call) d CalmCut (Live segmentTargetSize) := by
  cases call with
  | compressedChunk chunk =>
    have hcalm : Meets (w.appendChunk chunk) d (fun l d => Calm d l) fun _ _ => True := by
      refine ((Meets.and (commitChunk_meets h.sound h.active chunk)
        (commitChunk_calm h.sound h.active chunk)).mono (fun _ _ => And.right) fun _ _ => And.left).bind ?_
      intro w₁ d₁ h₁
      split
      · exact rotateSegment_calm h₁.sound h₁.active (h₁.noNew.unused h.unused)
      · exact .pure trivial
    exact (Meets.and (appendChunk_meets h chunk) hcalm).mono (fun _ _ hc => ⟨hc.1, hc.2⟩) fun _ _ hq => hq.1.1
  | trim slot upTo =>
    have hcalm : Meets (w.handleTrim slot upTo) d (fun l d => Calm d l) fun _ _ => True := by
      refine .get_bind (.perform_bind .trimCommit rfl ?_)
      exact (removeSegments_calm fun k hk => (get?_foldl_erase ..).trans (if_pos hk)).bind fun _ _ _ => .pure trivial
    exact (Meets.and (handleTrim_meets h slot upTo) hcalm).mono (fun _ _ hc => ⟨hc.1, hc.2⟩) fun _ _ hq => hq.1.1

/-! ### The place of a chunk -/

/-- The payload of a chunk that was committed is in the file of its segment, if the file is there. -/
structure Placed (chunk : ChunkMeta) (payload : Bytes) (d : Disk) : Prop where
  length : payload.length = chunk.size
  created : chunk.segmentId < d.catalog.state.nextSegmentId
  fileLen : ∀ m, d.catalog.segments.get? chunk.segmentId = some m → chunk.offset + chunk.size ≤ m.fileLen
  stands : ∀ file, d.files.get? (segmentFileName chunk.segmentId) = some file →
    StandsAt file.content chunk.offset payload

/-- A segment that the catalog had once. -/
structure Deleted (k : ℕ) (d : Disk) : Prop where
  created : k < d.catalog.state.nextSegmentId
  missing : d.catalog.segments.get? k = none

theorem Calm.next_le (h : Calm d l) (hexec : exec l d = .ok d') :
    d.catalog.state.nextSegmentId ≤ d'.catalog.state.nextSegmentId := by
  rw [(exec_catalog hexec).1]
  cases h with
  | chunkCommit hm hlen hstate => exact (congrArg MetadataState.nextSegmentId hstate).ge
  | rotationCommit hm => exact Nat.le_succ _
  | _ => exact le_rfl

/-- A segment after the operation was there before, or it is the next one. -/
theorem Calm.segment (h : Calm d l) (hexec : exec l d = .ok d') {k : ℕ} {m' : SegmentMeta}
    (hk : k < d.catalog.state.nextSegmentId) (hm' : d'.catalog.segments.get? k = some m') :
    ∃ m, d.catalog.segments.get? k = some m ∧ m.fileLen ≤ m'.fileLen := by
  rw [(exec_catalog hexec).1] at hm'
  cases h with
  | createNew | write _ | syncData | removeFile _ => exact ⟨m', hm', le_rfl⟩
  | @chunkCommit m commit payload hm hlen hstate =>
    replace hm' : (d.catalog.segments.insert commit.segment.segmentId commit.segment).get? k = some m' := hm'
    rw [SortedMap.get?_insert] at hm'
    split at hm'
    · rename_i heq
      obtain rfl := Option.some.inj hm'
      exact ⟨m, heq ▸ hm, hlen⟩
    · exact ⟨m', hm', le_rfl⟩
  | @rotationCommit m hm =>
    replace hm' : ((d.catalog.segments.insert m.segmentId { m with isSealed := true }).insert
      d.catalog.state.nextSegmentId (.empty d.catalog.state.nextSegmentId 0)).get? k = some m' := hm'
    rw [SortedMap.get?_insert_of_ne _ _ hk.ne, SortedMap.get?_insert] at hm'
    split at hm'
    · rename_i heq
      obtain rfl := Option.some.inj hm'
      exact ⟨m, heq ▸ hm, le_rfl⟩
    · exact ⟨m', hm', le_rfl⟩
  | @trimCommit commit =>
    replace hm' : (commit.deletedSegments.foldl (·.erase ·) d.catalog.segments).get? k = some m' := hm'
    rw [get?_foldl_erase] at hm'
    split at hm'
    · cases hm'
    · exact ⟨m', hm', le_rfl⟩

theorem Deleted.exec {k : ℕ} (h : Deleted k d) (hcalm : Calm d l) (hexec : exec l d = .ok d') : Deleted k d' := by
  refine ⟨h.created.trans_le (hcalm.next_le hexec), ?_⟩
  cases hm' : d'.catalog.segments.get? k with
  | none => rfl
  | some m' =>
    obtain ⟨m, hm, -⟩ := hcalm.segment hexec h.created hm'
    rw [h.missing] at hm
    cases hm

/-- Where a payload stands before the bytes that are written. -/
theorem StandsAt.file_write {file : File} {at' : ℕ} {part : Bytes} (h : StandsAt file.content at' part) {offset : ℕ}
    (bytes : Bytes) (hle : at' + part.length ≤ offset) : StandsAt (file.write offset bytes).content at' part :=
  (h.mono _).before_write offset bytes hle

theorem Placed.exec {chunk : ChunkMeta} {payload : Bytes} (h : Placed chunk payload d) (hcalm : Calm d l)
    (hexec : exec l d = .ok d') : Placed chunk payload d' := by
  refine ⟨h.length, h.created.trans_le (hcalm.next_le hexec), fun m' hm' => ?_, ?_⟩
  · obtain ⟨m, hm, hle⟩ := hcalm.segment hexec h.created hm'
    exact (h.fileLen m hm).trans hle
  · cases hcalm with
    | createNew =>
      simp only [Segments.exec] at hexec
      split at hexec <;> cases hexec
      intro file' hfile'
      refine h.stands file' ((SortedMap.get?_insert_of_ne _ _ fun hname => ?_).symm.trans hfile')
      exact h.created.ne (segmentFileName_inj hname)
    | @write k m bytes hk =>
      obtain ⟨file, hfile, rfl⟩ := Disk.withFile_eq_ok hexec
      intro file' hfile'
      replace hfile' : SortedMap.get? (SortedMap.insert _ _ _) _ = some file' := hfile'
      rw [SortedMap.get?_insert] at hfile'
      split at hfile'
      · rename_i hname
        obtain rfl := Option.some.inj hfile'
        have hstands := h.stands file (by rw [hname]; exact hfile)
        refine StandsAt.file_write hstands bytes ?_
        rw [h.length]
        exact h.fileLen m (segmentFileName_inj hname ▸ hk)
      · exact h.stands file' hfile'
    | syncData =>
      obtain ⟨file, hfile, rfl⟩ := Disk.withFile_eq_ok hexec
      intro file' hfile'
      replace hfile' : SortedMap.get? (SortedMap.insert _ _ _) _ = some file' := hfile'
      rw [SortedMap.get?_insert] at hfile'
      split at hfile'
      · rename_i hname
        obtain rfl := Option.some.inj hfile'
        exact h.stands file (by rw [hname]; exact hfile)
      · exact h.stands file' hfile'
    | removeFile hk =>
      obtain ⟨file, hfile, rfl⟩ := Disk.withFile_eq_ok hexec
      intro file' hfile'
      replace hfile' : SortedMap.get? (SortedMap.erase _ _) _ = some file' := hfile'
      rw [SortedMap.get?_erase] at hfile'
      split at hfile'
      · cases hfile'
      · exact h.stands file' hfile'
    | chunkCommit hm hlen hstate | rotationCommit hm | trimCommit =>
      cases hexec
      exact h.stands

/-- The chunks of the catalog have their places. -/
theorem Sound.placed (h : Sound d) {chunk : ChunkMeta} (hchunk : chunk ∈ d.catalog.chunks) :
    ∃ payload, (chunk, payload) ∈ d.committed ∧ Placed chunk payload d ∧
      (d.files.get? (segmentFileName chunk.segmentId)).isSome := by
  obtain ⟨m, file, payload, hm, hfile, hcommitted, hlength, hle, hstands⟩ := h.chunks chunk hchunk
  refine ⟨payload, hcommitted, ⟨hlength, (h.segments _ m hm).2.1, fun m' hm' => ?_, fun file' hfile' => ?_⟩, ?_⟩
  · rw [hm] at hm'
    exact Option.some.inj hm' ▸ hle
  · rw [hfile] at hfile'
    exact Option.some.inj hfile' ▸ hstands
  · rw [hfile]
    rfl

end Richat.Segments
