import Richat.Lib.Fallible
import Richat.Segments.WriterSpec

/-!
# The segment files after a crash

A start succeeds on every disk that a crash leaves (`open_meets`), so what the catalog has is in the files after
any number of crashes (`crash_consistent`).

A name of a file has at least twelve digits, and the clean-up at a start reads the names of exactly twelve. A file
with a longer name that a crash leaves between its creation and its commit stays, and the segment of its number
is never created (`long_name_collides`).
-/

namespace Richat.Segments

open Lib Lib.Crash Lib.Protobuf

section

variable {d d' : Disk} {w : Writer} {segmentTargetSize : ℕ} {name : String} {file : File}

/-! ### The start -/

/-- Files are removed that are of no segment. -/
structure Disk.Shrinks (d d' : Disk) : Prop where
  keeps : d.Keeps d'
  noNew : d.NoNew d'
  foreign : ∀ name, segmentIdOf name = none → d'.files.get? name = d.files.get? name

theorem Disk.Shrinks.refl (d : Disk) : d.Shrinks d := ⟨.refl d, .refl d, fun _ _ => rfl⟩

theorem Disk.Shrinks.trans {d'' : Disk} (h : d.Shrinks d') (h' : d'.Shrinks d'') : d.Shrinks d'' :=
  ⟨h.keeps.trans h'.keeps, h.noNew.trans h'.noNew,
    fun name hname => (h'.foreign name hname).trans (h.foreign name hname)⟩

/-- A file with a number that the catalog does not have. -/
theorem shrinks_removeFile {k : ℕ} (hname : segmentIdOf name = some k) (hk : d.catalog.segments.get? k = none) :
    d.Shrinks { d with files := d.files.erase name } where
  keeps := by
    refine keeps_removeFile fun j m hj heq => ?_
    rw [← heq, segmentIdOf_segmentFileName] at hname
    split at hname
    · rw [Option.some.inj hname, hk] at hj
      cases hj
    · cases hname
  noNew := noNew_erase d name
  foreign := by
    intro name' hname'
    refine (SortedMap.get?_erase ..).trans (if_neg ?_)
    rintro rfl
    rw [hname] at hname'
    cases hname'

theorem removeOrphans_meets {catalog : MetadataMirror} {names : List String} (hcatalog : d.catalog = catalog)
    (hnames : ∀ name ∈ names, ∃ file, d.files.get? name = some file) (hnodup : names.Nodup) :
    Meets (removeOrphans catalog names) d (fun l d' => d.Shrinks d' ∧ ∀ name, l ≠ .createNew name)
      fun _ d' => d.Shrinks d' ∧ ∀ name ∈ names, ∀ k, segmentIdOf name = some k →
        catalog.segments.get? k = none → d'.files.get? name = none := by
  induction names generalizing d with
  | nil => exact .pure ⟨.refl d, fun name hname => absurd hname List.not_mem_nil⟩
  | cons name names ih =>
    obtain ⟨hnot, hnodup'⟩ := List.nodup_cons.mp hnodup
    -- the file stays
    have hstays : (∀ k, segmentIdOf name = some k → catalog.segments.get? k ≠ none) →
        Meets (removeOrphans catalog names) d (fun l d' => d.Shrinks d' ∧ ∀ name, l ≠ .createNew name)
          fun _ d' => d.Shrinks d' ∧ ∀ name' ∈ name :: names, ∀ k, segmentIdOf name' = some k →
            catalog.segments.get? k = none → d'.files.get? name' = none := by
      intro hk
      refine (ih hcatalog (fun n hn => hnames n (List.mem_cons_of_mem _ hn)) hnodup').mono (fun _ _ => id) ?_
      rintro _ d' ⟨hshrinks, hswept⟩
      refine ⟨hshrinks, fun name' hname' k hid hnone => ?_⟩
      rcases List.mem_cons.mp hname' with rfl | hname'
      · exact absurd hnone (hk k hid)
      · exact hswept name' hname' k hid hnone
    unfold removeOrphans
    split
    · rename_i hid
      refine hstays fun k hk => ?_
      rw [hid] at hk
      cases hk
    · rename_i segmentId hid
      split
      · rename_i hcontains
        refine hstays fun k hk hnone => ?_
        rw [hid] at hk
        obtain rfl := Option.some.inj hk
        rw [SortedMap.contains, hnone] at hcontains
        cases hcontains
      · rename_i hcontains
        have hnone : catalog.segments.get? segmentId = none := by
          rwa [SortedMap.contains, Bool.not_eq_true, Option.isSome_eq_false_iff, Option.isNone_iff_eq_none]
            at hcontains
        obtain ⟨file, hfile⟩ := hnames name List.mem_cons_self
        have hshrinks := shrinks_removeFile (d := d) hid (hcatalog ▸ hnone)
        refine .perform_bind ⟨.refl d, by simp⟩ (Disk.withFile_ok hfile) ?_
        refine Meets.bind ((ih (d := { d with files := d.files.erase name }) hcatalog (fun n hn => ?_)
          hnodup').mono (fun l d' h => ⟨hshrinks.trans h.1, h.2⟩) fun _ _ => id) ?_
        · obtain ⟨file', hfile'⟩ := hnames n (List.mem_cons_of_mem _ hn)
          refine ⟨file', (SortedMap.get?_erase ..).trans ((if_neg ?_).trans hfile')⟩
          rintro rfl
          exact hnot hn
        · rintro _ d' ⟨hshrinks', hswept⟩
          refine .pure ⟨hshrinks.trans hshrinks', fun name' hname' k hid' hnone' => ?_⟩
          rcases List.mem_cons.mp hname' with rfl | hname'
          · exact hshrinks'.noNew.missing _ ((SortedMap.get?_erase ..).trans (if_pos rfl))
          · exact hswept name' hname' k hid' hnone'

/-- After the clean-up no file has a number of twelve digits that is not in use. -/
theorem removeOrphanSegments_meets (fs : FileSystem) (h : Sound d) :
    Meets (removeOrphanSegments fs d.catalog) d (fun l d' => d.Shrinks d' ∧ ∀ name, l ≠ .createNew name)
      fun _ d' => d.Shrinks d' ∧ d'.Unused (· < 10 ^ 12) := by
  refine .get_bind ((removeOrphans_meets rfl (fun name hname => ?_) ?_).mono (fun _ _ => id) ?_)
  · exact Option.isSome_iff_exists.mp (SortedMap.mem_keys.mp ((fs.readDir_perm _).mem_iff.mp hname))
  · exact (fs.readDir_perm _).nodup_iff.mpr (SortedMap.nodup_keys _)
  · rintro _ d' ⟨hshrinks, hswept⟩
    refine ⟨hshrinks, fun k hk hlt => ?_⟩
    rw [hshrinks.noNew.next] at hk
    cases hfile : d.files.get? (segmentFileName k) with
    | none => exact hshrinks.noNew.missing _ hfile
    | some file =>
      refine hswept _ ((fs.readDir_perm _).mem_iff.mpr (SortedMap.mem_keys_of_get? hfile)) k
        ((segmentIdOf_segmentFileName k).trans (if_pos hlt)) ?_
      cases hsegment : d.catalog.segments.get? k with
      | none => rfl
      | some m => exact absurd (h.segments k m hsegment).2.1 (not_lt.mpr hk)

/-- What an operation of a start finds. -/
def Found (d : Disk) (l : Operation) (d' : Disk) : Prop :=
  Sound d' ∧ (∀ name, l = .createNew name → d'.files.get? name = none) ∧
    (d.Unused (10 ^ 12 ≤ ·) → d'.Unused (10 ^ 12 ≤ ·))

theorem Sound.initializeEmpty (h : Sound d) (h0 : d.catalog.state.activeSegmentId = 0)
    (hfile : d.files.get? (segmentFileName d.catalog.state.nextSegmentId) = some file) :
    Sound { d with
      catalog := d.catalog.initializeEmpty ⟨d.catalog.state.nextSegmentId + 1, d.catalog.state.nextSegmentId⟩
        (.empty d.catalog.state.nextSegmentId 0) } := by
  have hnone := (h.first h0).1
  refine ⟨fun h0' => absurd h0' h.next_pos.ne', fun _ => ⟨_, SortedMap.get?_insert_self .., rfl⟩,
    fun k m hk => ?_, fun chunk hc => ?_, h.disjoint⟩
  · replace hk := (SortedMap.get?_insert ..).symm.trans hk
    split at hk
    · rename_i heq
      obtain rfl := Option.some.inj hk
      rw [show k = d.catalog.state.nextSegmentId from heq]
      exact ⟨rfl, Nat.lt_succ_self _, file, hfile, Nat.zero_le _⟩
    · rw [hnone] at hk
      cases hk
  · obtain ⟨m, -, -, hk, -⟩ := h.chunks chunk hc
    rw [hnone] at hk
    cases hk

theorem createFirst_meets (h : Sound d) (hunused : d.Unused (· < 10 ^ 12)) :
    Meets (Writer.createFirst d.catalog) d (Found d) fun _ d' => Sound d' ∧
      d'.catalog.state.activeSegmentId ≠ 0 ∧ d'.Unused (· < 10 ^ 12) ∧
      (d.Unused (10 ^ 12 ≤ ·) → d'.Unused (10 ^ 12 ≤ ·)) ∧
      (d.catalog.state.activeSegmentId ≠ 0 → d' = d) ∧
      (d.catalog.state.activeSegmentId = 0 →
        d'.catalog.state.nextSegmentId = d.catalog.state.nextSegmentId + 1) := by
  unfold Writer.createFirst
  split
  · rename_i h0
    obtain ⟨-, hone⟩ := h.first h0
    have hfile := hunused _ le_rfl (by rw [hone]; norm_num)
    have hother : ∀ {p : ℕ → Prop}, d.Unused p → ∀ k, d.catalog.state.nextSegmentId < k → p k →
        (d.files.insert (segmentFileName d.catalog.state.nextSegmentId) .empty).get? (segmentFileName k) =
          none := by
      intro p hp k hk hpk
      refine (SortedMap.get?_insert_of_ne _ _ fun hname => ?_).trans (hp k hk.le hpk)
      exact hk.ne' (segmentFileName_inj hname)
    have hs₁ := h.keeps (keeps_createNew hfile)
    refine .perform_bind ⟨h, ?_, id⟩ (exec_createNew hfile)
      (.perform ⟨hs₁, by simp, fun hbig k hk hle => ?_⟩ rfl ?_)
    · rintro name ⟨⟩
      exact hfile
    · refine hother hbig k (lt_of_le_of_ne hk ?_) hle
      rintro rfl
      rw [hone] at hle
      norm_num at hle
    · exact ⟨hs₁.initializeEmpty h0 (SortedMap.get?_insert_self ..), h.next_pos.ne',
        fun k hk => hother hunused k hk, fun hbig k hk => hother hbig k hk, fun hne => absurd h0 hne,
        fun _ => rfl⟩
  · rename_i hne
    exact .pure ⟨h, hne, hunused, id, fun _ => rfl, fun h0 => absurd h0 hne⟩

theorem openActive_meets (segmentTargetSize : ℕ) (h : Sound d) (hne : d.catalog.state.activeSegmentId ≠ 0) :
    Meets (Writer.openActive segmentTargetSize d.catalog) d
      (fun l d' => d' = d ∧ ∀ name, l ≠ .createNew name)
      fun w d' => d' = d ∧ Active w d ∧ w.segmentTargetSize = segmentTargetSize := by
  obtain ⟨m, hm, -⟩ := h.active hne
  obtain ⟨hid, -, file, hfile, -⟩ := h.segments _ m hm
  unfold Writer.openActive
  rw [hm]
  rw [← hid] at hfile
  exact .perform_bind ⟨rfl, by simp⟩ (Disk.withFile_ok hfile) (.pure ⟨rfl, ⟨hne, hm, rfl⟩, rfl⟩)

/-- What a start leaves. -/
structure Opened (segmentTargetSize : ℕ) (d : Disk) (w : Writer) (d' : Disk) : Prop where
  sound : Sound d'
  active : Active w d'
  target : w.segmentTargetSize = segmentTargetSize
  short : d'.Unused (· < 10 ^ 12)
  long : d.Unused (10 ^ 12 ≤ ·) → d'.Unused (10 ^ 12 ≤ ·)
  same : d.catalog.state.activeSegmentId ≠ 0 → d'.catalog = d.catalog ∧
    ∀ name, segmentIdOf name = none → d'.files.get? name = d.files.get? name
  next : d.catalog.state.activeSegmentId = 0 →
    d'.catalog.state.nextSegmentId = d.catalog.state.nextSegmentId + 1

/-- **A start succeeds on every disk that a crash leaves.** -/
theorem open_meets (fs : FileSystem) (segmentTargetSize : ℕ) (h : Sound d) :
    Meets (Writer.open fs segmentTargetSize) d (Found d) (Opened segmentTargetSize d) := by
  refine .get_bind (((removeOrphanSegments_meets fs h).mono (fun l d' hcut => ?_) fun _ _ => id).bind ?_)
  · obtain ⟨hshrinks, hl⟩ := hcut
    exact ⟨h.keeps hshrinks.keeps, fun name hname => absurd hname (hl name), hshrinks.noNew.unused⟩
  · rintro _ d₁ ⟨hshrinks, hunused⟩
    have hcatalog := hshrinks.keeps.catalog
    have hs₁ := h.keeps hshrinks.keeps
    rw [← hcatalog]
    refine ((createFirst_meets hs₁ hunused).mono (fun l d' hcut => ?_) fun _ _ => id).bind ?_
    · exact ⟨hcut.1, hcut.2.1, fun hbig => hcut.2.2 (hshrinks.noNew.unused hbig)⟩
    · rintro _ d₂ ⟨hs₂, hne, hunused₂, hbig₂, hsame, hnext⟩
      refine .get_bind ((openActive_meets segmentTargetSize hs₂ hne).mono (fun l d' hcut => ?_) ?_)
      · obtain ⟨rfl, hl⟩ := hcut
        exact ⟨hs₂, fun name hname => absurd hname (hl name),
          fun hbig => hbig₂ (hshrinks.noNew.unused hbig)⟩
      · rintro w d' ⟨rfl, hactive, htarget⟩
        refine ⟨hs₂, hactive, htarget, hunused₂, fun hbig => hbig₂ (hshrinks.noNew.unused hbig),
          fun hne' => ?_, fun h0 => (hnext (hcatalog ▸ h0)).trans (by rw [hcatalog])⟩
        rw [hsame (hcatalog ▸ hne')]
        exact ⟨hcatalog, hshrinks.foreign⟩

theorem Opened.live (h : Opened segmentTargetSize d w d') (hunused : d.Unused (10 ^ 12 ≤ ·)) :
    Live segmentTargetSize w d' where
  sound := h.sound
  active := h.active
  target := h.target
  unused := by
    intro k hk _
    rcases lt_or_ge k (10 ^ 12) with hlt | hle
    · exact h.short k hk hlt
    · exact h.long hunused k hk hle

end

/-! ### Every run -/

/-- What a crash has to leave. -/
structure Idle (d : Disk) : Prop where
  sound : Sound d
  unused : d.Unused (10 ^ 12 ≤ ·)

theorem invariant (fs : FileSystem) (segmentTargetSize : ℕ) :
    Invariant (system fs segmentTargetSize) Idle (Live segmentTargetSize) Cut Operation.LeavesShortName where
  start := by
    intro d hidle
    refine (open_meets fs segmentTargetSize hidle.sound).mono (fun l d' hcut => ?_) ?_
    · exact ⟨hcut.1, hcut.2.1, fun _ => hcut.2.2 hidle.unused⟩
    · exact fun w d' hopened => hopened.live hidle.unused
  serve := by
    intro w call d hlive
    cases call with
    | compressedChunk chunk => exact (appendChunk_meets hlive chunk).mono (fun _ _ => id) fun _ _ => And.left
    | trim slot upTo => exact (handleTrim_meets hlive slot upTo).mono (fun _ _ => id) fun _ _ => And.left
  cut := fun l d d' hcut hshort hloses =>
    ⟨hcut.sound.keeps hloses.keeps, hloses.noNew.unused (hcut.unused hshort)⟩
  lost := fun d d' hidle hloses => ⟨hidle.sound.keeps hloses.keeps, hloses.noNew.unused hidle.unused⟩
  rests := fun w d hlive => ⟨hlive.sound, fun k hk _ => hlive.unused k hk trivial⟩

/-- What a crash may not break. -/
structure CrashConsistent (fs : FileSystem) (segmentTargetSize : ℕ) (s : State Disk Writer) : Prop where
  /-- a process that starts comes up -/
  opens : s.process = none → Succeeds (Writer.open fs segmentTargetSize s.disk).result
  /-- the bytes of every chunk are in the file of its segment -/
  chunks : ∀ chunk ∈ s.disk.catalog.chunks, ∃ segment file payload,
    s.disk.catalog.segments.get? chunk.segmentId = some segment ∧
      s.disk.files.get? (segmentFileName chunk.segmentId) = some file ∧
        (chunk, payload) ∈ s.disk.committed ∧ chunk.offset + chunk.size ≤ file.content.length ∧
          (file.content.drop chunk.offset).take chunk.size = payload
  disjoint : s.disk.catalog.chunks.Pairwise fun a b => a.segmentId = b.segmentId →
    a.offset + a.size ≤ b.offset ∨ b.offset + b.size ≤ a.offset
  /-- no file of a segment is removed -/
  files : ∀ k ∈ s.disk.catalog.segments.keys, s.disk.files.contains (segmentFileName k)
  /-- a file that is created was not there -/
  fresh : ∀ name d, (system fs segmentTargetSize).Finds s (.createNew name) d →
    d.files.contains name = false

theorem Sound.crashConsistent {fs : FileSystem} {segmentTargetSize : ℕ} {s : State Disk Writer}
    (h : Sound s.disk) (hfresh : ∀ name d, (system fs segmentTargetSize).Finds s (.createNew name) d →
      d.files.get? name = none) : CrashConsistent fs segmentTargetSize s where
  opens := fun _ => (open_meets fs segmentTargetSize h).ends.imp fun _ => And.left
  chunks := by
    intro chunk hc
    obtain ⟨m, file, payload, hk, hfile, hcommitted, hlength, -, hstands⟩ := h.chunks chunk hc
    refine ⟨m, file, payload, hk, hfile, hcommitted, hlength ▸ hstands.length_le, ?_⟩
    obtain ⟨pre, post, heq, hoffset⟩ := hstands
    rw [heq, ← hoffset, ← hlength, List.drop_left, List.take_left]
  disjoint := h.disjoint.imp fun hab heq => Or.inl (hab heq)
  files := by
    intro k hk
    obtain ⟨m, hm⟩ := Option.isSome_iff_exists.mp (SortedMap.mem_keys.mp hk)
    obtain ⟨-, -, file, hfile, -⟩ := h.segments k m hm
    rw [SortedMap.contains, hfile]
    rfl
  fresh := by
    intro name d hfinds
    rw [SortedMap.contains, hfresh name d hfinds]
    rfl

/-- **The segment files survive every crash**, unless one comes between the creation of a file with a name of
more than twelve digits and its commit. -/
theorem crash_consistent (fs : FileSystem) (segmentTargetSize : ℕ) {actions : List (Action Operation WriterCall)}
    {s : State Disk Writer} (hrun : (system fs segmentTargetSize).Run ⟨.new, none⟩ actions s)
    (hshort : ∀ action ∈ actions, action.Allowed Operation.LeavesShortName) :
    CrashConsistent fs segmentTargetSize s := by
  have hholds := (invariant fs segmentTargetSize).run (s := ⟨.new, none⟩) ⟨.new, fun _ _ _ => rfl⟩
    hrun hshort
  have hsound : Sound s.disk := by
    obtain ⟨d, _ | w⟩ := s
    · exact hholds.sound
    · exact hholds.sound
  exact hsound.crashConsistent fun name d hfinds =>
    ((invariant fs segmentTargetSize).finds hholds hfinds).create name rfl

/-- A chunk of one byte. -/
def oneByte : CompressedChunk := ⟨0, 0, 0, [0], [], []⟩

def inOrder : FileSystem := ⟨fun files => files.keys, fun _ => .refl _⟩

theorem run_new : (system inOrder 1).Run ⟨.new, none⟩ [] ⟨.new, none⟩ := .nil

/-- A chunk is written, and there is a restart. -/
theorem crash_consistent_restart : ∃ s, (system inOrder 1).Run ⟨.new, none⟩
    [.start, .serve (.compressedChunk oneByte), .crash, .start] s ∧ CrashConsistent inOrder 1 s := by
  obtain ⟨w, d, hrun, hopened⟩ := run_new.start (open_meets inOrder 1 .new)
  obtain ⟨w', d', hrun', hlive, -⟩ := hrun.serve (.compressedChunk oneByte)
    (appendChunk_meets (hopened.live fun _ _ _ => rfl) oneByte)
  obtain ⟨w'', d'', hrun'', -⟩ := (hrun'.snoc (.crash (.refl d'))).start (open_meets inOrder 1 hlive.sound)
  exact ⟨_, hrun'', crash_consistent inOrder 1 hrun'' (by simp [Action.Allowed])⟩

/-! ### A name of thirteen digits -/

/-- Every chunk of one byte begins a segment. -/
theorem reaches (n : ℕ) : ∃ actions w d, (system inOrder 1).Run ⟨.new, none⟩ actions ⟨d, some w⟩ ∧
    Live 1 w d ∧ d.catalog.state.nextSegmentId = n + 2 := by
  induction n with
  | zero =>
    obtain ⟨w, d, hrun, hopened⟩ := run_new.start (open_meets inOrder 1 .new)
    exact ⟨_, w, d, hrun, hopened.live fun _ _ _ => rfl, hopened.next rfl⟩
  | succ n ih =>
    obtain ⟨actions, w, d, hrun, hlive, hnext⟩ := ih
    obtain ⟨w', d', hrun', hlive', hnext'⟩ :=
      hrun.serve (.compressedChunk oneByte) (appendChunk_meets hlive oneByte)
    exact ⟨_, w', d', hrun', hlive', (hnext' (Nat.le_add_left _ _)).trans (congrArg (· + 1) hnext)⟩

section

variable {d : Disk} {w : Writer}

/-- A rotation creates the file of the next segment. -/
theorem mem_cuts_rotateSegment (w : Writer) (d : Disk) :
    (.createNew (segmentFileName d.catalog.state.nextSegmentId), d) ∈ (w.rotateSegment d).cuts :=
  Prog.mem_cuts_perform_bind exec (.createNew (segmentFileName d.catalog.state.nextSegmentId)) d _

/-- A rotation is cut before its commit. -/
theorem exists_cut_rotateSegment (w : Writer) (h : Sound d)
    (hfile : d.files.get? (segmentFileName d.catalog.state.nextSegmentId) = none) :
    ∃ operation d', (operation, d') ∈ (w.rotateSegment d).cuts ∧ Sound d' ∧ d'.catalog = d.catalog ∧
      (d'.files.get? (segmentFileName d.catalog.state.nextSegmentId)).isSome := by
  refine ⟨.rotationCommit (buildRotationCommit d.catalog w.activeSegment), _, ?_,
    h.keeps (keeps_createNew hfile), rfl, ?_⟩
  · show _ ∈ ((Prog.perform exec (.createNew (segmentFileName d.catalog.state.nextSegmentId)) >>= _) d).cuts
    rw [Prog.perform_bind_eq (exec_createNew hfile)]
    exact List.mem_cons_of_mem _ (Prog.mem_cuts_perform_bind exec _ _ _)
  · rw [SortedMap.get?_insert_self]
    rfl

/-- With a chunk of one byte the operations are those of a rotation in the end. -/
theorem exists_rotation (h : Sound d) (hactive : Active w d) (htarget : w.segmentTargetSize = 1) :
    ∃ w' d', Commits oneByte w d w' d' ∧ (w'.rotateSegment d').cuts ⊆ (w.appendChunk oneByte d).cuts := by
  obtain ⟨w', d', hcommits, heq⟩ := (commitChunk_meets h hactive oneByte).exists_bind
    fun w => if w.segmentTargetSize ≤ w.activeSegment.fileLen then w.rotateSegment else pure w
  refine ⟨w', d', hcommits, ?_⟩
  show _ ⊆ ((w.commitChunk oneByte >>= _) d).cuts
  rw [heq, if_pos (by rw [hcommits.target, htarget, hcommits.fileLen]; exact Nat.le_add_left _ _)]
  exact List.subset_append_right _ _

end

/-- The crash comes between the creation of the file of segment `10 ^ 12` and its commit. The file stays, and the
segment is not created. -/
theorem long_name_collides : ∃ actions s, (system inOrder 1).Run ⟨.new, none⟩ actions s ∧
    ¬ CrashConsistent inOrder 1 s := by
  obtain ⟨actions, w, d, hrun, hlive, hnext⟩ := reaches (10 ^ 12 - 2)
  obtain ⟨w₁, d₁, h₁, hcuts₁⟩ := exists_rotation hlive.sound hlive.active hlive.target
  have hnext₁ : d₁.catalog.state.nextSegmentId = 10 ^ 12 := by
    rw [h₁.noNew.next, hnext]
    norm_num
  obtain ⟨operation, d₂, hcut, hs₂, hcatalog, hfile⟩ :=
    exists_cut_rotateSegment w₁ h₁.sound (h₁.noNew.unused hlive.unused _ le_rfl trivial)
  rw [hnext₁] at hfile
  -- the crash loses nothing, and the clean-up leaves the file
  have hcrash : (system inOrder 1).Step ⟨d, some w⟩ (.crashServe (.compressedChunk oneByte) operation)
      ⟨d₂, none⟩ := .crashServe (hcuts₁ hcut) (.refl d₂)
  obtain ⟨w₃, d₃, hrun₃, hopened⟩ := (hrun.snoc hcrash).start (open_meets inOrder 1 hs₂)
  obtain ⟨hcatalog₃, hforeign⟩ := hopened.same (hcatalog ▸ h₁.active.ne)
  have hfile₃ : (d₃.files.get? (segmentFileName (10 ^ 12))).isSome := by
    rwa [hforeign _ ((segmentIdOf_segmentFileName _).trans (if_neg (lt_irrefl _)))]
  obtain ⟨w₄, d₄, h₄, hcuts₄⟩ := exists_rotation hopened.sound hopened.active hopened.target
  have hnext₄ : d₄.catalog.state.nextSegmentId = 10 ^ 12 := by
    rw [h₄.noNew.next, hcatalog₃, hcatalog, hnext₁]
  refine ⟨_, _, hrun₃, fun hconsistent => ?_⟩
  have hcreate := mem_cuts_rotateSegment w₄ d₄
  rw [hnext₄] at hcreate
  have hfresh := hconsistent.fresh _ d₄ ⟨.compressedChunk oneByte, hcuts₄ hcreate⟩
  rw [SortedMap.contains, h₄.kept _ hfile₃] at hfresh
  cases hfresh

end Richat.Segments
