import Richat.Segments.Journal

/-!
# A replay reads the journal

A scan beside the segment writer gives what the journal has, index after index from its start, however the steps of the
two are interleaved: the chunk that it has looked up stays where it is (`Placed`), or is gone with its segment
(`Deleted`).
-/

namespace Richat.Segments

open Lib Lib.Crash Lib.Protobuf Record

section

variable {lib : ReplayLib} {selection : Option ReplaySelection} {chunk : ChunkMeta} {payload : Bytes}
  {data : ChunkData} {header : RecordHeader} {index target : ℕ} {d d' : Disk} {l : Operation} {scan scan' : Scan}
  {start : ℕ} {tr out : List ScanEvent} {purpose : Purpose}

/-- The file that is open follows the writer. -/
theorem LoaderInv.exec {scan : Scan} (h : LoaderInv lib d scan.loader) (hcalm : Calm d l)
    (hexec : exec l d = .ok d') : LoaderInv lib d' (scan.follow d').loader where
  file := by
    intro held hheld
    obtain ⟨held₀, hheld₀, rfl⟩ := Option.mem_map.mp hheld
    refine ⟨(h.file held₀ hheld₀).1.trans_le (hcalm.next_le hexec), fun file hfile => ?_⟩
    dsimp only at hfile ⊢
    rw [hfile]
    rfl
  cache := fun data hdata => by
    obtain ⟨entry, hentry, hdecode⟩ := h.cache data hdata
    exact ⟨entry, (exec_committed hexec).subset hentry, hdecode⟩
  bytes := h.bytes
  length := h.length
  small := h.small

/-! ### The scan -/

def ScanEvent.scanned? : ScanEvent → Option Scanned
  | .scanned record => some record
  | .caughtUp | .failed _ => none

/-- The records that a scan has given. -/
def scannedIn (tr : List ScanEvent) : List Scanned := tr.filterMap ScanEvent.scanned?

theorem scannedIn_append (tr out : List ScanEvent) : scannedIn (tr ++ out) = scannedIn tr ++ scannedIn out :=
  List.filterMap_append

theorem scannedIn_failed (tr : List ScanEvent) (e : ReplayError) : scannedIn (tr ++ [.failed e]) = scannedIn tr := by
  rw [scannedIn_append]
  exact List.append_nil _

/-- The place in the journal behind the records that were given. -/
def place (start : ℕ) (tr : List ScanEvent) : ℕ := start + (scannedIn tr).length

/-- **What a scan gives.** The records are those of the journal, from the start on and with none left out, and the scan
ends for a reason. -/
structure Reads (lib : ReplayLib) (selection : Option ReplaySelection) (start : ℕ) (d : Disk) (tr : List ScanEvent) :
    Prop where
  records : ∀ i record, (scannedIn tr)[i]? = some record → record.index = start + i ∧
    journalRead lib selection d.committed (start + i) = some (.ok record)
  failures : ∀ e, .failed e ∈ tr → GivesUp lib selection d (place start tr) e

theorem Reads.exec (h : Reads lib selection start d tr) (hcalm : Calm d l) (hexec : exec l d = .ok d')
    (horder : InOrder d'.committed) : Reads lib selection start d' tr where
  records := fun i record hi => (h.records i record hi).imp_right fun hread =>
    journalRead_mono hread (exec_committed hexec)
  failures := fun e he => (h.failures e he).exec hcalm hexec horder

/-- The next record. -/
theorem Reads.scanned (h : Reads lib selection start d tr) (hquiet : ∀ e, .failed e ∉ tr) {record : Scanned}
    (hindex : record.index = place start tr)
    (hread : journalRead lib selection d.committed (place start tr) = some (.ok record)) :
    Reads lib selection start d (tr ++ [.scanned record]) where
  records := by
    intro i record' hi
    rw [scannedIn_append, List.getElem?_append] at hi
    split at hi
    · exact h.records i record' hi
    · rename_i hle
      obtain ⟨hzero, rfl⟩ := List.getElem?_eq_some_iff.mp hi
      have hi' : i = (scannedIn tr).length := by
        have : i - (scannedIn tr).length < 1 := hzero
        omega
      subst hi'
      simp only [Nat.sub_self]
      exact ⟨hindex, hread⟩
  failures := by
    intro e he
    rcases List.mem_append.mp he with he | he
    · exact absurd he (hquiet e)
    · cases List.mem_singleton.mp he

theorem Reads.failed (h : Reads lib selection start d tr) (hquiet : ∀ e, .failed e ∉ tr) {e : ReplayError}
    (hreason : GivesUp lib selection d (place start tr) e) : Reads lib selection start d (tr ++ [.failed e]) where
  records := by
    rw [scannedIn_failed]
    exact h.records
  failures := by
    intro e' he'
    rw [place, scannedIn_failed]
    rcases List.mem_append.mp he' with he' | he'
    · exact absurd he' (hquiet e')
    · cases List.mem_singleton.mp he'
      exact hreason

/-- The index of the record that comes next from the chunks. -/
def Scan.position (scan : Scan) : ℕ := scan.chunk.elim scan.nextIndex fun c => c.data.firstIndex + c.cursor

/-- What a chunk is loaded for, and that it is the right one. -/
def Wants (lib : ReplayLib) (selection : Option ReplaySelection) (d : Disk) (scan : Scan) (index : ℕ)
    (chunk : ChunkMeta) : Purpose → Prop
  | .next => scan.position = index ∧ scan.nextIndex = index ∧ chunk.firstIndex ≤ index ∧ index ≤ chunk.lastIndex
  | .payload header i target => scan.position = index + 1 ∧ i = index ∧
      Refers lib selection d.committed header index target ∧ chunk.firstIndex ≤ target ∧ target ≤ chunk.lastIndex

/-- The chunk of a request, which stays where it is. -/
structure Requested (lib : ReplayLib) (selection : Option ReplaySelection) (d : Disk) (scan : Scan) (index : ℕ)
    (purpose : Purpose) (chunk : ChunkMeta) (payload : Bytes) : Prop where
  committed : (chunk, payload) ∈ d.committed
  placed : Placed chunk payload d
  wants : Wants lib selection d scan index chunk purpose

/-- The chunk is requested also when the scan has gone on with its file or its cache. -/
theorem Requested.congr (h : Requested lib selection d scan index purpose chunk payload)
    (hposition : scan'.position = scan.position) (hnext : scan'.nextIndex = scan.nextIndex) :
    Requested lib selection d scan' index purpose chunk payload := by
  refine ⟨h.committed, h.placed, ?_⟩
  have hwants := h.wants
  cases purpose with
  | next => exact ⟨hposition.trans hwants.1, hnext.trans hwants.2.1, hwants.2.2⟩
  | payload => exact ⟨hposition.trans hwants.1, hwants.2⟩

def LoadingInv (lib : ReplayLib) (selection : Option ReplaySelection) (d : Disk) (scan : Scan) (index : ℕ) :
    Loading → Prop
  | .idle => scan.position = index
  | .opening purpose chunk => ∃ payload, Requested lib selection d scan index purpose chunk payload
  | .reading purpose chunk => ∃ payload file, Requested lib selection d scan index purpose chunk payload ∧
      scan.loader.file = some (chunk.segmentId, file) ∧ StandsAt file.content chunk.offset payload

/-- A scan that goes on. -/
structure Going (lib : ReplayLib) (d : Disk) (scan : Scan) (tr : List ScanEvent) : Prop where
  quiet : ∀ e, .failed e ∉ tr
  chunk : ∀ c ∈ scan.chunk, ∃ entry ∈ d.committed, decodeChunk lib.zstd entry.1 entry.2 = .ok c.data ∧
    scan.nextIndex = entry.1.lastIndex + 1 ∧ c.cursor ≤ c.data.records.length

structure ScanInv (lib : ReplayLib) (selection : Option ReplaySelection) (start : ℕ) (d : Disk) (scan : Scan)
    (tr : List ScanEvent) : Prop where
  reads : Reads lib selection start d tr
  loader : LoaderInv lib d scan.loader
  going : scan.failed = false → Going lib d scan tr ∧ LoadingInv lib selection d scan (place start tr) scan.loading

theorem scanInv_new (lib : ReplayLib) (selection : Option ReplaySelection) (start : ℕ) (d : Disk) :
    ScanInv lib selection start d (.new start) [] where
  reads := ⟨fun i record h => by simp [scannedIn] at h, by rintro _ ⟨⟩⟩
  loader := loaderInv_new lib d
  going := fun _ => ⟨⟨by rintro _ ⟨⟩, by rintro _ ⟨⟩⟩, rfl⟩

/-! ### A step of the writer -/

theorem Requested.exec (h : Requested lib selection d scan index purpose chunk payload) (hcalm : Calm d l)
    (hexec : exec l d = .ok d') : Requested lib selection d' (scan.follow d') index purpose chunk payload where
  committed := (exec_committed hexec).subset h.committed
  placed := h.placed.exec hcalm hexec
  wants := by
    have hwants := h.wants
    cases purpose with
    | next => exact hwants
    | payload header i target =>
      obtain ⟨hposition, hi, hrefers, hrange⟩ := hwants
      exact ⟨hposition, hi, hrefers.mono (exec_committed hexec), hrange⟩

theorem LoadingInv.exec {loading : Loading} (h : LoadingInv lib selection d scan index loading) (hcalm : Calm d l)
    (hexec : exec l d = .ok d') : LoadingInv lib selection d' (scan.follow d') index loading := by
  cases loading with
  | idle => exact h
  | opening purpose chunk =>
    obtain ⟨payload, hrequested⟩ := h
    exact ⟨payload, hrequested.exec hcalm hexec⟩
  | reading purpose chunk =>
    obtain ⟨payload, file, hrequested, hfile, hstands⟩ := h
    have hrequested' := hrequested.exec hcalm hexec
    refine ⟨payload, (d'.files.get? (segmentFileName chunk.segmentId)).getD file, hrequested', ?_, ?_⟩
    · simp only [Scan.follow, hfile, Option.map_some]
    · cases hname : d'.files.get? (segmentFileName chunk.segmentId) with
      | none => exact hstands
      | some file' => exact hrequested'.placed.stands file' hname

theorem ScanInv.exec (h : ScanInv lib selection start d scan tr) (hcalm : Calm d l) (hexec : exec l d = .ok d')
    (horder : InOrder d'.committed) : ScanInv lib selection start d' (scan.follow d') tr where
  reads := h.reads.exec hcalm hexec horder
  loader := h.loader.exec hcalm hexec
  going := by
    intro hfailed
    obtain ⟨hgoing, hloading⟩ := h.going hfailed
    refine ⟨⟨hgoing.quiet, fun c hc => ?_⟩, hloading.exec hcalm hexec⟩
    obtain ⟨entry, hentry, hrest⟩ := hgoing.chunk c hc
    exact ⟨entry, (exec_committed hexec).subset hentry, hrest⟩

/-! ### A step of the worker -/

theorem failInv (scan : Scan) (hreads : Reads lib selection start d tr) (hloader : LoaderInv lib d scan.loader)
    (hquiet : ∀ e, .failed e ∉ tr) {e : ReplayError} (hreason : GivesUp lib selection d (place start tr) e) :
    ScanInv lib selection start d (scan.fail e).1 (tr ++ (scan.fail e).2) where
  reads := hreads.failed hquiet hreason
  loader := hloader
  going := by rintro ⟨⟩

theorem place_scanned (start : ℕ) (tr : List ScanEvent) (record : Scanned) :
    place start (tr ++ [.scanned record]) = place start tr + 1 := by
  rw [place, scannedIn_append, List.length_append]
  rfl

/-- The record of the place. -/
theorem scannedInv (scan : Scan) (hreads : Reads lib selection start d tr) (hloader : LoaderInv lib d scan.loader)
    (hgoing : Going lib d scan tr) {record : Scanned}
    (hindex : record.index = place start tr)
    (hread : journalRead lib selection d.committed (place start tr) = some (.ok record))
    (hposition : scan.position = place start tr + 1) :
    ScanInv lib selection start d (scan.yields (.ok record)).1 (tr ++ (scan.yields (.ok record)).2) where
  reads := hreads.scanned hgoing.quiet hindex hread
  loader := hloader
  going := by
    intro _
    refine ⟨⟨fun e he => ?_, hgoing.chunk⟩, hposition.trans (place_scanned start tr record).symm⟩
    rcases List.mem_append.mp he with he | he
    · exact hgoing.quiet e he
    · cases List.mem_singleton.mp he

/-- An error of the chunk is one of the journal. -/
theorem Requested.journalRead_error (h : Requested lib selection d scan index purpose chunk payload)
    (horder : InOrder d.committed) {e : ReplayError} (hdecode : decodeChunk lib.zstd chunk payload = .error e) :
    journalRead lib selection d.committed index = some (.error e) := by
  have hwants := h.wants
  cases purpose with
  | next =>
    obtain ⟨-, -, hfirst, hlast⟩ := hwants
    refine journalRead_chunk_error ?_
    rw [horder.journalChunk_eq h.committed hfirst hlast, hdecode]
  | payload header i target =>
    obtain ⟨-, -, hrefers, hfirst, hlast⟩ := hwants
    refine hrefers.journalRead_error ?_
    rw [horder.journalChunk_eq h.committed hfirst hlast, hdecode]

/-- The chunk is there. -/
theorem loadedInv (scan : Scan) (hreads : Reads lib selection start d tr) (hloader : LoaderInv lib d scan.loader)
    (hgoing : Going lib d scan tr) (horder : InOrder d.committed)
    (h : Requested lib selection d scan (place start tr) purpose chunk payload)
    (hdecode : decodeChunk lib.zstd chunk payload = .ok data) :
    ScanInv lib selection start d (scan.loaded lib chunk data purpose).1
      (tr ++ (scan.loaded lib chunk data purpose).2) := by
  have hdecoded := decodeChunk_ok hdecode
  have hwants := h.wants
  cases purpose with
  | next =>
    obtain ⟨-, hnext, hfirst, hlast⟩ := hwants
    have hlength := hdecoded.length
    refine ⟨by rw [Scan.loaded, List.append_nil]; exact hreads, hloader, fun _ => ?_⟩
    rw [Scan.loaded, List.append_nil]
    refine ⟨⟨hgoing.quiet, ?_⟩, ?_⟩
    · rintro c ⟨⟩
      exact ⟨_, h.committed, hdecode, rfl, by dsimp only; omega⟩
    · show data.firstIndex + (scan.nextIndex - chunk.firstIndex) = place start tr
      rw [hdecoded.firstIndex]
      omega
  | payload header i target =>
    obtain ⟨hposition, rfl, hrefers, hfirst, hlast⟩ := hwants
    have htarget : journalChunk lib d.committed target = some (.ok data) := by
      rw [horder.journalChunk_eq h.committed hfirst hlast, hdecode]
    have hread := hrefers.journalRead htarget
    show ScanInv lib selection start d (scan.yields (resolve lib header _ target data)).1
      (tr ++ (scan.yields (resolve lib header _ target data)).2)
    cases hresolve : resolve lib header (place start tr) target data with
    | error e =>
      rw [hresolve] at hread
      refine failInv scan hreads hloader hgoing.quiet (.journal ?_ hread)
      rintro rfl
      exact Returns.resolve hdecoded hresolve
    | ok record =>
      rw [hresolve] at hread
      exact scannedInv scan hreads hloader hgoing (resolve_index hresolve) hread hposition

/-- A chunk of the catalog is loaded from the cache, or from the file of its segment. -/
theorem loadInv (hsound : Sound d) (hreads : Reads lib selection start d tr) (hloader : LoaderInv lib d scan.loader)
    (hgoing : Going lib d scan tr) (horder : InOrder d.committed)
    (hchunk : chunk ∈ d.catalog.chunks) (hwants : Wants lib selection d scan (place start tr) chunk purpose) :
    ScanInv lib selection start d (scan.load lib chunk purpose).1 (tr ++ (scan.load lib chunk purpose).2) := by
  obtain ⟨payload, hcommitted, hplaced, hthere⟩ := hsound.placed hchunk
  have hrequested : Requested lib selection d scan (place start tr) purpose chunk payload :=
    ⟨hcommitted, hplaced, hwants⟩
  unfold Scan.load
  split
  · rename_i data loader hcached
    obtain ⟨hloader', -, hdecode⟩ := hloader.cached horder hcommitted hcached
    exact loadedInv { scan with loader } hreads hloader' ⟨hgoing.quiet, hgoing.chunk⟩ horder
      (hrequested.congr rfl rfl) hdecode
  · split
    · rw [List.append_nil]
      exact ⟨hreads, hloader, fun _ => ⟨⟨hgoing.quiet, hgoing.chunk⟩, payload, hrequested.congr rfl rfl⟩⟩
    · rename_i hsame
      rw [List.append_nil]
      refine ⟨hreads, hloader, fun _ => ⟨⟨hgoing.quiet, hgoing.chunk⟩, ?_⟩⟩
      obtain ⟨file, hfile⟩ := Option.isSome_iff_exists.mp hthere
      cases hheld : scan.loader.file with
      | none => exact absurd (by rw [hheld]; rfl) hsame
      | some held =>
        have hid : held.1 = chunk.segmentId := by
          rw [hheld] at hsame
          simpa using hsame
        have hcontent := (hloader.file held hheld).2 file (by rw [hid]; exact hfile)
        exact ⟨payload, held.2, hrequested.congr rfl rfl, by rw [← hid]; exact hheld,
          hcontent ▸ hplaced.stands file hfile⟩

/-- `SegmentReader::next` -/
theorem loadNextInv (hsound : Sound d) (hlisted : Listed d) (hreads : Reads lib selection start d tr)
    (hloader : LoaderInv lib d scan.loader) (hgoing : Going lib d scan tr)
    (hidle : scan.loading = .idle) (horder : InOrder d.committed) (hposition : scan.position = place start tr)
    (hnext : scan.nextIndex = place start tr) :
    ScanInv lib selection start d (scan.loadNext lib d.catalog).1 (tr ++ (scan.loadNext lib d.catalog).2) := by
  unfold Scan.loadNext
  split
  · have hsame : scannedIn (tr ++ [.caughtUp]) = scannedIn tr := by
      rw [scannedIn_append]
      exact List.append_nil _
    have hmem : ∀ e, .failed e ∈ tr ++ [.caughtUp] → .failed e ∈ tr := by
      intro e he
      rcases List.mem_append.mp he with he | he
      · exact he
      · cases List.mem_singleton.mp he
    refine ⟨⟨by rw [hsame]; exact hreads.records, fun e he => ?_⟩, hloader, fun _ =>
      ⟨⟨fun e he => ?_, hgoing.chunk⟩, ?_⟩⟩
    · exact absurd (hmem e he) (hgoing.quiet e)
    · exact hgoing.quiet e (hmem e he)
    · rw [hidle, place, hsame]
      exact hposition
  · rename_i chunk hlookup
    obtain ⟨hchunk, hlast⟩ := mem_of_lookupChunk hlookup
    split
    · rename_i hlt
      obtain ⟨payload, hcommitted, -⟩ := hsound.placed hchunk
      have hgone : Gone d scan.nextIndex :=
        ⟨⟨_, hcommitted, hlast⟩, not_retains_of_lt hlisted horder hlookup hlt⟩
      rw [hnext] at hgone ⊢
      exact failInv scan hreads hloader hgoing.quiet (.prunedBefore hgone)
    · rename_i hle
      exact loadInv hsound hreads hloader hgoing horder hchunk
        ⟨hposition, hnext, hnext ▸ not_lt.mp hle, hnext ▸ hlast⟩

/-- `ChunkLoader::payload_chunk` -/
theorem payloadChunkInv (scan : Scan) (hsound : Sound d) (hlisted : Listed d) (hreads : Reads lib selection start d tr)
    (hloader : LoaderInv lib d scan.loader) (hgoing : Going lib d scan tr)
    (horder : InOrder d.committed) (hposition : scan.position = place start tr + 1)
    (hrefers : Refers lib selection d.committed header (place start tr) target)
    (hearlier : ∃ entry ∈ d.committed, target ≤ entry.1.lastIndex) :
    ScanInv lib selection start d (scan.payloadChunk lib d.catalog header (place start tr) target).1
      (tr ++ (scan.payloadChunk lib d.catalog header (place start tr) target).2) := by
  unfold Scan.payloadChunk
  split
  · rename_i hfilter
    refine failInv scan hreads hloader hgoing.quiet (.payloadPruned hrefers ⟨hearlier, ?_⟩)
    cases hlookup : lookupChunk d.catalog target with
    | none => exact not_retains_of_none hlookup
    | some chunk =>
      rw [hlookup] at hfilter
      exact not_retains_of_lt hlisted horder hlookup (by simpa using hfilter)
  · rename_i chunk hfilter
    obtain ⟨hlookup, hfirst⟩ := Option.filter_eq_some_iff.mp hfilter
    obtain ⟨hchunk, hlast⟩ := mem_of_lookupChunk hlookup
    exact loadInv hsound hreads hloader hgoing horder hchunk
      ⟨hposition, rfl, hrefers, by simpa using hfirst, hlast⟩

theorem turnInv (hsound : Sound d) (hlisted : Listed d) (h : ScanInv lib selection start d scan tr)
    (hfailed : scan.failed = false) (hidle : scan.loading = .idle) (horder : InOrder d.committed) :
    ScanInv lib selection start d (scan.turn lib selection d.catalog).1
      (tr ++ (scan.turn lib selection d.catalog).2) := by
  obtain ⟨hreads, hloader, hrest⟩ := h
  obtain ⟨hgoing, hposition⟩ := hrest hfailed
  rw [hidle] at hposition
  replace hposition : scan.position = place start tr := hposition
  unfold Scan.turn
  split
  · rename_i hnone
    refine loadNextInv hsound hlisted hreads hloader hgoing hidle horder hposition ?_
    rw [← hposition, Scan.position, hnone]
    rfl
  · rename_i data cursor hsome
    obtain ⟨entry, hentry, hdecode, hnext, hcursor⟩ := hgoing.chunk _ hsome
    dsimp only at hcursor hdecode
    have hdecoded := decodeChunk_ok hdecode
    have hlength := hdecoded.length
    have hfirst := hdecoded.firstIndex
    have hrange := hdecoded.range
    have hplace : data.firstIndex + cursor = place start tr := by
      rw [← hposition, Scan.position, hsome]
      rfl
    split
    · refine loadNextInv hsound hlisted hreads hloader hgoing hidle horder hposition ?_
      omega
    · rename_i hmore
      have hchunk : journalChunk lib d.committed (place start tr) = some (.ok data) := by
        rw [← hdecode]
        exact horder.journalChunk_eq hentry (by omega) (by omega)
      have hgoing' : Going lib d { scan with chunk := some ⟨data, cursor + 1⟩ } tr := by
        refine ⟨hgoing.quiet, ?_⟩
        rintro c ⟨⟩
        exact ⟨entry, hentry, hdecode, hnext, by dsimp only; omega⟩
      have hposition' : { scan with chunk := some ⟨data, cursor + 1⟩ }.position = place start tr + 1 := by
        show data.firstIndex + (cursor + 1) = _
        omega
      dsimp only
      rw [hplace]
      split
      · rename_i e hread
        refine failInv { scan with chunk := some ⟨data, cursor + 1⟩ } hreads hloader hgoing.quiet
          (.journal ?_ (journalRead_error hchunk hread))
        rintro rfl
        exact Returns.readRecord hdecoded hread
      · rename_i record hread
        obtain ⟨record', heq, hindex⟩ | ⟨_, _, heq, -⟩ := readRecord_ok hread
        · cases heq
          exact scannedInv { scan with chunk := some ⟨data, cursor + 1⟩ } hreads hloader hgoing' hindex
            (journalRead_record hchunk hread) hposition'
        · cases heq
      · rename_i header target hread
        obtain ⟨record', heq, -⟩ | ⟨_, _, heq, hlt, -⟩ := readRecord_ok hread
        · cases heq
        · cases heq
          exact payloadChunkInv { scan with chunk := some ⟨data, cursor + 1⟩ } hsound hlisted hreads hloader
            hgoing' horder hposition' ⟨data, hchunk, hread⟩ ⟨entry, hentry, by omega⟩

theorem openFileInv (hsound : Sound d) (h : ScanInv lib selection start d scan tr) (hfailed : scan.failed = false)
    (hloading : scan.loading = .opening purpose chunk) :
    ScanInv lib selection start d (scan.openFile d purpose chunk).1 (tr ++ (scan.openFile d purpose chunk).2) := by
  obtain ⟨hreads, hloader, hrest⟩ := h
  obtain ⟨hgoing, hinv⟩ := hrest hfailed
  rw [hloading] at hinv
  obtain ⟨payload, hrequested⟩ := hinv
  unfold Scan.openFile
  split
  · rename_i hmissing
    have hdeleted : Deleted chunk.segmentId d := by
      refine ⟨hrequested.placed.created, ?_⟩
      cases hm : d.catalog.segments.get? chunk.segmentId with
      | none => rfl
      | some m =>
        obtain ⟨-, -, file, hfile, -⟩ := hsound.segments _ m hm
        rw [hmissing] at hfile
        cases hfile
    refine failInv scan hreads hloader hgoing.quiet ?_
    have hwants := hrequested.wants
    cases purpose with
    | next =>
      obtain ⟨-, -, hfirst, hlast⟩ := hwants
      exact .openSegment hrequested.committed (.inl rfl) hfirst hlast hdeleted
    | payload header i target =>
      obtain ⟨-, -, hrefers, hfirst, hlast⟩ := hwants
      exact .openSegment hrequested.committed (.inr ⟨header, hrefers⟩) hfirst hlast hdeleted
  · rename_i file hfile
    rw [List.append_nil]
    refine ⟨hreads, ⟨?_, hloader.cache, hloader.bytes, hloader.length, hloader.small⟩, fun _ =>
      ⟨⟨hgoing.quiet, hgoing.chunk⟩, payload, file, hrequested.congr rfl rfl, rfl,
        hrequested.placed.stands file hfile⟩⟩
    rintro held ⟨⟩
    exact ⟨hrequested.placed.created, fun file' hfile' => Option.some.inj (hfile'.symm.trans hfile)⟩

theorem readFileInv (h : ScanInv lib selection start d scan tr) (hfailed : scan.failed = false)
    (hloading : scan.loading = .reading purpose chunk) (horder : InOrder d.committed) :
    ScanInv lib selection start d (scan.readFile lib purpose chunk).1 (tr ++ (scan.readFile lib purpose chunk).2) := by
  obtain ⟨hreads, hloader, hrest⟩ := h
  obtain ⟨hgoing, hinv⟩ := hrest hfailed
  rw [hloading] at hinv
  obtain ⟨payload, file, hrequested, hfile, pre, post, hcontent, hoffset⟩ := hinv
  have hlength := hrequested.placed.length
  have hread : scan.loader.readChunk chunk = .ok payload := by
    unfold ChunkLoader.readChunk
    rw [hfile]
    dsimp only
    rw [hcontent, ← hoffset, List.drop_left, ← hlength, List.take_left, if_neg (lt_irrefl _)]
  unfold Scan.readFile
  rw [hread]
  split
  · rename_i e hdecode
    refine failInv scan hreads hloader hgoing.quiet (.journal ?_ (hrequested.journalRead_error horder hdecode))
    rintro rfl
    exact Returns.decodeChunk hdecode
  · rename_i data hdecode
    exact loadedInv { scan with loader := scan.loader.add data } hreads
      (hloader.add hrequested.committed hdecode) ⟨hgoing.quiet, hgoing.chunk⟩ horder
      (hrequested.congr rfl rfl) hdecode

theorem ScanInv.step {action : ScanAction} (h : ScanInv lib selection start d scan tr) (hsound : Sound d)
    (hlisted : Listed d) (horder : InOrder d.committed)
    (hstep : Scan.step lib selection d scan action = some (scan', out)) :
    ScanInv lib selection start d scan' (tr ++ out) := by
  unfold Scan.step at hstep
  split at hstep
  · cases hstep
  · rename_i hfailed
    replace hfailed := eq_false_of_ne_true hfailed
    split at hstep
    · rename_i hidle
      obtain ⟨rfl, rfl⟩ := Prod.mk.inj (Option.some.inj hstep)
      exact turnInv hsound hlisted h hfailed hidle horder
    · rename_i purpose chunk hloading
      obtain ⟨rfl, rfl⟩ := Prod.mk.inj (Option.some.inj hstep)
      exact openFileInv hsound h hfailed hloading
    · rename_i purpose chunk hloading
      obtain ⟨rfl, rfl⟩ := Prod.mk.inj (Option.some.inj hstep)
      exact readFileInv h hfailed hloading horder
    · cases hstep

/-- The file that is open has what its name has. -/
theorem LoaderInv.follow_eq (h : LoaderInv lib d scan.loader) : scan.follow d = scan := by
  obtain ⟨nextIndex, ⟨held, cache, cacheBytes⟩, chunk, loading, failed⟩ := scan
  cases held with
  | none => rfl
  | some held =>
    have hfile := (h.file held rfl).2
    unfold Scan.follow
    simp only [Option.map_some]
    cases hname : d.files.get? (segmentFileName held.1) with
    | none => rfl
    | some file =>
      obtain rfl := hfile file hname
      rfl

/-- The rules of a scan beside the segment writer. -/
theorem keeps (fs : FileSystem) (segmentTargetSize : ℕ) (lib : ReplayLib) (selection : Option ReplaySelection)
    (start : ℕ) : Beside.Keeps exec (system fs segmentTargetSize) (Scan.observer lib selection)
      (Live segmentTargetSize) CalmCut Sound
      fun d scan tr => Listed d ∧ (InOrder d.committed → ScanInv lib selection start d scan tr) where
  serve := fun _ call _ hlive => serve_calm hlive call
  chained := chained_serve
  cut := fun _ _ hcut => hcut.cut.sound
  live := fun _ _ hlive => hlive.sound
  operation := by
    intro l d d' scan tr hcut hexec h
    refine ⟨h.1.exec hexec, fun horder => ?_⟩
    exact (h.2 (horder.of_prefix (exec_committed hexec))).exec hcut.calm hexec horder
  failure := by
    intro d scan tr _ h
    refine ⟨h.1, fun horder => ?_⟩
    have hinv := h.2 horder
    show ScanInv lib selection start d (scan.follow d) tr
    rw [hinv.loader.follow_eq]
    exact hinv
  observe := fun d scan action scan' out tr hsound h hstep =>
    ⟨h.1, fun horder => (h.2 horder).step hsound h.1 horder hstep⟩

def noGenerated : Filter.Generated where
  subscribeUpdate := fun _ => .error ⟨.bufferUnderflow, []⟩
  subscribeUpdateRichat := fun _ => .error ⟨.bufferUnderflow, []⟩
  transactionInfo := fun _ => .error ⟨.bufferUnderflow, []⟩
  transactionError := fun _ => .error ⟨.bufferUnderflow, []⟩
  blockMeta := fun _ => .error ⟨.bufferUnderflow, []⟩
  blockFooter := fun _ => .error ⟨.bufferUnderflow, []⟩
  entryUpdateParent := fun _ => .error ⟨.bufferUnderflow, []⟩
  createBlockFooterFromWincode := fun _ _ _ => .error ""

/-- A slot, and the publication of its confirmation. -/
def slotChunk : CompressedChunk := ⟨0xc4, 0, 0, [10, 0, 7, 0x1a, 2, 8, 7, 0x5a, 2, 8, 1], [], []⟩
def referenceChunk : CompressedChunk := ⟨0xc4, 1, 1, [3, 0x41, 7, 0], [], []⟩

/-- The segment of the slot is deleted when the scan has its file open. -/
def trimmedScan : List (BesideAction WriterCall ScanAction) :=
  .call (.compressedChunk slotChunk) :: List.replicate 5 .operation ++ .«return» ::
    .call (.compressedChunk referenceChunk) :: List.replicate 5 .operation ++ .«return» ::
    [.observe .turn, .observe .openFile, .observe .readFile, .observe .turn, .observe .openFile,
      .call (.trim 7 (some 1)), .operation, .operation, .observe .readFile, .observe .turn]

def replayLib : ReplayLib := ⟨⟨fun _ bytes => bytes, some⟩, noGenerated, .limited⟩

theorem exists_trimmedScan (w : Writer) (hw : ((system inOrder 1).start .new).result = .ok w) :
    ∃ s tr, run (Beside.step (system inOrder 1) (Scan.observer replayLib none))
      ⟨((system inOrder 1).start .new).disk, .waits w, .new 1⟩ trimmedScan = .ok (s, tr) ∧
      InOrder s.disk.committed ∧ (scannedIn tr).map (·.payloadIndex) = [some 0] := by
  have hall : (match ((system inOrder 1).start .new).result with
      | .error _ => false
      | .ok w => returns (fun s tr => decide ((∀ entry ∈ s.disk.committed, entry.1.firstIndex ≤ entry.1.lastIndex) ∧
          s.disk.committed.Pairwise (fun a b => a.1.lastIndex < b.1.firstIndex) ∧
          (scannedIn tr).map (·.payloadIndex) = [some 0]))
        (run (Beside.step (system inOrder 1) (Scan.observer replayLib none))
          ⟨((system inOrder 1).start .new).disk, .waits w, .new 1⟩ trimmedScan)) = true := by
    decide +kernel
  rw [hw] at hall
  obtain ⟨s, tr, h, hcheck⟩ := exists_of_returns hall
  obtain ⟨hrange, hsorted, hscanned⟩ := of_decide_eq_true hcheck
  exact ⟨s, tr, h, ⟨hrange, hsorted⟩, hscanned⟩

end

end Richat.Segments
