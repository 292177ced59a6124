import Richat.Lib.Fallible
import Richat.Lib.Simulation
import Richat.Quic.Framing
import Richat.Quic.OrderedDelivery

/-!
# The bytes carry the frames

`Carries` relates a stream of bytes to a stream of frames: the bytes that the reader holds, those that have arrived,
those in flight and those that the task has not written yet are the frames one after the other, and a frame has
arrived when all its bytes have. A step of the bytes is then a step of the frames, or of none, or the arrival of
several.
-/

namespace Richat.Quic

open Lib Lib.Protobuf

/-! ### One stream -/

structure Carries (b : ByteStream) (f : UniStream Bytes) : Prop where
  fits : ∀ frame ∈ f.queue, frame.Fits
  bytes : b.reader.taken ++ b.arrived ++ b.inFlight ++ b.task.remaining = f.queue.flatMap Frame.bytes
  /-- the part of the next frame that has arrived -/
  part : ∃ part, b.reader.taken ++ b.arrived = f.arrived.flatMap Frame.bytes ++ part ∧
    ∀ frame ∈ f.inFlight.head?, part.length < frame.bytes.length
  waits : b.reader.Waits
  live : b.task.Live
  finished : b.finished = f.finished
  ended : b.ended = f.ended
  written : b.finished → b.task.isDone
  all : b.ended → b.finished ∧ b.inFlight = []

namespace Carries

variable {b b' : ByteStream} {f : UniStream Bytes}

theorem new : Carries .new (.new Bytes) where
  fits := by rintro _ ⟨⟩
  bytes := rfl
  part := ⟨[], rfl, by rintro _ ⟨⟩⟩
  waits := by
    rw [ByteStream.new, RecvState.init, RecvState.Waits]
    decide
  live := trivial
  finished := rfl
  ended := rfl
  written := by rintro ⟨⟩
  all := by rintro ⟨⟩

theorem length_bytes_pos (frame : Frame Bytes) : 0 < frame.bytes.length := by
  simp only [Frame.bytes, List.length_append, length_toBe_eight]
  omega

/-- The bytes behind those that have arrived whole. -/
theorem rest_eq (h : Carries b f) {part : Bytes}
    (hpart : b.reader.taken ++ b.arrived = f.arrived.flatMap Frame.bytes ++ part) :
    part ++ b.inFlight ++ b.task.remaining = f.inFlight.flatMap Frame.bytes := by
  have hbytes := h.bytes
  rw [hpart, UniStream.queue, List.flatMap_append] at hbytes
  simpa only [List.append_assoc, List.append_cancel_left_eq] using hbytes

/-- Without bytes on their way all frames have arrived. -/
theorem inFlight_eq_nil (h : Carries b f) (hflight : b.inFlight = []) (hdone : b.task.isDone) : f.inFlight = [] := by
  obtain ⟨part, hpart, hlt⟩ := h.part
  have hrest := h.rest_eq hpart
  rw [hflight, WriteTask.remaining_of_isDone hdone, List.append_nil, List.append_nil] at hrest
  cases hf : f.inFlight with
  | nil => rfl
  | cons frame frames =>
    have hlt' := hlt frame (by rw [hf]; rfl)
    rw [hf, List.flatMap_cons] at hrest
    rw [hrest, List.length_append] at hlt'
    omega

/-- The stream takes some bytes of its task. -/
theorem write (h : Carries b f) (n : ℕ) : b.write n = .error .idle ∨ ∃ b', b.write n = .ok b' ∧ Carries b' f := by
  rcases WriteTask.write_cases h.live n with herror | ⟨task, htask, hremaining, hlive⟩
  · refine .inl ?_
    rw [ByteStream.write, herror]
    rfl
  · refine .inr ⟨{ b with task, inFlight := b.inFlight ++ b.task.remaining.take n }, ?_, ?_⟩
    · rw [ByteStream.write, htask]
      rfl
    · have hfinished : b.finished = false := by
        by_contra htrue
        have hdone := h.written (eq_true_of_ne_false htrue)
        unfold WriteTask.write at htask
        rw [if_pos (.inl hdone)] at htask
        cases htask
      refine ⟨h.fits, ?_, h.part, h.waits, hlive, h.finished, h.ended, fun hf => ?_, fun he => ?_⟩
      · dsimp only
        rw [hremaining, List.append_assoc, List.append_assoc b.inFlight, List.take_append_drop, ← List.append_assoc]
        exact h.bytes
      · rw [hfinished] at hf
        cases hf
      · have hf := (h.all he).1
        rw [hfinished] at hf
        cases hf

/-- The frames that some bytes hold whole. -/
theorem exists_whole : ∀ {frames : List (Frame Bytes)} {bytes rest : Bytes},
    bytes ++ rest = frames.flatMap Frame.bytes →
    ∃ k part, k ≤ frames.length ∧ bytes = (frames.take k).flatMap Frame.bytes ++ part ∧
      ∀ frame ∈ (frames.drop k).head?, part.length < frame.bytes.length
  | [], bytes, rest, h => by
    obtain ⟨rfl, -⟩ := List.append_eq_nil_iff.mp h
    exact ⟨0, [], le_rfl, rfl, by rintro _ ⟨⟩⟩
  | frame :: frames, bytes, rest, h => by
    by_cases hlt : bytes.length < frame.bytes.length
    · refine ⟨0, bytes, Nat.zero_le _, rfl, ?_⟩
      rintro _ ⟨⟩
      exact hlt
    · rw [List.flatMap_cons] at h
      obtain ⟨tail, rfl, -⟩ := part_of_field ⟨rest, h⟩ (not_lt.mp hlt)
      rw [List.append_assoc, List.append_cancel_left_eq] at h
      obtain ⟨k, part, hk, rfl, hpart⟩ := exists_whole h
      refine ⟨k + 1, part, Nat.succ_le_succ hk, ?_, hpart⟩
      rw [List.take_succ_cons, List.flatMap_cons, List.append_assoc]

/-- The first frames in flight arrive. -/
def arrived (f : UniStream Bytes) (k : ℕ) : UniStream Bytes :=
  { f with inFlight := f.inFlight.drop k, arrived := f.arrived ++ f.inFlight.take k }

theorem queue_arrived (f : UniStream Bytes) (k : ℕ) : (arrived f k).queue = f.queue := by
  rw [arrived, UniStream.queue, UniStream.queue, List.append_assoc, List.take_append_drop]

/-- Some bytes arrive, and with them the frames that they make whole. -/
theorem deliver (h : Carries b f) {n : ℕ} (hb : b.deliver n = .ok b') :
    ∃ k ≤ f.inFlight.length, Carries b' (arrived f k) := by
  unfold ByteStream.deliver at hb
  split at hb
  · cases hb
  · rename_i hn
    cases hb
    obtain ⟨part, hpart, -⟩ := h.part
    have hrest := h.rest_eq hpart
    rw [← List.take_append_drop n b.inFlight, ← List.append_assoc, List.append_assoc] at hrest
    obtain ⟨k, part', hk, hwhole, hlt⟩ := exists_whole hrest
    refine ⟨k, hk, ?_, ?_, ⟨part', ?_, hlt⟩, h.waits, h.live, h.finished, h.ended, h.written, fun he => ?_⟩
    · rw [queue_arrived]
      exact h.fits
    · rw [queue_arrived, ← h.bytes]
      dsimp only
      rw [← List.append_assoc, List.append_assoc _ (b.inFlight.take n), List.take_append_drop]
    · dsimp only [arrived]
      rw [← List.append_assoc, hpart, List.append_assoc, hwhole, List.flatMap_append, List.append_assoc]
    · have hnil := (h.all he).2
      exact absurd (by rw [hnil]; exact Nat.pos_of_ne_zero fun hzero => hn (.inl hzero)) fun hlt => hn (.inr hlt)

/-- The end arrives after all frames. -/
theorem deliverEnd (h : Carries b f) (hb : b.deliverEnd = .ok b') :
    f.arrive = some { f with ended := true } ∧ Carries b' { f with ended := true } := by
  unfold ByteStream.deliverEnd at hb
  split at hb
  · rename_i hend
    obtain ⟨hflight, hfinished, hopen⟩ := hend
    cases hb
    have hnil := h.inFlight_eq_nil hflight (h.written hfinished)
    refine ⟨?_, h.fits, h.bytes, h.part, h.waits, h.live, h.finished, rfl, h.written, fun _ => ⟨hfinished, hflight⟩⟩
    unfold UniStream.arrive
    rw [hnil]
    dsimp only
    rw [if_pos ⟨h.finished ▸ hfinished, by rw [← h.ended]; exact hopen⟩]
  · cases hb

theorem read_nil (htaken : b.reader.taken = []) (harrived : b.arrived = []) :
    b.read = .ok (if b.ended then .finished else .pending, b) := by
  have hinit := eq_init_of_taken htaken
  rw [ByteStream.read, hinit, harrived, pollNext_nil]
  cases b
  subst hinit harrived
  rfl

/-- A poll of the reader. -/
theorem read (h : Carries b f) : ∃ b', b.read = .ok (f.read.1, b') ∧ Carries b' f.read.2 := by
  obtain ⟨part, hpart, hlt⟩ := h.part
  have hstep : ∀ {value : ReaderPoll Bytes} {reader : RecvState} {left : Bytes},
      b.reader.pollNext b.ended b.arrived = .ok (value, reader, left) →
        b.read = .ok (value, { b with reader, arrived := left }) := by
    intro value reader left hpoll
    rw [ByteStream.read, hpoll]
    rfl
  cases harrived : f.arrived with
  | cons frame frames =>
    -- a whole frame is there
    have hfits : frame.Fits := h.fits frame (by
      rw [UniStream.queue, harrived]
      exact List.mem_append_left _ List.mem_cons_self)
    rw [harrived, List.flatMap_cons, List.append_assoc] at hpart
    have hread : f.read = (frame.read, { f with arrived := frames }) := by
      unfold UniStream.read
      rw [harrived]
      cases frame <;> rfl
    rw [hread]
    refine ⟨_, hstep (pollNext_frame hfits h.waits hpart), fun frame' hmem => h.fits frame' ?_, ?_, ⟨part, rfl, hlt⟩,
      ?_, h.live, h.finished, h.ended, h.written, h.all⟩
    · rw [UniStream.queue, harrived]
      exact List.mem_cons_of_mem _ hmem
    · have hbytes := h.bytes
      rw [hpart, UniStream.queue, harrived, List.cons_append, List.flatMap_cons] at hbytes
      simp only [List.append_assoc, List.append_cancel_left_eq] at hbytes
      simp only [RecvState.init, RecvState.taken, List.nil_append, List.append_assoc, UniStream.queue]
      exact hbytes
    · rw [RecvState.init, RecvState.Waits]
      decide
  | nil =>
    rw [harrived, List.flatMap_nil, List.nil_append] at hpart
    have hread : f.read = (if f.ended then .finished else .pending, f) := by
      unfold UniStream.read
      rw [harrived]
      dsimp only
      split <;> rfl
    rw [hread, ← h.ended]
    -- there is nothing before the end
    have hnext : b.ended → f.inFlight = [] := fun hended =>
      h.inFlight_eq_nil (h.all hended).2 (h.written (h.all hended).1)
    have hpart' : b.reader.taken ++ b.arrived = f.arrived.flatMap Frame.bytes ++ part := by
      rw [harrived]
      exact hpart
    have hrest := h.rest_eq hpart'
    cases hflight : f.inFlight with
    | nil =>
      rw [hflight, List.flatMap_nil] at hrest
      obtain rfl := (List.append_eq_nil_iff.mp (List.append_eq_nil_iff.mp hrest).1).1
      obtain ⟨htaken, hnil⟩ := List.append_eq_nil_iff.mp hpart
      exact ⟨b, read_nil htaken hnil, h⟩
    | cons frame frames =>
      have hended : b.ended = false := by
        by_contra htrue
        rw [hnext (eq_true_of_ne_false htrue)] at hflight
        cases hflight
      have hfits : frame.Fits := h.fits frame (by
        rw [UniStream.queue, harrived, hflight]
        exact List.mem_cons_self)
      have hshort := hlt frame (by rw [hflight]; rfl)
      have hprefix : part <+: frame.bytes := by
        rw [hflight, List.flatMap_cons, List.append_assoc] at hrest
        exact List.prefix_of_prefix_length_le ⟨_, hrest⟩ (List.prefix_append ..) hshort.le
      rw [← hpart] at hprefix hshort
      obtain ⟨reader, hpoll, htaken, hwaits⟩ := pollNext_part hfits h.waits hprefix hshort
      rw [hended]
      refine ⟨_, hstep (by rw [hended]; exact hpoll), h.fits, ?_, ⟨part, ?_, hlt⟩, hwaits, h.live, h.finished, ?_,
        h.written, fun he => ?_⟩
      · dsimp only
        rw [htaken, List.append_nil]
        exact h.bytes
      · dsimp only
        rw [htaken, List.append_nil, harrived]
        exact hpart
      · exact h.ended
      · exact h.all he

/-- A task begins to write a frame. -/
theorem spawn (h : Carries b f) {frame : Frame Bytes} (hfits : frame.Fits) (hdone : b.task.isDone)
    (hopen : b.finished = false) : Carries { b with task := frame.task } (f.write frame) where
  fits := by
    intro frame' hmem
    rw [UniStream.queue, UniStream.write, ← List.append_assoc] at hmem
    rcases List.mem_append.mp hmem with hmem | hmem
    · exact h.fits frame' hmem
    · obtain rfl := List.mem_singleton.mp hmem
      exact hfits
  bytes := by
    have hbytes := h.bytes
    rw [WriteTask.remaining_of_isDone hdone, List.append_nil] at hbytes
    dsimp only
    rw [hbytes, Frame.remaining_task, UniStream.queue, UniStream.queue, UniStream.write, ← List.append_assoc,
      @List.flatMap_append _ _ (f.arrived ++ f.inFlight), List.flatMap_singleton]
  part := by
    obtain ⟨part, hpart, hlt⟩ := h.part
    refine ⟨part, hpart, fun frame' hmem => ?_⟩
    cases hflight : f.inFlight with
    | cons first frames =>
      refine hlt frame' ?_
      rw [UniStream.write, hflight] at hmem
      rw [hflight]
      exact hmem
    | nil =>
      have hrest := h.rest_eq hpart
      rw [hflight, List.flatMap_nil] at hrest
      obtain rfl := (List.append_eq_nil_iff.mp (List.append_eq_nil_iff.mp hrest).1).1
      exact length_bytes_pos frame'
  waits := h.waits
  live := Frame.live_task hfits
  finished := h.finished
  ended := h.ended
  written := by
    intro hfinished
    rw [hopen] at hfinished
    cases hfinished
  all := by
    intro hended
    have hfinished := (h.all hended).1
    rw [hopen] at hfinished
    cases hfinished

theorem finish (h : Carries b f) (hdone : b.task.isDone) : Carries { b with finished := true } f.finish where
  fits := h.fits
  bytes := h.bytes
  part := h.part
  waits := h.waits
  live := h.live
  finished := rfl
  ended := h.ended
  written := fun _ => hdone
  all := fun hended => ⟨rfl, (h.all hended).2⟩

end Carries

/-! ### The send loop -/

section

variable {n maxBacklog : ℕ} {server server' : Server Bytes} {sent out : List (SendEvent Bytes)}
  {bs : ℕ → ByteStream} {fs : ℕ → UniStream Bytes}

/-- The streams that no task writes to have nothing left to write, and none is finished while the loop runs. -/
structure Sending (server : Server Bytes) (bs : ℕ → ByteStream) (fs : ℕ → UniStream Bytes) : Prop where
  carries : ∀ i, Carries (bs i) (fs i)
  free : ∀ i ∈ server.streams, (bs i).task.isDone
  unfinished : server.running → ∀ i, (bs i).finished = false

theorem SendInv.nodup (h : SendInv n server sent) : server.streams.Nodup := by
  have hnodup : (server.streams ++ server.set.map Prod.snd).Nodup := by
    refine h.streams.nodup_iff.mpr ?_
    split
    · exact List.nodup_range
    · exact List.nodup_nil
  exact hnodup.of_append_left

namespace Sending

/-- A stream changes in both. -/
theorem update (h : Sending server bs fs) {i : ℕ} {b : ByteStream} {f : UniStream Bytes} (hcarries : Carries b f)
    (hfree : i ∈ server.streams → b.task.isDone) (hopen : server.running → b.finished = false) :
    Sending server (Function.update bs i b) (Function.update fs i f) where
  carries j := by
    by_cases hj : j = i
    · subst hj
      rw [Function.update_self, Function.update_self]
      exact hcarries
    · rw [Function.update_of_ne hj, Function.update_of_ne hj]
      exact h.carries j
  free j hmem := by
    by_cases hj : j = i
    · subst hj
      rw [Function.update_self]
      exact hfree hmem
    · rw [Function.update_of_ne hj]
      exact h.free j hmem
  unfinished hrun j := by
    by_cases hj : j = i
    · subst hj
      rw [Function.update_self]
      exact hopen hrun
    · rw [Function.update_of_ne hj]
      exact h.unfinished hrun j

theorem spawn {stream : ℕ} {streams : List ℕ} {frame : Frame Bytes} (h : Sending server bs fs)
    (hnodup : server.streams.Nodup) (hstreams : server.streams = stream :: streams) (hrunning : server.running)
    (hfits : frame.Fits) (hstreams' : server'.streams = streams) :
    Sending server' ((SendEvent.write stream frame).applyBytes bs) ((SendEvent.write stream frame).apply fs) := by
  have hopen := h.unfinished hrunning stream
  have hless : Sending server' bs fs := by
    refine ⟨h.carries, fun i hi => h.free i ?_, fun _ => h.unfinished hrunning⟩
    rw [hstreams, ← hstreams']
    exact List.mem_cons_of_mem _ hi
  refine hless.update ((h.carries stream).spawn hfits (h.free stream ?_) hopen) (fun hmem => ?_) fun _ => hopen
  · rw [hstreams]
    exact List.mem_cons_self
  · rw [hstreams, ← hstreams'] at hnodup
    exact absurd hmem (List.nodup_cons.mp hnodup).1

theorem join {task : ℕ} (h : Sending server bs fs) (hready : server.set[task]?.all (fun e => (bs e.2).task.isDone))
    (hjoin : server.join task = some server') : Sending server' bs fs ∧ server'.running = server.running := by
  unfold Server.join at hjoin
  split at hjoin
  · cases hjoin
  · rename_i msgId stream hget
    cases hjoin
    rw [hget] at hready
    refine ⟨⟨h.carries, fun i hi => ?_, h.unfinished⟩, rfl⟩
    rcases List.mem_append.mp hi with hi | hi
    · exact h.free i hi
    · obtain rfl := List.mem_singleton.mp hi
      exact hready

theorem sendClose {error : RecvError} (h : Sending server bs fs) (hinv : SendInv n server sent)
    (hrunning : server.running) (hclose : server.sendClose error = some (server', out)) :
    Sending server' (out.foldl SendEvent.applyBytes bs) (out.foldl SendEvent.apply fs) := by
  unfold Server.sendClose at hclose
  split at hclose
  · cases hclose
  · rename_i stream streams hstreams
    cases hclose
    exact h.spawn hinv.nodup hstreams hrunning ⟨error, rfl⟩ rfl

/-- The streams are finished one after the other. -/
theorem finishAll (h : Sending server bs fs) (hrunning : server.running = false) : ∀ {streams : List ℕ},
    (∀ i ∈ streams, (bs i).task.isDone) →
      Sending server ((streams.map SendEvent.finish).foldl SendEvent.applyBytes bs)
        ((streams.map SendEvent.finish).foldl SendEvent.apply fs) := by
  intro streams
  induction streams generalizing bs fs with
  | nil => exact fun _ => h
  | cons i streams ih =>
    intro hdone
    have hi := hdone i List.mem_cons_self
    have hclosed : ¬server.running := by simp [hrunning]
    rw [List.map_cons, List.foldl_cons, List.foldl_cons]
    refine ih (h.update ((h.carries i).finish hi) (fun _ => hi) fun hrun => absurd hrun hclosed) fun j hj => ?_
    have hj' := hdone j (List.mem_cons_of_mem _ hj)
    simp only [SendEvent.applyBytes]
    by_cases hij : j = i
    · subst hij
      rw [Function.update_self]
      exact hi
    · rw [Function.update_of_ne hij]
      exact hj'

theorem select {action : ServerAction Bytes} {s : Wire} (h : Sending s.server s.streams fs)
    (hinv : SendInv n s.server sent) (hrunning : s.server.running) (hready : s.ready action)
    (hselect : s.server.select action = some (server', out)) :
    Sending server' (out.foldl SendEvent.applyBytes s.streams) (out.foldl SendEvent.apply fs) := by
  cases action with
  | message data =>
    simp only [Server.select] at hselect
    split at hselect
    · cases hselect
      exact ⟨h.carries, h.free, h.unfinished⟩
    · cases hselect
  | failed error task =>
    simp only [Server.select] at hselect
    split at hselect
    · split at hselect
      · rename_i hempty
        obtain ⟨server₁, hjoin, hclose⟩ := Option.bind_eq_some_iff.mp hselect
        have hdone : s.server.set[task]?.all (fun e => (s.streams e.2).task.isDone) := by
          simpa [Wire.ready, hempty, Wire.taskDone] using hready
        obtain ⟨hsending, hrunning₁⟩ := h.join hdone hjoin
        exact hsending.sendClose (hinv.join hjoin).1 (hrunning₁.trans hrunning) hclose
      · exact h.sendClose hinv hrunning hselect
    · cases hselect
  | ended =>
    simp only [Server.select] at hselect
    split at hselect
    · cases hselect
      have hclosed : Sending { s.server with streams := [], set := [], running := false } s.streams fs :=
        ⟨h.carries, by rintro _ ⟨⟩, by rintro ⟨⟩⟩
      refine hclosed.finishAll rfl fun i hi => ?_
      rcases List.mem_append.mp hi with hi | hi
      · obtain ⟨e, he, rfl⟩ := List.mem_map.mp hi
        exact List.all_eq_true.mp hready e he
      · exact h.free i hi
    · cases hselect
  | joined task =>
    simp only [Server.select, Option.map_eq_some_iff, Prod.mk.injEq] at hselect
    obtain ⟨server₁, hjoin, rfl, rfl⟩ := hselect
    exact (h.join hready hjoin).1

theorem loopHead (h : Sending server bs fs) (hinv : SendInv n server sent)
    (hfits : ∀ e ∈ writtenIn (server.loopHead maxBacklog).2, (Frame.message e.1 e.2).Fits) :
    Sending (server.loopHead maxBacklog).1 ((server.loopHead maxBacklog).2.foldl SendEvent.applyBytes bs)
      ((server.loopHead maxBacklog).2.foldl SendEvent.apply fs) := by
  unfold Server.loopHead at hfits ⊢
  split
  · rename_i hlt
    rw [if_pos hlt] at hfits
    split
    · rename_i data stream streams hnext hstreams
      rw [hnext, hstreams] at hfits
      have hrunning : server.running := by
        by_contra hstopped
        have hperm := hinv.streams
        rw [hstreams, if_neg hstopped] at hperm
        exact absurd hperm.eq_nil (by simp)
      have hmem : (server.msgId, data) ∈ writtenIn [SendEvent.write stream (.message server.msgId data)] := by
        simp [SendEvent.written?, Frame.entry?]
      exact h.spawn hinv.nodup hstreams hrunning (hfits _ hmem) rfl
    · exact h
  · exact h

theorem step {action : ServerAction Bytes} {s : Wire} (h : Sending s.server s.streams fs)
    (hinv : SendInv n s.server sent) (hready : s.ready action)
    (hstep : s.server.step maxBacklog action = .ok (server', out))
    (hfits : ∀ e ∈ writtenIn out, (Frame.message e.1 e.2).Fits) :
    Sending server' (out.foldl SendEvent.applyBytes s.streams) (out.foldl SendEvent.apply fs) := by
  obtain ⟨hrunning, server₁, out₁, hselect, rfl, rfl⟩ := Server.step_eq_ok.mp hstep
  rw [List.foldl_append, List.foldl_append]
  refine (h.select hinv hrunning hready hselect).loopHead (hinv.select hselect) fun e he => hfits e ?_
  rw [writtenIn_append]
  exact List.mem_append_right _ he

end Sending

/-! ### Runs -/

namespace Transport

/-- Frames arrive one after the other. -/
theorem run_arrived (maxBacklog : ℕ) {i : ℕ} : ∀ {k : ℕ} {t : Transport Bytes}, k ≤ (t.streams i).inFlight.length →
    run (Transport.step n maxBacklog) t (List.replicate k (.arrive i)) =
      .ok ({ t with streams := Function.update t.streams i (Carries.arrived (t.streams i) k) }, [])
  | 0, t, _ => by
    have hsame : Carries.arrived (t.streams i) 0 = t.streams i := by simp [Carries.arrived]
    rw [hsame, Function.update_eq_self]
    rfl
  | k + 1, t, hk => by
    cases hflight : (t.streams i).inFlight with
    | nil =>
      rw [hflight] at hk
      cases hk
    | cons frame frames =>
      rw [hflight] at hk
      set stream : UniStream Bytes :=
        { t.streams i with inFlight := frames, arrived := (t.streams i).arrived ++ [frame] } with hs
      set t₁ : Transport Bytes := { t with streams := Function.update t.streams i stream } with ht₁
      have hstep : Transport.step n maxBacklog t (.arrive i) = .ok (t₁, []) := by
        simp only [Transport.step, UniStream.arrive, hflight]
        rfl
      have hstream : t₁.streams i = stream := Function.update_self ..
      rw [List.replicate_succ]
      refine run_cons_ok.mpr ⟨t₁, [], [], hstep, ?_, rfl⟩
      rw [run_arrived maxBacklog (by rw [hstream]; exact Nat.le_of_succ_le_succ hk), hstream]
      simp [ht₁, hs, Carries.arrived, hflight]

end Transport

/-- The bytes of one state and the frames of the other one are in the same places. -/
structure Wire.Refines (s : Wire) (t : Transport Bytes) : Prop where
  server : s.server = t.server
  client : s.client = t.client
  sending : Sending s.server s.streams t.streams

/-- What a source yields: vectors that are not empty, fewer than there are ids. -/
structure Sendable (accepted : List Bytes) : Prop where
  length : accepted.length < 2 ^ 64
  fits : ∀ data ∈ accepted, data ≠ [] ∧ data.length < 2 ^ 64

namespace Sendable

theorem of_append {accepted accepted' : List Bytes} (h : Sendable (accepted ++ accepted')) : Sendable accepted where
  length := by
    have hlength := h.length
    rw [List.length_append] at hlength
    omega
  fits data hmem := h.fits data (List.mem_append_left _ hmem)

/-- The ids stay below that of the close frame. -/
theorem frame_fits (h : Sendable (acceptedIn sent)) (hinv : SendInv n server sent) :
    ∀ e ∈ writtenIn sent, (Frame.message e.1 e.2).Fits := by
  intro e he
  have hmem : e ∈ number 0 (acceptedIn sent) := by
    rw [← hinv.numbered]
    exact List.mem_append_left _ he
  obtain ⟨k, hk⟩ := List.mem_iff_getElem?.mp hmem
  rw [getElem?_number, Option.map_eq_some_iff] at hk
  obtain ⟨data, hdata, rfl⟩ := hk
  obtain ⟨hlt, -⟩ := List.getElem?_eq_some_iff.mp hdata
  have hlength := h.length
  obtain ⟨hne, hsize⟩ := h.fits data (List.mem_of_getElem? hdata)
  refine ⟨?_, hne, hsize⟩
  unfold closeId
  omega

end Sendable

namespace Wire

variable {s s' : Wire} {t : Transport Bytes} {tr tr' : List (Event Bytes)}

theorem refines_new (n : ℕ) : (new n).Refines (.new Bytes n) where
  server := rfl
  client := rfl
  sending := ⟨fun _ => .new, fun _ _ => rfl, fun _ _ => rfl⟩

/-- A stream changes. -/
theorem Refines.onStream (h : s.Refines t) {i : ℕ} {b : ByteStream} {f : UniStream Bytes} (hcarries : Carries b f)
    (hfree : (s.streams i).task.isDone → b.task.isDone) (hopen : b.finished = (s.streams i).finished) :
    Refines { s with streams := Function.update s.streams i b }
      { t with streams := Function.update t.streams i f } where
  server := h.server
  client := h.client
  sending := h.sending.update hcarries (fun hmem => hfree (h.sending.free i hmem)) fun hrun =>
    hopen.trans (h.sending.unfinished hrun i)

theorem onStream_eq_ok {i : ℕ} {r : Except WireError ByteStream} (h : s.onStream i r = .ok (s', tr)) :
    ∃ b, r = .ok b ∧ s' = { s with streams := Function.update s.streams i b } ∧ tr = [] := by
  cases r with
  | error e => cases h
  | ok b =>
    cases h
    exact ⟨b, rfl, rfl, rfl⟩

/-- **A step of the bytes** is some steps of the frames. -/
theorem Refines.step (h : s.Refines t) (hinv : t.Inv n tr) {action : WireAction}
    (hsendable : Sendable (acceptedIn (sentIn (tr ++ tr'))))
    (hstep : Wire.step n maxBacklog s action = .ok (s', tr')) :
    ∃ actions t', run (Transport.step n maxBacklog) t actions = .ok (t', tr') ∧ s'.Refines t' := by
  cases action with
  | server action =>
    simp only [Wire.step] at hstep
    split at hstep
    · rename_i hready
      split at hstep
      · cases hstep
      · rename_i server' out hserver
        cases hstep
        have hserver' := hserver
        rw [h.server] at hserver'
        have hsent := hinv.sent.step hserver'
        have hfits : ∀ e ∈ writtenIn out, (Frame.message e.1 e.2).Fits := by
          intro e he
          rw [sentIn_append, sentIn_sent] at hsendable
          refine hsendable.frame_fits hsent e ?_
          rw [writtenIn_append]
          exact List.mem_append_right _ he
        have hsending := h.sending.step (h.server ▸ hinv.sent) hready hserver hfits
        refine ⟨[.server action], t.send server' out, run_singleton.mpr ?_, rfl, h.client, hsending⟩
        simp only [Transport.step, hserver']
    · cases hstep
  | write i k =>
    obtain ⟨b, hb, rfl, rfl⟩ := onStream_eq_ok hstep
    rcases (h.sending.carries i).write k with herror | ⟨b', hb', hcarries⟩
    · rw [herror] at hb
      cases hb
    · obtain rfl := Except.ok.inj (hb'.symm.trans hb)
      refine ⟨[], t, rfl, ?_⟩
      have hrefines := h.onStream (i := i) (f := t.streams i) hcarries (fun hdone => ?_) ?_
      · rwa [Function.update_eq_self] at hrefines
      · -- a task that is done writes nothing
        unfold ByteStream.write WriteTask.write at hb
        rw [if_pos (.inl hdone)] at hb
        cases hb
      · obtain ⟨task, -, hb⟩ := bind_eq_ok.mp hb
        cases hb
        rfl
  | deliver i k =>
    obtain ⟨b, hb, rfl, rfl⟩ := onStream_eq_ok hstep
    obtain ⟨m, hm, hcarries⟩ := (h.sending.carries i).deliver hb
    refine ⟨_, _, Transport.run_arrived maxBacklog hm, h.onStream hcarries ?_ ?_⟩
    · unfold ByteStream.deliver at hb
      split at hb <;> cases hb
      exact id
    · unfold ByteStream.deliver at hb
      split at hb <;> cases hb
      rfl
  | deliverEnd i =>
    obtain ⟨b, hb, rfl, rfl⟩ := onStream_eq_ok hstep
    obtain ⟨harrive, hcarries⟩ := (h.sending.carries i).deliverEnd hb
    refine ⟨[.arrive i], _, run_singleton.mpr ?_, h.onStream hcarries ?_ ?_⟩
    · simp only [Transport.step, harrive]
    · unfold ByteStream.deliverEnd at hb
      split at hb <;> cases hb
      exact id
    · unfold ByteStream.deliverEnd at hb
      split at hb <;> cases hb
      rfl
  | pollNext =>
    simp only [Wire.step] at hstep
    split at hstep
    · cases hstep
    · rename_i client out hpoll
      cases hstep
      refine ⟨[.pollNext], { t with client }, run_singleton.mpr ?_, h.server, rfl, h.sending⟩
      rw [h.client] at hpoll
      simp only [Transport.step, hpoll]
  | pollReader =>
    simp only [Wire.step] at hstep
    split at hstep
    · cases hstep
    · rename_i polled hpolled
      split at hstep
      · rename_i hi
        obtain ⟨b, hread, hcarries⟩ := (h.sending.carries s.client.index).read
        rw [hread] at hstep
        cases hstep
        have hfields : b.task = (s.streams s.client.index).task ∧
            b.finished = (s.streams s.client.index).finished := by
          obtain ⟨r, -, hb⟩ := bind_eq_ok.mp hread
          obtain ⟨-, rfl⟩ := Prod.mk.inj (Except.ok.inj hb)
          exact ⟨rfl, rfl⟩
        have hrefines := h.onStream hcarries (fun hdone => by rw [hfields.1]; exact hdone) hfields.2
        rw [h.client] at hpolled hi hrefines ⊢
        refine ⟨[.pollReader], { t with
          client := (t.client.received n polled (t.streams t.client.index).read.1).1
          streams := Function.update t.streams t.client.index (t.streams t.client.index).read.2 },
          run_singleton.mpr ?_, h.server, rfl, hrefines.sending⟩
        simp only [Transport.step, hpolled, if_pos hi]
      · cases hstep

/-- A step fails only because it is not possible. -/
theorem Refines.idle (h : s.Refines t) {action : WireAction} {e : WireError}
    (hstep : Wire.step n maxBacklog s action = .error e) : e = .idle := by
  cases action with
  | server action =>
    simp only [Wire.step] at hstep
    split at hstep
    · split at hstep <;> cases hstep
      rfl
    · cases hstep
      rfl
  | write i k =>
    rcases (h.sending.carries i).write k with herror | ⟨b', hb', -⟩
    · simp only [Wire.step, Wire.onStream, herror] at hstep
      cases hstep
      rfl
    · simp only [Wire.step, Wire.onStream, hb'] at hstep
      cases hstep
  | deliver i k =>
    simp only [Wire.step, Wire.onStream, ByteStream.deliver] at hstep
    split at hstep <;> cases hstep
    rfl
  | deliverEnd i =>
    simp only [Wire.step, Wire.onStream, ByteStream.deliverEnd] at hstep
    split at hstep <;> cases hstep
    rfl
  | pollNext =>
    simp only [Wire.step] at hstep
    split at hstep <;> cases hstep
    rfl
  | pollReader =>
    simp only [Wire.step] at hstep
    split at hstep
    · cases hstep
      rfl
    · split at hstep
      · obtain ⟨b, hread, -⟩ := (h.sending.carries s.client.index).read
        rw [hread] at hstep
        cases hstep
      · cases hstep
        rfl

/-- **The bytes carry the messages.** However the streams take the bytes and the network delivers them, what happens
is what happens to whole frames: the client yields the first of the messages that the server has accepted, byte for
byte and in order, no write and no read fails, and when no byte is on its way no frame is. -/
theorem bytes_refine_frames {actions : List WireAction}
    (h : run (Wire.step n maxBacklog) (.new n) actions = .ok (s, tr))
    (hsendable : Sendable (acceptedIn (sentIn tr))) :
    (∃ acts t, run (Transport.step n maxBacklog) (.new Bytes n) acts = .ok (t, tr) ∧ s.server = t.server ∧
        s.client = t.client ∧ ∀ i, (s.streams i).inFlight = [] → s.taskDone i → (t.streams i).inFlight = []) ∧
      itemsIn (polledIn tr) <+: number 0 (acceptedIn (sentIn tr)) ∧
      ∀ action e, Wire.step n maxBacklog s action = .error e → e = .idle := by
  have hgood : ∀ tr out : List (Event Bytes), Sendable (acceptedIn (sentIn (tr ++ out))) →
      Sendable (acceptedIn (sentIn tr)) := by
    intro tr out hsendable
    rw [sentIn_append, acceptedIn_append] at hsendable
    exact hsendable.of_append
  obtain ⟨acts, t, hrun, hrefines⟩ := run_simulates (R := Refines)
    (P := fun tr => Sendable (acceptedIn (sentIn tr))) (refines_new n) hgood
    (fun s t tr js i s' out hrel hjs hgood hstep => hrel.step (Transport.inv_run hjs) hgood hstep) h hsendable
  have hinv := Transport.inv_run hrun
  refine ⟨⟨acts, t, hrun, hrefines.server, hrefines.client, fun i hflight hdone => ?_⟩, ?_, fun _ _ => hrefines.idle⟩
  · exact (hrefines.sending.carries i).inFlight_eq_nil hflight hdone
  · rw [hinv.read.items, ← hinv.sent.numbered]
    exact (List.take_prefix ..).trans (List.prefix_append ..)

/-- A message on one stream, in pieces: the reader has nine bytes of it when it is polled first. -/
def inPieces : List WireAction :=
  [.server (.message [1, 2, 3]), .write 0 9, .deliver 0 4, .deliver 0 5, .pollNext, .pollReader, .write 0 10,
    .deliver 0 10, .server (.joined 0), .pollNext, .pollReader]

theorem bytes_refine_frames_inPieces : ∃ s tr, run (Wire.step 1 8) (.new 1) inPieces = .ok (s, tr) ∧
    itemsIn (polledIn tr) = [(0, [1, 2, 3])] ∧
    ((∃ acts t, run (Transport.step 1 8) (.new Bytes 1) acts = .ok (t, tr) ∧ s.server = t.server ∧
        s.client = t.client ∧ ∀ i, (s.streams i).inFlight = [] → s.taskDone i → (t.streams i).inFlight = []) ∧
      itemsIn (polledIn tr) <+: number 0 (acceptedIn (sentIn tr)) ∧
      ∀ action e, Wire.step 1 8 s action = .error e → e = .idle) := by
  obtain ⟨s, tr, h, hpolled⟩ := exists_of_returns
    (p := fun _ tr => decide (itemsIn (polledIn tr) = [(0, [1, 2, 3])] ∧ acceptedIn (sentIn tr) = [[1, 2, 3]]))
    (x := run (Wire.step 1 8) (.new 1) inPieces) (by decide +kernel)
  obtain ⟨hitems, haccepted⟩ := of_decide_eq_true hpolled
  refine ⟨s, tr, h, hitems, bytes_refine_frames h ?_⟩
  rw [haccepted]
  exact ⟨by decide, by decide⟩

end Wire

end

end Richat.Quic
