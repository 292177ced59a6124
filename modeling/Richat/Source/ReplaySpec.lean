import Richat.Source.Replay

/-!
# When the history is given up

`Recorded` is what a name in the set of failed sources stands for: a source whose latest attempt at the
current cursor was rejected. It holds as long as such a source does not find its upstream again
(`Settled`); then all sources have been rejected when the gap is declared.
-/

namespace Richat

open Lib

namespace Source

/-- The latest attempt of the source was at this cursor, and was rejected. -/
def RejectedAt (src : Source) (value : Option Slot) (epoch : ℕ) : Prop :=
  src.requested = value ∧ src.epoch = epoch ∧ src.lastAttempt = some ⟨value, epoch, .rejected⟩

instance (src : Source) (value : Option Slot) (epoch : ℕ) : Decidable (src.RejectedAt value epoch) := by
  unfold RejectedAt
  infer_instance

/-- The source has a stream that its upstream accepted at this cursor. -/
def ConnectedAt (src : Source) (value : Option Slot) (epoch : ℕ) : Prop :=
  src.stream = some .accepted ∧ src.requested = value ∧ src.epoch = epoch

instance (src : Source) (value : Option Slot) (epoch : ℕ) : Decidable (src.ConnectedAt value epoch) := by
  unfold ConnectedAt
  infer_instance

/-- The stream and the error of a source come from its latest attempt. -/
structure Inv (src : Source) : Prop where
  accepted : src.stream = some .accepted →
    src.lastAttempt = some ⟨src.requested, src.epoch, .connected⟩
  rejected : src.stream = some .rejected →
    src.lastAttempt = some ⟨src.requested, src.epoch, .rejected⟩
  failure : src.phase = .failure .replayFailed →
    src.lastAttempt = some ⟨src.requested, src.epoch, .rejected⟩

theorem inv_new (config : ConfigChannelSourceGeneral) : (new config).Inv := by
  constructor <;> intro h <;> cases h

/-- Nothing of the attempt changes. -/
theorem Inv.congr {src src' : Source} (h : src.Inv) (hrequested : src'.requested = src.requested)
    (hepoch : src'.epoch = src.epoch) (hlast : src'.lastAttempt = src.lastAttempt)
    (hstream : src'.stream = src.stream ∨ src'.stream = none)
    (hphase : src'.phase ≠ .failure .replayFailed) : src'.Inv := by
  rcases hstream with hstream | hstream
  · constructor
    · rw [hstream, hrequested, hepoch, hlast]
      exact h.accepted
    · rw [hstream, hrequested, hepoch, hlast]
      exact h.rejected
    · intro heq
      exact absurd heq hphase
  · constructor
    · intro heq
      exact absurd (hstream.symm.trans heq) (by simp)
    · intro heq
      exact absurd (hstream.symm.trans heq) (by simp)
    · intro heq
      exact absurd heq hphase

/-- An attempt that failed. -/
theorem inv_failed {src : Source} {outcome : Outcome} {error : ReceiveError}
    (h : error = .replayFailed → outcome = .rejected) : (src.failed outcome error).Inv := by
  constructor
  · intro heq
    cases heq
  · intro heq
    cases heq
  · intro heq
    cases heq
    rw [h rfl]
    rfl

end Source

namespace GlobalReplayFromSlot

variable {replay replay' : GlobalReplayFromSlot} {name : SourceName} {requested : Option Slot} {epoch : ℕ}

/-- The failures are forgotten, or the cursor stays. -/
theorem store_cases (replay : GlobalReplayFromSlot) (slot : Slot) :
    (replay.store slot).sourcesTotal = replay.sourcesTotal ∧ (replay.store slot).epoch = replay.epoch ∧
      ((replay.store slot).sourcesReplayFailed = ∅ ∨
        ((replay.store slot).value = replay.value ∧
          (replay.store slot).sourcesReplayFailed = replay.sourcesReplayFailed)) := by
  refine ⟨rfl, rfl, ?_⟩
  unfold store
  split
  · exact Or.inl rfl
  · rename_i hnot
    right
    cases hvalue : replay.value with
    | none => simp [hvalue] at hnot
    | some value =>
      have hle : slot ≤ value := by simpa [hvalue] using hnot
      simp [hle]

/-- What a rejection does: nothing when it is stale, else it is recorded, and the last one of all
sources gives up the history. -/
theorem fallbackToLive_cases {live : Bool}
    (h : replay.fallbackToLive name requested epoch = (replay', live)) :
    (live = false ∧ replay' = replay) ∨
    (replay.value = requested ∧ replay.epoch = epoch ∧
      ((live = false ∧
          replay' = { replay with sourcesReplayFailed := insert name replay.sourcesReplayFailed }) ∨
        (live = true ∧ replay.sourcesTotal ≤ (insert name replay.sourcesReplayFailed).card ∧
          replay' = { replay with
            value := none
            epoch := replay.epoch + 1
            sourcesReplayFailed := ∅ }))) := by
  unfold fallbackToLive at h
  split at h
  · cases h
    exact Or.inl ⟨rfl, rfl⟩
  · rename_i hguard
    rw [not_or, not_or, not_not, not_not] at hguard
    refine Or.inr ⟨hguard.2.1, hguard.2.2, ?_⟩
    dsimp only at h
    split at h
    · cases h
      exact Or.inl ⟨rfl, rfl⟩
    · rename_i hcard
      cases h
      exact Or.inr ⟨rfl, not_lt.mp hcard, rfl⟩

end GlobalReplayFromSlot

namespace Sources

/-- Every source was rejected at the current cursor, in its latest attempt, and none has a stream that
was accepted there. -/
def Justified (s : Sources) : Prop :=
  ∀ src ∈ s.streams,
    src.lastAttempt = some ⟨s.replay.value, s.replay.epoch, .rejected⟩ ∧
      ¬ src.ConnectedAt s.replay.value s.replay.epoch

/-- A source whose rejection is recorded at the current cursor is rejected again, when it tries again. -/
def Settled (s : Sources) (a : Action) : Prop :=
  match a with
  | .subscribed i result =>
    ∀ src : Source, s.streams[i]? = some src → src.name ∈ s.replay.sourcesReplayFailed →
      src.requested = s.replay.value → src.epoch = s.replay.epoch →
      result = .replaySlotNotAvailable ∨ result = .stream .rejected
  | _ => True

/-- The names of the failed sources stand for sources that were rejected. -/
def Recorded (streams : List Source) (replay : GlobalReplayFromSlot) : Prop :=
  ∀ name ∈ replay.sourcesReplayFailed, ∃ (i : ℕ) (src : Source), streams[i]? = some src ∧ src.name = name ∧
    src.RejectedAt replay.value replay.epoch

structure Inv (s : Sources) : Prop where
  sources : ∀ src ∈ s.streams, src.Inv
  total : s.replay.sourcesTotal = s.streams.length
  recorded : Recorded s.streams s.replay

instance (s : Sources) : Decidable s.Justified := by
  unfold Justified
  infer_instance

variable {s s' s₀ : Sources} {a : Action} {acts : List Action} {tr out : List SourceEvent} {i : ℕ}
  {src src' : Source} {streams : List Source} {replay replay' : GlobalReplayFromSlot}

theorem inv_new (value : Option Slot) (sources : List ConfigChannelSourceGeneral) :
    (new value sources).Inv where
  sources := by
    intro src hsrc
    obtain ⟨config, -, rfl⟩ := List.mem_map.mp hsrc
    exact Source.inv_new config
  total := (List.length_map _).symm
  recorded := by
    intro name hname
    exact absurd hname (Finset.notMem_empty name)

theorem recorded_of_empty (h : replay.sourcesReplayFailed = ∅) : Recorded streams replay := by
  intro name hname
  rw [h] at hname
  exact absurd hname (Finset.notMem_empty name)

/-- One source changes: it is still rejected, if it is one of those that were. -/
theorem Recorded.set (h : Recorded streams replay) (hsrc : streams[i]? = some src)
    (hname : src'.name = src.name)
    (hkept : src.name ∈ replay.sourcesReplayFailed → src.RejectedAt replay.value replay.epoch →
      src'.RejectedAt replay.value replay.epoch) :
    Recorded (streams.set i src') replay := by
  intro name hmem
  obtain ⟨j, other, hother, rfl, hrejected⟩ := h name hmem
  have hlt : i < streams.length := (List.getElem?_eq_some_iff.mp hsrc).1
  by_cases heq : i = j
  · subst heq
    obtain rfl : src = other := Option.some.inj (hsrc.symm.trans hother)
    exact ⟨i, src', List.getElem?_set_self hlt, hname, hkept hmem hrejected⟩
  · exact ⟨j, other, (List.getElem?_set_ne heq).trans hother, rfl, hrejected⟩

theorem sources_set (h : ∀ src ∈ streams, src.Inv) (hsrc : src'.Inv) :
    ∀ src ∈ streams.set i src', src.Inv := by
  intro src hmem
  rcases List.mem_or_eq_of_mem_set hmem with hold | rfl
  · exact h src hold
  · exact hsrc

theorem Inv.setSource (h : s.Inv) (hsrc : s.streams[i]? = some src) (hinv : src'.Inv)
    (hname : src'.name = src.name)
    (hkept : src.name ∈ s.replay.sourcesReplayFailed → src.RejectedAt s.replay.value s.replay.epoch →
      src'.RejectedAt s.replay.value s.replay.epoch) : (s.setSource i src').Inv where
  sources := sources_set h.sources hinv
  total := by
    rw [Sources.setSource, List.length_set]
    exact h.total
  recorded := h.recorded.set hsrc hname hkept

/-- Sources are added and removed: no rejection counts anymore. -/
theorem inv_setStreams (h : ∀ src ∈ streams, src.Inv) : (s.setStreams streams).Inv where
  sources := h
  total := rfl
  recorded := recorded_of_empty rfl

end Sources

/-! ### The steps of one source -/

namespace Source

variable {src src' : Source} {replay replay' : GlobalReplayFromSlot} {events : List SourceEvent}

/-- What a source does alone: only a failed replay changes the cursor. -/
theorem poll_cases (h : src.poll replay = some (src', replay', events)) (hinv : src.Inv) :
    src'.Inv ∧ src'.name = src.name ∧
      (src.RejectedAt replay.value replay.epoch → src'.RejectedAt replay.value replay.epoch) ∧
      ((replay' = replay ∧ ∀ slot, events ≠ [.replayGap slot]) ∨
        ∃ fromSlot live, src.phase = .failure .replayFailed ∧ src.requested = some fromSlot ∧
          replay.fallbackToLive src.name src.requested src.epoch = (replay', live) ∧
          src' = { src with phase := .loop } ∧
          events = if live then [.replayGap fromSlot] else []) := by
  unfold poll at h
  split at h
  · cases h
    refine ⟨hinv.congr rfl rfl rfl ?_ (by simp), rfl, fun hrej => hrej, Or.inl ⟨rfl, by simp⟩⟩
    dsimp only
    split
    · exact Or.inr rfl
    · exact Or.inl rfl
  · split at h
    · cases h
      exact ⟨hinv.congr rfl rfl rfl (Or.inl rfl) (by simp), rfl, fun hrej => hrej,
        Or.inl ⟨rfl, by simp⟩⟩
    · rename_i hnone
      cases h
      have hstream : src.stream = none := by simpa using hnone
      refine ⟨?_, rfl, fun hrej => ⟨rfl, rfl, hrej.2.2⟩, Or.inl ⟨rfl, by simp⟩⟩
      constructor
      · intro heq
        exact absurd (hstream.symm.trans heq) (by simp)
      · intro heq
        exact absurd (hstream.symm.trans heq) (by simp)
      · intro heq
        cases heq
  · rename_i error hphase
    have hmove : ∀ phase, phase ≠ .failure .replayFailed → ({ src with phase } : Source).Inv :=
      fun _ hne => hinv.congr rfl rfl rfl (Or.inl rfl) hne
    split at h
    · cases h
      exact ⟨hmove _ (by simp), rfl, fun hrej => hrej, Or.inl ⟨rfl, by simp⟩⟩
    · split at h
      · rename_i fromSlot hrequested _
        split at h
        · rename_i hfallback
          cases h
          exact ⟨hmove _ (by simp), rfl, fun hrej => hrej,
            Or.inr ⟨fromSlot, true, hphase, hrequested, hfallback, rfl, rfl⟩⟩
        · rename_i hfallback
          cases h
          exact ⟨hmove _ (by simp), rfl, fun hrej => hrej,
            Or.inr ⟨fromSlot, false, hphase, hrequested, hfallback, rfl, rfl⟩⟩
      · split at h
        · cases h
          exact ⟨hmove _ (by simp), rfl, fun hrej => hrej, Or.inl ⟨rfl, by simp⟩⟩
        · cases h
          exact ⟨hmove _ (by simp), rfl, fun hrej => hrej, Or.inl ⟨rfl, by simp⟩⟩
  all_goals cases h

/-- What is received: the stream of a source that was rejected only holds the rejection. -/
theorem received_cases {item : SourceReceived} (h : src.received replay item = some (src', events))
    (hinv : src.Inv) :
    src'.Inv ∧ src'.name = src.name ∧
      (src.RejectedAt replay.value replay.epoch → src'.RejectedAt replay.value replay.epoch) ∧
      ∀ slot, events ≠ [.replayGap slot] := by
  unfold received at h
  split at h
  · rename_i upstream hphase hstream
    split at h
    · cases h
    · rename_i hitem
      split at h
      · rename_i hepoch
        cases h
        exact ⟨hinv.congr rfl rfl rfl (Or.inr rfl) (by simp), rfl,
          fun hrej => absurd hrej.2.1 hepoch, by simp⟩
      · have hrejected : ∀ {P : Prop}, src.RejectedAt replay.value replay.epoch →
            item ≠ .replayFailed → P := by
          rintro P ⟨hrequested, hepoch, hlast⟩ hne
          cases upstream with
          | accepted =>
            have hconnected := hinv.accepted hstream
            rw [hlast] at hconnected
            simp at hconnected
          | rejected => exact absurd ⟨rfl, hne⟩ hitem
        split at h
        · cases h
          exact ⟨hinv.congr rfl rfl rfl (Or.inl rfl) (by simp), rfl, fun hrej => hrej, by simp⟩
        · cases h
          refine ⟨inv_failed (by simp), rfl, ?_, by simp⟩
          rintro ⟨hrequested, hepoch, -⟩
          refine ⟨hrequested, hepoch, ?_⟩
          rw [← hrequested, ← hepoch]
          rfl
        · cases h
          exact ⟨inv_failed (by simp), rfl, fun hrej => hrejected hrej (by simp), by simp⟩
        · cases h
          exact ⟨inv_failed (by simp), rfl, fun hrej => hrejected hrej (by simp), by simp⟩
  · cases h

/-- A subscribe that is rejected again leaves a source rejected. -/
theorem subscribed_cases {result : SubscribeResult} (h : src.subscribed result = some src') :
    src'.Inv ∧ src'.name = src.name ∧ ∀ value epoch,
      (result = .replaySlotNotAvailable ∨ result = .stream .rejected) →
      src.RejectedAt value epoch → src'.RejectedAt value epoch := by
  have hagain : ∀ value epoch, src.RejectedAt value epoch →
      some (⟨src.requested, src.epoch, .rejected⟩ : Attempt) = some ⟨value, epoch, .rejected⟩ := by
    rintro value epoch ⟨rfl, rfl, -⟩
    rfl
  unfold subscribed at h
  split at h
  · cases h
  · split at h
    · cases h
      refine ⟨?_, rfl, fun value epoch hresult => by simp at hresult⟩
      constructor
      · intro _
        rfl
      · intro heq
        cases heq
      · intro heq
        cases heq
    · cases h
      refine ⟨?_, rfl, fun value epoch _ hrej => ⟨hrej.1, hrej.2.1, hagain value epoch hrej⟩⟩
      constructor
      · intro heq
        cases heq
      · intro _
        rfl
      · intro heq
        cases heq
    · cases h
      exact ⟨inv_failed (by simp), rfl,
        fun value epoch _ hrej => ⟨hrej.1, hrej.2.1, hagain value epoch hrej⟩⟩
    · cases h
      exact ⟨inv_failed (by simp), rfl, fun value epoch hresult => by simp at hresult⟩

end Source

/-! ### Runs -/

namespace Sources

variable {s s' s₀ : Sources} {a : Action} {acts : List Action} {tr out : List SourceEvent} {i : ℕ}
  {src src' : Source} {fromSlot : Slot}

/-- The last rejection: there are as many failed names as sources, so that every source was
rejected. -/
theorem Inv.justified (h : s.Inv) (hsrc : s.streams[i]? = some src)
    (hrejected : src.RejectedAt s.replay.value s.replay.epoch)
    (hcard : s.replay.sourcesTotal ≤ (insert src.name s.replay.sourcesReplayFailed).card) :
    s.Justified := by
  let rejected := s.streams.filter fun other =>
    decide (other.RejectedAt s.replay.value s.replay.epoch)
  have hsub : insert src.name s.replay.sourcesReplayFailed ⊆ (rejected.map (·.name)).toFinset := by
    intro name hname
    rw [List.mem_toFinset, List.mem_map]
    rcases Finset.mem_insert.mp hname with rfl | hmem
    · exact ⟨src, List.mem_filter.mpr ⟨List.mem_of_getElem? hsrc, decide_eq_true hrejected⟩, rfl⟩
    · obtain ⟨j, other, hother, rfl, hother'⟩ := h.recorded name hmem
      exact ⟨other, List.mem_filter.mpr ⟨List.mem_of_getElem? hother, decide_eq_true hother'⟩, rfl⟩
  have hlen : s.streams.length ≤ rejected.length := by
    calc s.streams.length = s.replay.sourcesTotal := h.total.symm
      _ ≤ (insert src.name s.replay.sourcesReplayFailed).card := hcard
      _ ≤ (rejected.map (·.name)).toFinset.card := Finset.card_le_card hsub
      _ ≤ (rejected.map (·.name)).length := List.toFinset_card_le _
      _ = rejected.length := List.length_map _
  have hall := List.length_filter_eq_length_iff.mp (le_antisymm (List.length_filter_le _ _) hlen)
  intro other hother
  obtain ⟨-, -, hlast⟩ := of_decide_eq_true (hall other hother)
  refine ⟨hlast, ?_⟩
  rintro ⟨hstream, -, -⟩
  have hconnected := (h.sources other hother).accepted hstream
  rw [hlast] at hconnected
  simp at hconnected

/-- The invariant is kept, and a gap that is declared is justified. -/
theorem Inv.step (h : s.Inv) (hok : s.Settled a) (hstep : step s a = .ok (s', out)) :
    s'.Inv ∧ ∀ fromSlot, out = [.replayGap fromSlot] →
      s.replay.value = some fromSlot ∧ s.Justified := by
  unfold Sources.step at hstep
  split at hstep
  · rename_i slot
    cases hstep
    refine ⟨⟨h.sources, ?_, ?_⟩, by simp⟩
    · exact h.total
    · obtain ⟨-, hepoch, hempty | ⟨hvalue, hfailed⟩⟩ := s.replay.store_cases slot
      · exact recorded_of_empty hempty
      · intro name hname
        rw [hfailed] at hname
        rw [hvalue, hepoch]
        exact h.recorded name hname
  · rename_i i
    split at hstep
    · cases hstep
    · rename_i src hsrc
      split at hstep
      · cases hstep
      · rename_i src' replay' events hpoll
        cases hstep
        have hinv := h.sources src (List.mem_of_getElem? hsrc)
        obtain ⟨hinv', hname, hkept, ⟨rfl, hnogap⟩ | ⟨slot, live, hphase, hrequested, hfallback, rfl, rfl⟩⟩ :=
          Source.poll_cases hpoll hinv
        · exact ⟨h.setSource hsrc hinv' hname fun _ => hkept,
            fun fromSlot heq => absurd heq (hnogap fromSlot)⟩
        · have hlast := hinv.failure hphase
          rcases GlobalReplayFromSlot.fallbackToLive_cases hfallback with
            ⟨rfl, rfl⟩ | ⟨hvalue, hepoch, ⟨rfl, rfl⟩ | ⟨rfl, hcard, rfl⟩⟩
          · exact ⟨h.setSource hsrc hinv' rfl fun _ hrej => hrej, by simp⟩
          · have hrejected : ({ src with phase := .loop } : Source).RejectedAt s.replay.value
                s.replay.epoch := by
              refine ⟨hvalue.symm, hepoch.symm, ?_⟩
              rw [hvalue, hepoch]
              exact hlast
            refine ⟨⟨sources_set h.sources hinv', ?_, ?_⟩, by simp⟩
            · rw [Sources.setSource, List.length_set]
              exact h.total
            · intro name hmem
              rcases Finset.mem_insert.mp hmem with rfl | hmem
              · exact ⟨i, _, List.getElem?_set_self (List.getElem?_eq_some_iff.mp hsrc).1, rfl, hrejected⟩
              · have hset : Recorded (s.streams.set i { src with phase := .loop }) s.replay :=
                  h.recorded.set hsrc rfl fun _ _ => hrejected
                exact hset name hmem
          · refine ⟨⟨sources_set h.sources hinv', ?_, recorded_of_empty rfl⟩, fun fromSlot hout => ?_⟩
            · rw [Sources.setSource, List.length_set]
              exact h.total
            · have hslot : slot = fromSlot := by simpa using hout
              refine ⟨hvalue.trans (hslot ▸ hrequested), ?_⟩
              refine h.justified hsrc ⟨hvalue.symm, hepoch.symm, ?_⟩ hcard
              rw [hvalue, hepoch]
              exact hlast
  · rename_i i item
    split at hstep
    · cases hstep
    · rename_i src hsrc
      split at hstep
      · cases hstep
      · rename_i src' events hreceived
        cases hstep
        obtain ⟨hinv', hname, hkept, hnogap⟩ :=
          Source.received_cases hreceived (h.sources src (List.mem_of_getElem? hsrc))
        exact ⟨h.setSource hsrc hinv' hname fun _ => hkept,
          fun fromSlot heq => absurd heq (hnogap fromSlot)⟩
  · rename_i i result
    split at hstep
    · cases hstep
    · rename_i src hsrc
      split at hstep
      · cases hstep
      · rename_i src' hsubscribed
        cases hstep
        obtain ⟨hinv', hname, hkept⟩ := Source.subscribed_cases hsubscribed
        refine ⟨h.setSource hsrc hinv' hname fun hmem hrej => ?_, by simp⟩
        exact hkept _ _ (hok src hsrc hmem hrej.1 hrej.2.1) hrej
  · rename_i i
    split at hstep
    · cases hstep
    · split at hstep
      · cases hstep
        exact ⟨inv_setStreams fun src hsrc => h.sources src (List.mem_of_mem_eraseIdx hsrc), by simp⟩
      · cases hstep
  · cases hstep
    refine ⟨inv_setStreams fun src hsrc => ?_, by simp⟩
    rcases List.mem_append.mp hsrc with hold | hnew
    · exact h.sources src (List.mem_filter.mp hold).1
    · obtain ⟨config, -, rfl⟩ := List.mem_map.mp hnew
      exact Source.inv_new config

/-- **A gap is justified**: in every run in which a source that was rejected does not find its upstream
again before the cursor moves, all sources were rejected when the history is given up. -/
theorem replay_gap_justified {value : Option Slot} {sources : List ConfigChannelSourceGeneral}
    (hall : AllSteps step Settled (new value sources) acts)
    (hrun : run step (new value sources) acts = .ok (s, tr))
    (hstep : step s a = .ok (s', [.replayGap fromSlot])) :
    s.replay.value = some fromSlot ∧ s.Justified := by
  have hinv : s.Inv := by
    refine run_induction_of (P := fun _ s _ => s.Inv) (inv_new value sources) ?_ hall hrun
    intro _ s _ a s' out _ h hok hstep
    exact (h.step hok hstep).1
  refine (hinv.step ?_ hstep).2 fromSlot rfl
  -- a subscribe that returns declares nothing
  cases a with
  | subscribed i result =>
    unfold Sources.step at hstep
    dsimp only at hstep
    split at hstep
    · cases hstep
    · split at hstep <;> cases hstep
  | _ => trivial

/-! ### Two sources -/

def twoSources : List ConfigChannelSourceGeneral := [⟨"a", true, false⟩, ⟨"b", true, false⟩]

/-- A source subscribes at the cursor, with this result. -/
def subscribes (i : ℕ) (result : SubscribeResult) : List Action :=
  [.poll i, .poll i, .subscribed i result]

/-- Both are rejected. -/
def bothRejected : List Action :=
  subscribes 0 .replaySlotNotAvailable ++ .poll 0 :: subscribes 1 .replaySlotNotAvailable

/-- The first one is rejected, tries again and receives, then the other one is rejected. -/
def foundAgain : List Action :=
  subscribes 0 .replaySlotNotAvailable ++ .poll 0 :: subscribes 0 (.stream .accepted) ++
    [.poll 0, .poll 0, .received 0 .message] ++ subscribes 1 .replaySlotNotAvailable

/-- No subscribe of these actions finds an upstream. -/
def Action.rejects : Action → Bool
  | .subscribed _ result => result = .replaySlotNotAvailable
  | _ => true

theorem settled_of_rejects {s : Sources} {a : Action} (h : a.rejects = true) : s.Settled a := by
  cases a with
  | subscribed i result =>
    intro src _ _ _ _
    exact Or.inl (of_decide_eq_true h)
  | _ => trivial

/-- The next step of the second source declares the gap. -/
def declares (s : Sources) : Bool := returns (fun _ out => out = [.replayGap 10]) (step s (.poll 1))

theorem exists_of_declares {s : Sources} (h : s.declares = true) :
    ∃ s', step s (.poll 1) = .ok (s', [.replayGap 10]) := by
  obtain ⟨s', out, hstep, hout⟩ := exists_of_returns h
  obtain rfl := of_decide_eq_true hout
  exact ⟨s', hstep⟩

theorem replay_gap_justified_two :
    ∃ s tr s', run step (new (some 10) twoSources) bothRejected = .ok (s, tr) ∧
      step s (.poll 1) = .ok (s', [.replayGap 10]) ∧ s.Justified := by
  have hreturns : returns (fun s _ => s.declares) (run step (new (some 10) twoSources) bothRejected) =
      true := by decide +kernel
  obtain ⟨s, tr, hrun, hdeclares⟩ := exists_of_returns hreturns
  obtain ⟨s', hstep⟩ := exists_of_declares hdeclares
  have hall : AllSteps step Settled (new (some 10) twoSources) bothRejected :=
    allSteps_of_checkSteps (p := fun _ a => a.rejects) (fun _ _ => settled_of_rejects)
      (by decide +kernel)
  exact ⟨s, tr, s', hrun, hstep, (replay_gap_justified hall hrun hstep).2⟩

/-- The first source receives the history when the gap is declared. -/
theorem replay_gap_unjustified :
    ∃ s tr s', run step (new (some 10) twoSources) foundAgain = .ok (s, tr) ∧
      step s (.poll 1) = .ok (s', [.replayGap 10]) ∧ ¬ s.Justified := by
  have hreturns : returns (fun s _ => s.declares && !decide s.Justified)
      (run step (new (some 10) twoSources) foundAgain) = true := by decide +kernel
  obtain ⟨s, tr, hrun, hcheck⟩ := exists_of_returns hreturns
  obtain ⟨hdeclares, hnot⟩ := Bool.and_eq_true_iff.mp hcheck
  obtain ⟨s', hstep⟩ := exists_of_declares hdeclares
  exact ⟨s, tr, s', hrun, hstep, by simpa using hnot⟩

end Sources

end Richat
