import Richat.Source.Merge
import Richat.Source.ReplaySpec

/-!
# A gap separates two histories

A source remembers the epoch of the cursor when it opened its connection, and looks at the epoch again when
it has taken an item. So what comes out was received on a connection that was opened in the epoch in which
it comes out, and every gap starts an epoch.
-/

namespace Richat

open Lib

/-! ### The trace -/

namespace MergeEvent

variable {μ : Type}

def isGap : MergeEvent μ → Bool
  | replayGap _ => true
  | _ => false

def openedConnection : MergeEvent μ → Option ℕ
  | opens connection => some connection
  | _ => none

/-- The gaps of a trace, which are its epochs. -/
def gaps (tr : List (MergeEvent μ)) : ℕ := tr.countP isGap

@[simp] theorem gaps_append (tr out : List (MergeEvent μ)) : gaps (tr ++ out) = gaps tr + gaps out :=
  List.countP_append

@[simp] theorem gaps_nil : gaps ([] : List (MergeEvent μ)) = 0 := rfl
@[simp] theorem gaps_replayGap (fromSlot : Slot) (tr : List (MergeEvent μ)) :
    gaps (replayGap fromSlot :: tr) = gaps tr + 1 :=
  List.countP_cons_of_pos rfl

/-- The connections in the order in which they are opened. -/
def openedIn (tr : List (MergeEvent μ)) : List ℕ := tr.filterMap openedConnection

@[simp] theorem openedIn_append (tr out : List (MergeEvent μ)) :
    openedIn (tr ++ out) = openedIn tr ++ openedIn out := List.filterMap_append

/-- A message comes out in the epoch in which its connection was opened, and was received on it. -/
def Fresh (tr : List (MergeEvent μ)) : MergeEvent μ → Prop
  | message i m => ∃ before after, tr = before ++ opens i :: after ∧ gaps before = gaps tr ∧
      upstream i m ∈ after
  | _ => True

end MergeEvent

/-! ### The steps of a source -/

theorem GlobalReplayFromSlot.fallbackToLive_epoch {replay replay' : GlobalReplayFromSlot} {name : SourceName}
    {requested : Option Slot} {epoch : ℕ} {live : Bool}
    (h : replay.fallbackToLive name requested epoch = (replay', live)) :
    replay'.epoch = if live then replay.epoch + 1 else replay.epoch := by
  rcases fallbackToLive_cases h with ⟨rfl, rfl⟩ | ⟨-, -, ⟨rfl, rfl⟩ | ⟨rfl, -, rfl⟩⟩ <;> rfl

namespace Source

variable {src src' : Source} {replay replay' : GlobalReplayFromSlot} {sourceEvents : List SourceEvent}

/-- Only a new subscribe changes the epoch of a source, and only a gap the one of the cursor. -/
theorem poll_epoch (h : src.poll replay = some (src', replay', sourceEvents)) :
    (src'.phase = .subscribing ∧ src'.epoch = replay.epoch ∧ replay' = replay ∧ sourceEvents = []) ∨
    (src'.phase ≠ .subscribing ∧ src'.epoch = src.epoch ∧ (src'.stream.isSome → src.stream.isSome) ∧
      ((replay'.epoch = replay.epoch ∧ (sourceEvents = [] ∨ sourceEvents = [.error])) ∨
        (replay'.epoch = replay.epoch + 1 ∧ ∃ fromSlot, sourceEvents = [.replayGap fromSlot]))) := by
  unfold poll at h
  split at h
  · cases h
    refine .inr ⟨by simp, rfl, ?_, .inl ⟨rfl, .inl rfl⟩⟩
    dsimp only
    split <;> simp
  · split at h
    · cases h
      exact .inr ⟨by simp, rfl, id, .inl ⟨rfl, .inl rfl⟩⟩
    · cases h
      exact .inl ⟨rfl, rfl, rfl, rfl⟩
  · split at h
    · cases h
      exact .inr ⟨by simp, rfl, id, .inl ⟨rfl, .inl rfl⟩⟩
    · split at h
      · split at h <;> rename_i hfallback <;> cases h
        · exact .inr ⟨by simp, rfl, id, .inr ⟨GlobalReplayFromSlot.fallbackToLive_epoch hfallback, _, rfl⟩⟩
        · exact .inr ⟨by simp, rfl, id,
            .inl ⟨GlobalReplayFromSlot.fallbackToLive_epoch hfallback, .inl rfl⟩⟩
      · split at h <;> cases h
        · exact .inr ⟨by simp, rfl, id, .inl ⟨rfl, .inl rfl⟩⟩
        · exact .inr ⟨by simp, rfl, id, .inl ⟨rfl, .inr rfl⟩⟩
  all_goals cases h

/-- A message is handed on if no other source has started an epoch. -/
theorem received_epoch {item : SourceReceived} (h : src.received replay item = some (src', sourceEvents)) :
    src'.phase ≠ .subscribing ∧ src'.epoch = src.epoch ∧ src.stream.isSome ∧
      (sourceEvents = [] ∨ (sourceEvents = [.message] ∧ src.epoch = replay.epoch)) := by
  unfold received at h
  split at h
  · rename_i hstream
    rw [hstream]
    split at h
    · cases h
    · split at h
      · cases h
        exact ⟨by simp, rfl, rfl, .inl rfl⟩
      · rename_i hepoch
        split at h <;> cases h
        · exact ⟨by simp, rfl, rfl, .inr ⟨rfl, not_not.mp hepoch⟩⟩
        all_goals exact ⟨by simp [failed], rfl, rfl, .inl rfl⟩
  · cases h

theorem subscribed_epoch {result : SubscribeResult} (h : src.subscribed result = some src') :
    src.phase = .subscribing ∧ src'.epoch = src.epoch ∧ src'.phase ≠ .subscribing := by
  unfold subscribed at h
  split at h
  · cases h
  · rename_i hphase
    refine ⟨not_not.mp hphase, ?_⟩
    split at h <;> cases h
    all_goals exact ⟨rfl, by simp [failed]⟩

end Source

/-! ### The connections of the sources -/

namespace Feed

variable {μ : Type}

/-- The source has a connection, or is opening it. -/
def Connected (feed : Feed) : Prop := feed.source.phase = .subscribing ∨ feed.source.stream.isSome

/-- The connection was opened in the epoch of the source, and what is in its channel was received on it. -/
def Opened (connections : ℕ → Merge.Connection μ) (tr : List (MergeEvent μ)) (feed : Feed) : Prop :=
  ∃ before after, tr = before ++ .opens feed.connection :: after ∧
    MergeEvent.gaps before = feed.source.epoch ∧
    ∀ m, .message m ∈ (connections feed.connection).queue → .upstream feed.connection m ∈ after

theorem Opened.append {connections connections' : ℕ → Merge.Connection μ} {tr out : List (MergeEvent μ)}
    {feed feed' : Feed} (h : feed.Opened connections tr) (hconnection : feed'.connection = feed.connection)
    (hepoch : feed'.source.epoch = feed.source.epoch)
    (hqueue : ∀ m, .message m ∈ (connections' feed.connection).queue →
      .message m ∈ (connections feed.connection).queue ∨ .upstream feed.connection m ∈ out) :
    feed'.Opened connections' (tr ++ out) := by
  obtain ⟨before, after, rfl, hgaps, hreceived⟩ := h
  refine ⟨before, after ++ out, by simp [hconnection], by rw [hepoch, hgaps], fun m hm => ?_⟩
  rw [hconnection] at hm ⊢
  rcases hqueue m hm with hm | hm
  · exact List.mem_append_left _ (hreceived m hm)
  · exact List.mem_append_right _ hm

end Feed

namespace Merge.Subscriptions

open MergeEvent

variable {μ : Type} {s s' : Merge.Subscriptions μ} {tr out : List (MergeEvent μ)}

/-- The epochs of the cursor are the gaps of the trace, and every message was fresh when it came out. -/
structure Inv (s : Merge.Subscriptions μ) (tr : List (MergeEvent μ)) : Prop where
  epoch : s.replay.epoch = gaps tr
  opened : openedIn tr = List.range s.nextConnection
  feeds : ∀ feed ∈ s.feeds, feed.Connected → feed.Opened s.connections tr
  fresh : AtEach Fresh tr

theorem inv_new (value : Option Slot) (sources : List ConfigChannelSourceGeneral) :
    (new value sources : Merge.Subscriptions μ).Inv [] where
  epoch := rfl
  opened := rfl
  feeds := by
    intro feed hfeed hconnected
    obtain ⟨config, -, rfl⟩ := List.mem_map.mp hfeed
    simp [Feed.Connected, Feed.new, Source.new] at hconnected
  fresh := atEach_nil

/-- Nothing comes out, and the connections stay. -/
theorem Inv.of_feeds (h : s.Inv tr) (hepoch : s'.replay.epoch = s.replay.epoch)
    (hnext : s'.nextConnection = s.nextConnection) (hconnections : s'.connections = s.connections)
    (hfeeds : ∀ feed ∈ s'.feeds, feed.Connected → feed ∈ s.feeds) : s'.Inv (tr ++ []) where
  epoch := by simp [hepoch, h.epoch]
  opened := by simp [hnext, h.opened]
  feeds := by
    intro feed hfeed hconnected
    have hopened := h.feeds feed (hfeeds feed hfeed hconnected) hconnected
    rw [hconnections]
    exact hopened.append rfl rfl fun m hm => .inl hm
  fresh := by rw [List.append_nil]; exact h.fresh

/-- One source has changed: what it has from before is its connection, in the same epoch. -/
theorem feeds_set {feed : Feed} (i : ℕ) (feed' : Feed) (connections' : ℕ → Merge.Connection μ)
    (out : List (MergeEvent μ)) (h : ∀ feed ∈ s.feeds, feed.Connected → feed.Opened s.connections tr) (hfeed : feed ∈ s.feeds)
    (hconnected : feed'.Connected → feed.Connected) (hconnection : feed'.connection = feed.connection)
    (hepoch : feed'.source.epoch = feed.source.epoch)
    (hqueue : ∀ i m, .message m ∈ (connections' i).queue →
      .message m ∈ (s.connections i).queue ∨ .upstream i m ∈ out) :
    ∀ feed ∈ s.feeds.set i feed', feed.Connected → feed.Opened connections' (tr ++ out) := by
  intro other hother hcon
  rcases List.mem_or_eq_of_mem_set hother with hold | rfl
  · exact (h other hold hcon).append rfl rfl (hqueue _)
  · exact (h feed hfeed (hconnected hcon)).append hconnection hepoch (hqueue _)

theorem mem_feeds_of_polled {feed : Feed} (h : s.polled = some feed) : feed ∈ s.feeds := by
  unfold polled at h
  split at h
  · exact List.mem_of_getElem? h
  · cases h

/-- The queue of a connection that is not touched, or is shorter than before. -/
theorem queue_update (i : ℕ) (connection : Merge.Connection μ)
    (h : ∀ m, .message m ∈ connection.queue → .message m ∈ (s.connections i).queue ∨ .upstream i m ∈ out) :
    ∀ j m, .message m ∈ ((s.setConnection i connection).connections j).queue →
      .message m ∈ (s.connections j).queue ∨ .upstream j m ∈ out := by
  intro j m hm
  by_cases heq : j = i
  · subst heq
    exact h m (by simpa [setConnection] using hm)
  · exact .inl (by simpa [setConnection, Function.update_of_ne heq] using hm)

theorem fresh_snoc {e : MergeEvent μ} (h : AtEach Fresh tr) (he : Fresh tr e) : AtEach Fresh (tr ++ [e]) := by
  refine atEach_append.mpr ⟨h, atEach_singleton.mpr ?_⟩
  rwa [List.append_nil]

/-- A source goes on alone. -/
theorem Inv.poll (h : s.Inv tr) (hstep : step s .poll = .ok (s', out)) : s'.Inv (tr ++ out) := by
  unfold step at hstep
  cases hpolled : s.polled with
  | none => simp [hpolled] at hstep
  | some feed =>
    have hfeed := mem_feeds_of_polled hpolled
    simp only [hpolled] at hstep
    cases hpoll : feed.source.poll s.replay with
    | none => simp [hpoll] at hstep
    | some r =>
      obtain ⟨source, replay, sourceEvents⟩ := r
      simp only [hpoll] at hstep
      rcases Source.poll_epoch hpoll with ⟨hphase, hepoch, rfl, rfl⟩ | ⟨hphase, hepoch, hstream, hreplay⟩
      · -- the connection that is opened
        simp only [hphase, if_true, Except.ok.injEq, Prod.mk.injEq] at hstep
        obtain ⟨rfl, rfl⟩ := hstep
        constructor
        · simp [h.epoch, gaps, isGap]
        · rw [openedIn_append, h.opened]
          simp [openedIn, openedConnection, List.range_succ]
        · intro other hother hcon
          rcases List.mem_or_eq_of_mem_set hother with hold | rfl
          · refine (h.feeds other hold hcon).append rfl rfl ?_
            exact queue_update _ _ (by simp) _
          · exact ⟨tr, [], rfl, by rw [hepoch, h.epoch], by simp [setConnection]⟩
        · exact fresh_snoc h.fresh trivial
      · simp only [if_neg hphase, Except.ok.injEq, Prod.mk.injEq] at hstep
        obtain ⟨rfl, rfl⟩ := hstep
        have hconnected : Feed.Connected ⟨source, feed.connection⟩ → feed.Connected := by
          rintro (hsub | hsome)
          · exact absurd hsub hphase
          · exact .inr (hstream hsome)
        have hfeeds := feeds_set s.lastPolled ⟨source, feed.connection⟩ s.connections
          (sourceEvents.flatMap (events feed.connection none)) h.feeds hfeed hconnected rfl hepoch
          fun _ _ hm => .inl hm
        rcases hreplay with ⟨hsame, hout⟩ | ⟨hsucc, fromSlot, rfl⟩
        · obtain ⟨hnogap, hnoopen, hfresh⟩ : gaps (sourceEvents.flatMap (events (μ := μ) feed.connection none)) = 0 ∧
              openedIn (sourceEvents.flatMap (events (μ := μ) feed.connection none)) = [] ∧
              AtEach Fresh (tr ++ sourceEvents.flatMap (events feed.connection none)) := by
            rcases hout with rfl | rfl
            · exact ⟨rfl, rfl, by simpa using h.fresh⟩
            · exact ⟨rfl, rfl, fresh_snoc h.fresh trivial⟩
          exact ⟨by simp [hsame, hnogap, h.epoch], by simp [hnoopen, h.opened, setPolled], hfeeds, hfresh⟩
        · refine ⟨by simp [events, hsucc, h.epoch], ?_, hfeeds, fresh_snoc h.fresh trivial⟩
          rw [openedIn_append, h.opened]
          exact List.append_nil _

theorem itemOf_eq_some {item : ConnectionItem μ} {m : μ} (h : itemOf item = some m) : item = .message m := by
  cases item with
  | message m' => obtain rfl : m' = m := by simpa [itemOf] using h
                  rfl
  | _ => simp [itemOf] at h

/-- What is taken was in the queue, and the rest stays there. -/
theorem take_cases {connection connection' : Merge.Connection μ} {received : SourceReceived} {item : Option μ}
    (h : take connection = some (received, item, connection')) :
    (∀ m, item = some m → .message m ∈ connection.queue) ∧
      ∀ m, .message m ∈ connection'.queue → .message m ∈ connection.queue := by
  unfold take at h
  split at h
  · rename_i first queue hqueue
    cases h
    rw [hqueue]
    exact ⟨fun m hm => by rw [itemOf_eq_some hm]; simp, fun m hm => List.mem_cons_of_mem _ hm⟩
  · split at h
    · cases h
    · cases h
      exact ⟨by simp, fun m hm => hm⟩

/-- A source takes an item: a message comes out only in the epoch of its connection. -/
theorem Inv.received (h : s.Inv tr) (hstep : step s .received = .ok (s', out)) : s'.Inv (tr ++ out) := by
  unfold step at hstep
  cases hpolled : s.polled with
  | none => simp [hpolled] at hstep
  | some feed =>
    have hfeed := mem_feeds_of_polled hpolled
    simp only [hpolled] at hstep
    cases htake : take (s.connections feed.connection) with
    | none => simp [htake] at hstep
    | some t =>
      obtain ⟨received, item, connection⟩ := t
      simp only [htake] at hstep
      obtain ⟨hitem, hrest⟩ := take_cases htake
      cases hreceived : feed.source.received s.replay received with
      | none => simp [hreceived] at hstep
      | some r =>
        obtain ⟨source, sourceEvents⟩ := r
        simp only [hreceived, Except.ok.injEq, Prod.mk.injEq] at hstep
        obtain ⟨rfl, rfl⟩ := hstep
        obtain ⟨hphase, hepoch, hstream, hevents⟩ := Source.received_epoch hreceived
        have hconnected : feed.Connected := .inr hstream
        have hfeeds := feeds_set s.lastPolled ⟨source, feed.connection⟩ _
          (sourceEvents.flatMap (events feed.connection item)) h.feeds hfeed (fun _ => hconnected) rfl
          hepoch (queue_update _ _ fun m hm => .inl (hrest m hm))
        rcases hevents with rfl | ⟨rfl, hcurrent⟩
        · exact ⟨by simp [setConnection, setPolled, h.epoch],
            by simpa [setConnection, setPolled, openedIn] using h.opened, hfeeds, by simpa using h.fresh⟩
        · cases item with
          | none =>
            exact ⟨by simp [setConnection, setPolled, h.epoch, events],
              by simpa [setConnection, setPolled, openedIn, events] using h.opened, hfeeds,
              by simpa [events] using h.fresh⟩
          | some m =>
            obtain ⟨before, after, rfl, hgaps, hqueue⟩ := h.feeds feed hfeed hconnected
            refine ⟨?_, ?_, hfeeds, fresh_snoc h.fresh ⟨before, after, rfl, ?_, hqueue m (hitem m rfl)⟩⟩
            · rw [gaps_append, ← h.epoch]
              rfl
            · rw [openedIn_append, h.opened]
              exact List.append_nil _
            · rw [hgaps, hcurrent, h.epoch]

theorem Inv.subscribed {result : SubscribeResult} (h : s.Inv tr)
    (hstep : step s (.subscribed result) = .ok (s', out)) : s'.Inv (tr ++ out) := by
  unfold step at hstep
  cases hpolled : s.polled with
  | none => simp [hpolled] at hstep
  | some feed =>
    have hfeed := mem_feeds_of_polled hpolled
    simp only [hpolled] at hstep
    cases hsubscribed : feed.source.subscribed result with
    | none => simp [hsubscribed] at hstep
    | some source =>
      simp only [hsubscribed] at hstep
      obtain ⟨hphase, hepoch, -⟩ := Source.subscribed_epoch hsubscribed
      have hfeeds : ∀ connections' : ℕ → Merge.Connection μ,
          (∀ i m, .message m ∈ (connections' i).queue → .message m ∈ (s.connections i).queue ∨
            .upstream i m ∈ ([] : List (MergeEvent μ))) →
          ∀ other ∈ s.feeds.set s.lastPolled ⟨source, feed.connection⟩, other.Connected →
            other.Opened connections' (tr ++ []) :=
        fun _ hqueue => feeds_set _ _ _ _ h.feeds hfeed (fun _ => .inl hphase) rfl hepoch hqueue
      split at hstep
      · obtain ⟨rfl, rfl⟩ : _ ∧ _ := by simpa using hstep
        exact ⟨by simp [setConnection, setPolled, h.epoch],
          by simpa [setConnection, setPolled] using h.opened,
          hfeeds _ (queue_update _ _ (by simp)), by simpa using h.fresh⟩
      · obtain ⟨rfl, rfl⟩ : _ ∧ _ := by simpa using hstep
        exact ⟨by simp [setPolled, h.epoch], by simpa [setPolled] using h.opened,
          hfeeds _ (fun _ _ hm => .inl hm), by simpa using h.fresh⟩

/-- The task of a connection receives an item. -/
theorem Inv.forward {i : ℕ} {item : ConnectionItem μ} (h : s.Inv tr)
    (hstep : step s (.forward i item) = .ok (s', out)) : s'.Inv (tr ++ out) := by
  simp only [step] at hstep
  split at hstep
  · obtain ⟨rfl, rfl⟩ : _ ∧ _ := by simpa using hstep
    have hsilent : gaps ((itemOf item).toList.map (upstream i)) = 0 ∧
        openedIn ((itemOf item).toList.map (upstream i)) = [] ∧
        AtEach Fresh (tr ++ (itemOf item).toList.map (upstream i)) := by
      cases hitem : itemOf item with
      | none => exact ⟨rfl, rfl, by simpa using h.fresh⟩
      | some m => exact ⟨rfl, rfl, fresh_snoc h.fresh trivial⟩
    refine ⟨by simp [setConnection, hsilent.1, h.epoch], by simpa [setConnection, hsilent.2.1] using h.opened,
      fun feed hfeed hcon => (h.feeds feed hfeed hcon).append rfl rfl ?_, hsilent.2.2⟩
    refine queue_update _ _ (fun m hm => ?_) _
    rcases List.mem_append.mp hm with hm | hm
    · exact .inl hm
    · obtain rfl : .message m = item := by simpa using hm
      exact .inr (by simp [itemOf])
  · cases hstep

theorem inv_step {a : MergeAction μ} (h : s.Inv tr) (hstep : step s a = .ok (s', out)) : s'.Inv (tr ++ out) := by
  cases a with
  | store slot =>
    cases hstep
    exact h.of_feeds rfl rfl rfl fun feed hfeed _ => hfeed
  | next =>
    simp only [step] at hstep
    split at hstep
    · cases hstep
    · cases hstep
      exact h.of_feeds rfl rfl rfl fun feed hfeed _ => hfeed
  | poll => exact h.poll hstep
  | received => exact h.received hstep
  | subscribed result => exact h.subscribed hstep
  | exclude =>
    simp only [step] at hstep
    split at hstep
    · cases hstep
    · split at hstep
      · cases hstep
        exact h.of_feeds rfl rfl rfl fun feed hfeed _ => List.mem_of_mem_eraseIdx hfeed
      · cases hstep
  | applyReload toRemove toAdd =>
    cases hstep
    refine h.of_feeds rfl rfl rfl fun feed hfeed hcon => ?_
    rcases List.mem_append.mp hfeed with hold | hnew
    · exact List.mem_of_mem_filter hold
    · -- a new source has no connection yet
      obtain ⟨config, -, rfl⟩ := List.mem_map.mp hnew
      simp [Feed.Connected, Feed.new, Source.new] at hcon
  | forward i item => exact h.forward hstep
  | close i =>
    cases hstep
    refine ⟨by simp [setConnection, h.epoch], by simpa [setConnection] using h.opened, ?_, by simpa using h.fresh⟩
    intro feed hfeed hcon
    refine (h.feeds feed hfeed hcon).append rfl rfl ?_
    exact queue_update i { s.connections i with isOpen := false } (fun m hm => .inl hm) _

theorem inv_run {value : Option Slot} {sources : List ConfigChannelSourceGeneral} {acts : List (MergeAction μ)}
    (hrun : run step (new value sources) acts = .ok (s, tr)) : s.Inv tr :=
  run_induction (P := fun _ s tr => s.Inv tr) (inv_new value sources)
    (fun _ _ _ _ _ _ _ h hstep => inv_step h hstep) hrun

/-! ### The loops of the sources -/

/-- The sources without their connections. -/
def sources (s : Merge.Subscriptions μ) : Sources := ⟨s.replay, s.feeds.map (·.source)⟩

/-- What the sources do in an action, in the state before it. -/
def sourcesAction (s : Merge.Subscriptions μ) : MergeAction μ → Option Sources.Action
  | .store slot => some (.store slot)
  | .poll => some (.poll s.lastPolled)
  | .received => (s.polled.bind fun feed => take (s.connections feed.connection)).map fun t =>
      .received s.lastPolled t.1
  | .subscribed result => some (.subscribed s.lastPolled result)
  | .exclude => some (.exclude s.lastPolled)
  | .applyReload toRemove toAdd => some (.applyReload toRemove toAdd)
  | .next | .forward .. | .close _ => none

theorem polled_source {feed : Feed} (h : s.polled = some feed) :
    s.sources.streams[s.lastPolled]? = some feed.source := by
  unfold polled at h
  split at h
  · simp [sources, h]
  · cases h

/-- Every step is one of the sources, or leaves them as they are. -/
theorem sources_step {a : MergeAction μ} (hstep : step s a = .ok (s', out)) :
    (s'.sources = s.sources ∧ s.sourcesAction a = none) ∨
      ∃ a' events, s.sourcesAction a = some a' ∧ Sources.step s.sources a' = .ok (s'.sources, events) := by
  cases a with
  | store slot =>
    cases hstep
    exact .inr ⟨_, _, rfl, rfl⟩
  | next =>
    simp only [step] at hstep
    split at hstep <;> cases hstep
    exact .inl ⟨rfl, rfl⟩
  | poll =>
    simp only [step] at hstep
    cases hpolled : s.polled with
    | none => simp [hpolled] at hstep
    | some feed =>
      simp only [hpolled] at hstep
      cases hpoll : feed.source.poll s.replay with
      | none => simp [hpoll] at hstep
      | some r =>
        obtain ⟨source, replay, sourceEvents⟩ := r
        refine .inr ⟨_, sourceEvents, rfl, ?_⟩
        simp only [hpoll] at hstep
        simp only [Sources.step, polled_source hpolled]
        rw [show s.sources.replay = s.replay from rfl, hpoll]
        split at hstep <;> cases hstep <;>
          simp [sources, Sources.setSource, setPolled, setConnection, List.map_set]
  | received =>
    simp only [step] at hstep
    cases hpolled : s.polled with
    | none => simp [hpolled] at hstep
    | some feed =>
      simp only [hpolled] at hstep
      cases htake : take (s.connections feed.connection) with
      | none => simp [htake] at hstep
      | some t =>
        obtain ⟨received, item, connection⟩ := t
        simp only [htake] at hstep
        cases hreceived : feed.source.received s.replay received with
        | none => simp [hreceived] at hstep
        | some r =>
          obtain ⟨source, sourceEvents⟩ := r
          refine .inr ⟨.received s.lastPolled received, sourceEvents, by simp [sourcesAction, hpolled, htake], ?_⟩
          simp only [hreceived, Except.ok.injEq, Prod.mk.injEq] at hstep
          obtain ⟨rfl, -⟩ := hstep
          simp only [Sources.step, polled_source hpolled]
          rw [show s.sources.replay = s.replay from rfl, hreceived]
          simp [sources, Sources.setSource, setPolled, setConnection, List.map_set]
  | subscribed result =>
    simp only [step] at hstep
    cases hpolled : s.polled with
    | none => simp [hpolled] at hstep
    | some feed =>
      simp only [hpolled] at hstep
      cases hsubscribed : feed.source.subscribed result with
      | none => simp [hsubscribed] at hstep
      | some source =>
        refine .inr ⟨_, [], rfl, ?_⟩
        simp only [hsubscribed] at hstep
        simp only [Sources.step, polled_source hpolled, hsubscribed]
        split at hstep <;> cases hstep <;>
          simp [sources, Sources.setSource, setPolled, setConnection, List.map_set]
  | exclude =>
    simp only [step] at hstep
    cases hpolled : s.polled with
    | none => simp [hpolled] at hstep
    | some feed =>
      refine .inr ⟨_, [], rfl, ?_⟩
      simp only [hpolled] at hstep
      simp only [Sources.step, polled_source hpolled]
      split at hstep
      · rename_i hfinished
        cases hstep
        rw [if_pos hfinished]
        simp [sources, Sources.setStreams, setFeeds, List.eraseIdx_map]
      · cases hstep
  | applyReload toRemove toAdd =>
    cases hstep
    refine .inr ⟨_, [], rfl, ?_⟩
    simp [sources, Sources.step, Sources.setStreams, setFeeds, List.filter_map, Feed.new, Function.comp_def]
  | forward i item =>
    simp only [step] at hstep
    split at hstep <;> cases hstep
    exact .inl ⟨rfl, rfl⟩
  | close i =>
    cases hstep
    exact .inl ⟨rfl, rfl⟩

/-! ### Two histories -/

theorem Inv.fresh_message (h : s.Inv tr) (before : List (MergeEvent μ)) (i : ℕ) (m : μ)
    (after : List (MergeEvent μ)) (htr : tr = before ++ .message i m :: after) :
    ∃ before₁ before₂, before = before₁ ++ .opens i :: before₂ ∧ gaps before₁ = gaps before ∧
      .upstream i m ∈ before₂ := h.fresh before (.message i m) after htr

/-- What is opened in the last epoch is opened after its gap. -/
theorem opens_after_gap {pre before before₁ before₂ : List (MergeEvent μ)} {fromSlot : Slot} {i : ℕ}
    (hsplit : pre ++ .replayGap fromSlot :: before = before₁ ++ .opens i :: before₂)
    (hgaps : gaps before₁ = gaps (pre ++ .replayGap fromSlot :: before)) :
    ∃ between, before = between ++ .opens i :: before₂ := by
  rcases List.append_eq_append_iff.mp hsplit with ⟨l, rfl, hl⟩ | ⟨l, rfl, -⟩
  · cases l with
    | nil => simp at hl
    | cons e l =>
      obtain ⟨-, rfl⟩ : _ ∧ before = l ++ .opens i :: before₂ := by simpa using hl
      exact ⟨l, rfl⟩
  · simp only [gaps_append, gaps_replayGap] at hgaps
    omega

/-- In the merged stream every message after a gap was received on a connection that was opened after it,
and every message before it on one that was opened before: the calls of the sender keep them apart. -/
theorem replayGap_separates {value : Option Slot} {configs : List ConfigChannelSourceGeneral}
    {acts : List (MergeAction μ)} {s : Merge.Subscriptions μ} {pre post : List (MergeEvent μ)} {fromSlot : Slot}
    (hrun : run step (new value configs) acts = .ok (s, pre ++ .replayGap fromSlot :: post)) :
    (openedIn (pre ++ .replayGap fromSlot :: post)).Nodup ∧
      (∀ before i m after, post = before ++ .message i m :: after →
        .opens i ∈ before ∧ .upstream i m ∈ before) ∧
      (∀ before i m after, pre = before ++ .message i m :: after →
        .opens i ∈ before ∧ .upstream i m ∈ before) ∧
      (pre ++ .replayGap fromSlot :: post).filterMap MergeEvent.call =
        pre.filterMap MergeEvent.call ++ .beginLiveEpoch :: post.filterMap MergeEvent.call := by
  have h := inv_run hrun
  refine ⟨?_, ?_, ?_, by simp [MergeEvent.call]⟩
  · rw [h.opened]
    exact List.nodup_range
  · rintro before i m after rfl
    obtain ⟨before₁, before₂, hsplit, hgaps, hupstream⟩ :=
      h.fresh_message (pre ++ .replayGap fromSlot :: before) i m after (by simp)
    obtain ⟨between, rfl⟩ := opens_after_gap hsplit hgaps
    exact ⟨by simp, List.mem_append_right _ (List.mem_cons_of_mem _ hupstream)⟩
  · rintro before i m after rfl
    obtain ⟨before₁, before₂, rfl, -, hupstream⟩ :=
      h.fresh_message before i m (after ++ .replayGap fromSlot :: post) (by simp)
    exact ⟨by simp, List.mem_append_right _ (List.mem_cons_of_mem _ hupstream)⟩

/-- The actions of one subscribe of the source that is polled. -/
def subscribes (result : SubscribeResult) : List (MergeAction ℕ) := [.poll, .poll, .subscribed result]

/-- One of two sources is connected, with a message in its channel, when the other one declares the gap. -/
def staleMessage : List (MergeAction ℕ) :=
  [.next] ++ subscribes .replaySlotNotAvailable ++ [.poll] ++ subscribes (.stream .accepted) ++
    [.forward 1 (.message 5), .forward 1 (.message 6), .poll, .poll, .received] ++
    [.next] ++ subscribes .replaySlotNotAvailable ++ [.poll] ++
    [.next] ++ subscribes (.stream .accepted) ++ [.forward 3 (.message 7), .poll, .poll, .received]

theorem replayGap_separates_staleMessage :
    ∃ s, run step (new (some 10) Sources.twoSources) staleMessage = .ok (s,
        [.opens 0, .opens 1, .upstream 1 5, .upstream 1 6, .message 1 5, .opens 2] ++
          .replayGap 10 :: [.opens 3, .upstream 3 7, .message 3 7]) ∧
      .opens 3 ∈ [MergeEvent.opens 3, .upstream 3 (7 : ℕ)] := by
  have hreturns : returns (fun _ tr => decide (tr =
        [.opens 0, .opens 1, .upstream 1 5, .upstream 1 6, .message 1 5, .opens 2] ++
          .replayGap 10 :: [.opens 3, .upstream 3 7, .message 3 7]))
      (run step (new (some 10) Sources.twoSources) staleMessage) = true := by decide +kernel
  obtain ⟨s, tr, hrun, htr⟩ := exists_of_returns hreturns
  obtain rfl := of_decide_eq_true htr
  exact ⟨s, hrun, ((replayGap_separates hrun).2.1 [.opens 3, .upstream 3 7] 3 7 [] rfl).1⟩

end Merge.Subscriptions

end Richat
