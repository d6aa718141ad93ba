/-
Imago/LogFollow.lean

A reader that follows the log of a running service (`open_logs` with `follow`).
The reader first subscribes to the broadcast and then, in a second step, takes a
snapshot of the end of the ring; the drains run in between, and append and
broadcast are two steps as well.

No event is lost, but one that was appended before the snapshot and is broadcast
after the subscription is delivered twice, and two drains may broadcast in another
order than they appended.  `follows`: if neither happens, then snapshot, follow
stream and what the drains are about to broadcast are together the log from the
snapshot's first byte on.
-/
import Imago.LogDrain

namespace Imago.LogFollow

/-! ### The model -/

/-- The reader: before `subscribe`, before it has the ring's lock, and with the
snapshot of the log from offset `start` on. -/
inductive Reader
  | idle
  | subscribed
  | opened (start : Nat) (snapshot : ServiceLogSnapshot)

/-- The log of a service and one reader that follows it. -/
structure World where
  logs : Logs
  reader : Reader
  /-- how many events had been appended when the snapshot was taken -/
  base : Nat
  /-- what the receiver was sent; it never lags -/
  received : List ServiceLogEvent

/-- Nothing has been logged or read. -/
def World.init (maxBytes : Nat) : World where
  logs := .init maxBytes
  reader := .idle
  base := 0
  received := []

/-- A step of the logger, or one of the reader. -/
inductive Action
  | log (a : LogAction)
  | subscribe
  | snapshot (tailLines : Nat) (withTimestamp : Bool)

/-- The event that a step hands to the receivers. -/
def broadcast (l : Logs) : LogAction → Option ServiceLogEvent
  | .send stream =>
    match l.drain stream with
    | ⟨_, .sending event⟩ => some event
    | _ => none
  | _ => none

/-- The snapshot that `open_logs` returns. -/
def takeSnapshot (ring : BoundedLogEventBuffer) (tailLines : Nat) (withTimestamp : Bool) :
    ServiceLogSnapshot :=
  if withTimestamp then .events (ring.tailSnapshotEvents tailLines)
  else .bytes (ring.tailSnapshotBytes tailLines)

/-- What the receiver has been sent when the drains have taken a step. -/
def World.receive (w : World) (event : Option ServiceLogEvent) : List ServiceLogEvent :=
  match w.reader with
  | .idle => w.received
  | _ => w.received ++ event.toList

/-- One step of the world, if it is possible. -/
def step (w : World) : Action → Option World
  | .log a =>
    (logStep w.logs a).map fun logs =>
      { w with logs := logs, received := w.receive (broadcast w.logs a) }
  | .subscribe =>
    match w.reader with
    | .idle => some { w with reader := .subscribed }
    | _ => none
  | .snapshot tailLines withTimestamp =>
    match w.reader with
    | .subscribed =>
      let snapshot := takeSnapshot w.logs.ring tailLines withTimestamp
      some { w with
        reader := .opened (w.logs.ring.tailStart tailLines) snapshot
        base := w.logs.drained.length }
    | _ => none

/-- The log from an offset on is the snapshot, then `rest`. -/
def Continues (log : List ServiceLogEvent) (start : Nat) (rest : List ServiceLogEvent) :
    ServiceLogSnapshot → Prop
  | .bytes bytes => (bytesOf log).drop start = bytes ++ bytesOf rest
  | .events events =>
    sliceEventsFromOffset log start ((bytesOf log).length - start) = events ++ rest

/-- Snapshot and follow stream hold each event of the log once and in order, up
to those that a drain has appended and is about to broadcast. -/
def Follows (w : World) : Prop :=
  match w.reader with
  | .opened start snapshot => ∃ unsent : List ServiceLogEvent,
      (∀ e ∈ unsent, (w.logs.drain e.stream).pc = .sending e) ∧
      Continues w.logs.drained start (w.received ++ unsent) snapshot
  | _ => True

/-- What was appended since the snapshot and not broadcast. -/
def World.unsent (w : World) : List ServiceLogEvent :=
  w.logs.drained.drop (w.base + w.received.length)

/-- The ring does not overflow. -/
def NoOverflow (w : World) : Action → Prop
  | .log (.push stream) => ∀ event, (w.logs.drain stream).pc = .pushing event →
      w.logs.ring.totalBytes + event.bytes.length ≤ w.logs.ring.maxBytes
  | _ => True

/-- The condition: what is broadcast after the subscription was appended after
the snapshot, and is the first such event that is still to be broadcast. -/
def Ordered (w : World) : Action → Prop
  | .log (.send stream) =>
    match w.reader with
    | .idle => True
    | .subscribed => False
    | .opened _ _ => ∀ event, (w.logs.drain stream).pc = .sending event →
        w.unsent.head? = some event
  | _ => True

/-! ### Steps of the drains -/

/-- What a step does to the ring and to those that follow it: it appends an
event, broadcasts one, or does neither and leaves what a drain is about to
broadcast. -/
inductive LogMove (l : Logs) (a : LogAction) (l' : Logs) : Prop
  | push (stream : ServiceLogStream) (pipe : List UInt8) (event : ServiceLogEvent)
      (ha : a = .push stream) (hd : l.drain stream = ⟨pipe, .pushing event⟩)
      (hl : l' = { l.setDrain stream ⟨pipe, .sending event⟩ with
        ring := l.ring.push event
        drained := l.drained ++ [event] })
  | send (stream : ServiceLogStream) (pipe : List UInt8) (event : ServiceLogEvent)
      (ha : a = .send stream) (hd : l.drain stream = ⟨pipe, .sending event⟩)
      (hl : l' = { l.setDrain stream ⟨pipe, .reading⟩ with sent := l.sent ++ [event] })
  | quiet (hb : broadcast l a = none) (hdrained : l'.drained = l.drained)
      (hring : l'.ring = l.ring)
      (hpc : ∀ s e, (l.drain s).pc = .sending e → (l'.drain s).pc = .sending e)

section Drains

variable {l l' : Logs} {a : LogAction}

/-- A task that has nothing to broadcast does not disturb one that has. -/
theorem sending_setDrain {stream : ServiceLogStream} {d : Drain}
    (hd : ∀ e, (l.drain stream).pc = .sending e → d.pc = .sending e) (s : ServiceLogStream)
    (e : ServiceLogEvent) (he : (l.drain s).pc = .sending e) :
    ((l.setDrain stream d).drain s).pc = .sending e := by
  by_cases hs : s = stream
  · subst hs
    rw [setDrain_self]
    exact hd e he
  · rw [setDrain_ne _ _ hs]
    exact he

theorem logMove_of_logStep (h : logStep l a = some l') : LogMove l a l' := by
  cases a with simp only [logStep] at h
  | output stream bytes =>
    split at h
    · cases h
      refine .quiet rfl rfl rfl (sending_setDrain fun e he => ?_)
      exact he
    · cases h
  | exit =>
    cases h
    exact .quiet rfl rfl rfl fun s e he => he
  | read stream n now =>
    split at h
    · next pipe hd =>
      split at h
      · cases h
        refine .quiet rfl rfl rfl (sending_setDrain fun e he => ?_)
        rw [hd] at he
        cases he
      · cases h
    · cases h
  | push stream =>
    split at h
    · next pipe event hd =>
      cases h
      exact .push stream pipe event rfl hd rfl
    · cases h
  | send stream =>
    split at h
    · next pipe event hd =>
      cases h
      exact .send stream pipe event rfl hd rfl
    · cases h
  | eof stream =>
    split at h
    · next hd =>
      split at h
      · cases h
      · cases h
        refine .quiet rfl rfl rfl (sending_setDrain fun e he => ?_)
        rw [hd] at he
        cases he
    · cases h
  | readError stream =>
    split at h
    · next pipe hd =>
      cases h
      refine .quiet rfl rfl rfl (sending_setDrain fun e he => ?_)
      rw [hd] at he
      cases he
    · cases h

end Drains

/-! ### The invariant -/

/-- `log` is what the snapshot was taken of, then what was received, then
`unsent`, which the drains are about to broadcast. -/
structure Tracks (l : Logs) (received before unsent : List ServiceLogEvent) : Prop where
  drained : l.drained = before ++ (received ++ unsent)
  sending : ∀ e ∈ unsent, (l.drain e.stream).pc = .sending e
  streams : (unsent.map (·.stream)).Nodup

/-- A snapshot of `before`. -/
structure Snaps (before : List ServiceLogEvent) (start : Nat) (snapshot : ServiceLogSnapshot) :
    Prop where
  start_le : start ≤ (bytesOf before).length
  continues : Continues before start [] snapshot

/-- The ring holds what was drained, and snapshot and stream together are the log,
up to what is still to be sent. -/
structure Inv (w : World) : Prop where
  flow : Flow w.logs
  ring : w.logs.ring.events = w.logs.drained
  reader : match w.reader with
    | .opened start snapshot => ∃ before unsent, w.base = before.length ∧
        Tracks w.logs w.received before unsent ∧ Snaps before start snapshot
    | _ => w.received = []

section Tracks

variable {l l' : Logs} {received before unsent : List ServiceLogEvent}
  {stream : ServiceLogStream} {pipe : List UInt8} {event : ServiceLogEvent}

theorem Tracks.quiet (h : Tracks l received before unsent) (hdrained : l'.drained = l.drained)
    (hpc : ∀ s e, (l.drain s).pc = .sending e → (l'.drain s).pc = .sending e) :
    Tracks l' received before unsent where
  drained := hdrained.trans h.drained
  sending e he := hpc e.stream e (h.sending e he)
  streams := h.streams

theorem Tracks.push (h : Tracks l received before unsent)
    (hd : l.drain stream = ⟨pipe, .pushing event⟩) (hstream : event.stream = stream) :
    Tracks { l.setDrain stream ⟨pipe, .sending event⟩ with
      ring := l.ring.push event
      drained := l.drained ++ [event] } received before (unsent ++ [event]) := by
  -- the task has broadcast its last event
  have hfresh : ∀ e ∈ unsent, e.stream ≠ stream := by
    intro e he hs
    have hpc := h.sending e he
    rw [hs, hd] at hpc
    cases hpc
  refine ⟨?_, fun e he => ?_, ?_⟩
  · show l.drained ++ [event] = _
    rw [h.drained, List.append_assoc, List.append_assoc]
  · show ((l.setDrain stream _).drain e.stream).pc = _
    rcases List.mem_append.mp he with he | he
    · rw [setDrain_ne _ _ (hfresh e he)]
      exact h.sending e he
    · obtain rfl := List.mem_singleton.mp he
      rw [hstream, setDrain_self]
  · rw [List.map_append, List.map_singleton, List.nodup_append]
    refine ⟨h.streams, by simp, fun s hs t ht hst => ?_⟩
    obtain ⟨e, he, rfl⟩ := List.mem_map.mp hs
    exact hfresh e he (hst.trans ((List.mem_singleton.mp ht).trans hstream))

theorem Tracks.send (h : Tracks l received before (event :: unsent))
    (hd : l.drain stream = ⟨pipe, .sending event⟩) :
    Tracks { l.setDrain stream ⟨pipe, .reading⟩ with sent := l.sent ++ [event] }
      (received ++ [event]) before unsent := by
  have hnodup := List.nodup_cons.mp h.streams
  refine ⟨?_, fun e he => ?_, hnodup.2⟩
  · show l.drained = _
    rw [h.drained, List.append_assoc]
    rfl
  · have hpc := h.sending e (.tail _ he)
    -- the other events are in the hands of another task
    have hs : e.stream ≠ stream := by
      intro hs
      rw [hs, hd] at hpc
      cases hpc
      exact hnodup.1 (List.mem_map_of_mem he)
    show ((l.setDrain stream _).drain e.stream).pc = _
    rw [setDrain_ne _ _ hs]
    exact hpc

end Tracks

/-- What follows the snapshot follows it in the whole log. -/
theorem Snaps.append {before rest : List ServiceLogEvent} {start : Nat}
    {snapshot : ServiceLogSnapshot} (h : Snaps before start snapshot)
    (hrest : ∀ e ∈ rest, e.bytes ≠ []) : Continues (before ++ rest) start rest snapshot := by
  cases snapshot with
  | bytes bytes =>
    have hbytes : (bytesOf before).drop start = bytes ++ bytesOf [] := h.continues
    rw [bytesOf_nil, List.append_nil] at hbytes
    show (bytesOf (before ++ rest)).drop start = bytes ++ bytesOf rest
    rw [bytesOf_append, List.drop_append_of_le_length h.start_le, hbytes]
  | events events =>
    have hevents : sliceEventsFromOffset before start _ = events ++ [] := h.continues
    rw [List.append_nil] at hevents
    show sliceEventsFromOffset (before ++ rest) start _ = events ++ rest
    rw [sliceEventsFromOffset_append h.start_le hrest, hevents]

theorem snaps_takeSnapshot (ring : BoundedLogEventBuffer) (tailLines : Nat)
    (withTimestamp : Bool) :
    Snaps ring.events (ring.tailStart tailLines)
      (takeSnapshot ring tailLines withTimestamp) where
  start_le := ring.total_eq ▸ computeTailStartOffsetByLines_le _ _ _
  continues := by
    cases withTimestamp with
    | true =>
      show sliceEventsFromOffset _ _ _ = ring.tailSnapshotEvents tailLines ++ []
      rw [List.append_nil, ← ring.total_eq]
      rfl
    | false =>
      show _ = ring.tailSnapshotBytes tailLines ++ bytesOf []
      rw [BoundedLogEventBuffer.tailSnapshotBytes, materializeBytesFromOffset_eq, bytesOf_nil,
        List.append_nil, List.take_of_length_le]
      rw [List.length_drop, ring.total_eq]

section Inv

variable {w w' : World} {a : Action}

theorem inv_init (maxBytes : Nat) : Inv (.init maxBytes) := ⟨flow_init maxBytes, rfl, rfl⟩

theorem Inv.nonempty (h : Inv w) : ∀ e ∈ w.logs.drained, e.bytes ≠ [] :=
  h.ring ▸ w.logs.ring.nonempty

/-- The drains take a step that sends the receiver `sent`. -/
theorem Inv.log (h : Inv w) {l' : Logs} {sent : Option ServiceLogEvent} (hflow : Flow l')
    (hring : l'.ring.events = l'.drained) (hsubscribed : w.reader = .subscribed → sent = none)
    (htracks : ∀ start snapshot before unsent, w.reader = .opened start snapshot →
      w.base = before.length → Tracks w.logs w.received before unsent →
      ∃ unsent', Tracks l' (w.received ++ sent.toList) before unsent') :
    Inv { w with logs := l', received := w.receive sent } := by
  refine ⟨hflow, hring, ?_⟩
  have hreader := h.reader
  unfold World.receive
  cases hr : w.reader with
  | idle =>
    rw [hr] at hreader
    exact hreader
  | subscribed =>
    rw [hr] at hreader
    show w.received ++ sent.toList = []
    rw [hreader, hsubscribed hr]
    rfl
  | opened start snapshot =>
    rw [hr] at hreader
    obtain ⟨before, unsent, hbase, hold, hsnaps⟩ := hreader
    obtain ⟨unsent', hnew⟩ := htracks start snapshot before unsent hr hbase hold
    exact ⟨before, unsent', hbase, hnew, hsnaps⟩

theorem Inv.step (h : Inv w) (hfits : NoOverflow w a) (hok : Ordered w a)
    (hstep : step w a = some w') : Inv w' := by
  cases a with
  | subscribe =>
    simp only [LogFollow.step] at hstep
    split at hstep
    · next hidle =>
      cases hstep
      have hreceived := h.reader
      rw [hidle] at hreceived
      exact ⟨h.flow, h.ring, hreceived⟩
    · cases hstep
  | snapshot tailLines withTimestamp =>
    simp only [LogFollow.step] at hstep
    split at hstep
    · next hsub =>
      cases hstep
      have hreceived := h.reader
      rw [hsub] at hreceived
      refine ⟨h.flow, h.ring, w.logs.drained, [], rfl, ⟨?_, by simp, by simp⟩, ?_⟩
      · show w.logs.drained = w.logs.drained ++ (w.received ++ [])
        rw [hreceived, List.append_nil, List.append_nil]
      · rw [← h.ring]
        exact snaps_takeSnapshot _ _ _
    · cases hstep
  | log a =>
    obtain ⟨l', hl, rfl⟩ := Option.map_eq_some_iff.mp hstep
    have hflow := h.flow.step hl
    cases logMove_of_logStep hl with
    | quiet hb hdrained hring hpc =>
      refine h.log hflow (by rw [hring, h.ring, hdrained]) (fun _ => hb) ?_
      rintro start snapshot before unsent - - htracks
      refine ⟨unsent, ?_⟩
      rw [hb, Option.toList_none, List.append_nil]
      exact htracks.quiet hdrained hpc
    | push stream pipe event ha hd hpushed =>
      subst ha hpushed
      obtain ⟨hstream, hne⟩ := h.flow.pushing stream event (by rw [hd])
      refine h.log hflow ?_ (fun _ => rfl) ?_
      · show (w.logs.ring.push event).events = w.logs.drained ++ [event]
        rw [BoundedLogEventBuffer.events_push_of_le hne (hfits event (by rw [hd])), h.ring]
      · rintro start snapshot before unsent - - htracks
        refine ⟨unsent ++ [event], ?_⟩
        show Tracks _ (w.received ++ []) before _
        rw [List.append_nil]
        exact htracks.push hd hstream
    | send stream pipe event ha hd hsending =>
      subst ha hsending
      have hsent : broadcast w.logs (.send stream) = some event := by
        simp only [broadcast, hd]
      refine h.log hflow h.ring (fun hr => ?_) ?_
      · simp only [Ordered, hr] at hok
      · rintro start snapshot before unsent hr hbase htracks
        -- the event is the first of those that were not broadcast
        simp only [Ordered, hr] at hok
        have hhead := hok event (by rw [hd])
        have hunsent : w.unsent = unsent := by
          rw [World.unsent, htracks.drained, hbase, ← List.append_assoc,
            ← List.length_append, List.drop_left]
        rw [hunsent] at hhead
        obtain ⟨rest, rfl⟩ := List.head?_eq_some_iff.mp hhead
        refine ⟨rest, ?_⟩
        rw [hsent]
        exact htracks.send hd

end Inv

/-- **A reader that follows the log** has, in every state of a run in which the
ring does not overflow, nothing that was appended before the snapshot is
broadcast after the subscription, and what is appended later is broadcast in the
order of the ring, each event from the snapshot's first one on once and in
order. -/
theorem follows (maxBytes : Nat) (as : List Action) (w : World)
    (hok : RunMeets step (fun w a => NoOverflow w a ∧ Ordered w a) (.init maxBytes) as)
    (hrun : run step (.init maxBytes) as = some w) : Follows w := by
  have hinv : Inv w := run_invariant_of_meets
    (fun s a s' hs hok hstep => Inv.step hs hok.1 hok.2 hstep) hok hrun (inv_init maxBytes)
  have hreader := hinv.reader
  unfold Follows
  split
  · next start snapshot hopen =>
    rw [hopen] at hreader
    obtain ⟨before, unsent, -, htracks, hsnaps⟩ := hreader
    refine ⟨unsent, htracks.sending, ?_⟩
    rw [htracks.drained]
    refine hsnaps.append fun e he => hinv.nonempty e ?_
    rw [htracks.drained]
    exact List.mem_append_right _ he
  · trivial

section Sample

/-- Both conditions, as a test. -/
def orderedTest (w : World) : Action → Bool
  | .log (.push stream) =>
    match (w.logs.drain stream).pc with
    | .pushing event => w.logs.ring.totalBytes + event.bytes.length ≤ w.logs.ring.maxBytes
    | _ => true
  | .log (.send stream) =>
    match w.reader, (w.logs.drain stream).pc with
    | .idle, _ => true
    | .subscribed, _ => false
    | .opened _ _, .sending event => w.unsent.head? = some event
    | .opened _ _, _ => true
  | _ => true

theorem ordered_of_orderedTest {w : World} {a : Action} (h : orderedTest w a = true) :
    NoOverflow w a ∧ Ordered w a := by
  cases a with
  | subscribe | snapshot => exact ⟨trivial, trivial⟩
  | log a =>
    cases a with
    | push stream =>
      refine ⟨fun event he => ?_, trivial⟩
      simp only [orderedTest, he] at h
      exact of_decide_eq_true h
    | send stream =>
      refine ⟨trivial, ?_⟩
      unfold Ordered
      cases hr : w.reader with
      | idle => trivial
      | subscribed => simp [orderedTest, hr] at h
      | opened start snapshot =>
        intro event he
        simp only [orderedTest, hr, he] at h
        exact of_decide_eq_true h
    | _ => exact ⟨trivial, trivial⟩

/-- A drain reads what is written to its pipe. -/
def readLine (stream : ServiceLogStream) (line : List UInt8) (now : Nat) : List Action :=
  [.log (.output stream line), .log (.read stream line.length now)]

/-- What the reader has got, in a form that can be compared. -/
def openedWith (w : World) : Option (Nat × Option (List ServiceLogEvent)) :=
  match w.reader with
  | .opened start (.events events) => some (start, some events)
  | .opened start (.bytes _) => some (start, none)
  | _ => none

/-- A line is logged before the reader comes, and one after it has its snapshot. -/
theorem follows_two_lines :
    ∃ w, run step (.init 64)
        (readLine .stdout [97, 10] 1 ++ [.log (.push .stdout), .log (.send .stdout), .subscribe] ++
          readLine .stdout [98, 10] 2 ++
          [.snapshot 5 true, .log (.push .stdout), .log (.send .stdout)]) = some w ∧
      openedWith w = some (0, some [⟨.stdout, [97, 10], 1⟩]) ∧
      w.received = [⟨.stdout, [98, 10], 2⟩] ∧ Follows w := by
  have hend : (run step (.init 64)
      (readLine .stdout [97, 10] 1 ++ [.log (.push .stdout), .log (.send .stdout), .subscribe] ++
        readLine .stdout [98, 10] 2 ++
        [.snapshot 5 true, .log (.push .stdout), .log (.send .stdout)])).map
      (fun w => (openedWith w, w.received)) =
      some (some (0, some [⟨.stdout, [97, 10], 1⟩]), [⟨.stdout, [98, 10], 2⟩]) := by
    decide +kernel
  obtain ⟨w, hrun, hw⟩ := Option.map_eq_some_iff.mp hend
  obtain ⟨hopened, hreceived⟩ := Prod.mk.inj hw
  refine ⟨w, hrun, hopened, hreceived, follows 64 _ w ?_ hrun⟩
  exact .of_meetsBy (fun _ _ => ordered_of_orderedTest) (by decide +kernel)

/-- The drain task is between the ring and the broadcast. -/
def isSending : DrainPc → Bool
  | .sending _ => true
  | _ => false

/-- A run after which nothing is left to broadcast, and snapshot and stream are
not the log. -/
theorem exists_not_follows {as : List Action} (start : Nat)
    (events received log : List ServiceLogEvent)
    (h : (run step (.init 64) as).map (fun w => (openedWith w, w.received, w.logs.drained,
        isSending (w.logs.drain .stdout).pc, isSending (w.logs.drain .stderr).pc)) =
      some (some (start, some events), received, log, false, false))
    (hne : sliceEventsFromOffset log start ((bytesOf log).length - start) ≠ events ++ received) :
    ∃ w, run step (.init 64) as = some w ∧ ¬ Follows w := by
  obtain ⟨w, hrun, hw⟩ := Option.map_eq_some_iff.mp h
  simp only [Prod.mk.injEq] at hw
  obtain ⟨hopened, hreceived, hdrained, hstdout, hstderr⟩ := hw
  have hreader : w.reader = .opened start (.events events) := by
    unfold openedWith at hopened
    split at hopened
    · next hr =>
      cases hopened
      exact hr
    · cases hopened
    · cases hopened
  have hquiet : ∀ stream, isSending (w.logs.drain stream).pc = false := by
    rintro (- | -)
    · exact hstdout
    · exact hstderr
  refine ⟨w, hrun, fun hfollows => hne ?_⟩
  unfold Follows at hfollows
  rw [hreader] at hfollows
  obtain ⟨unsent, hsending, hcontinues⟩ := hfollows
  have hnone : unsent = [] := by
    refine List.eq_nil_iff_forall_not_mem.mpr fun e he => ?_
    have hpc := hquiet e.stream
    rw [hsending e he] at hpc
    cases hpc
  rw [hnone, List.append_nil, hreceived, hdrained] at hcontinues
  exact hcontinues

/-- An event that is appended between subscription and snapshot is delivered
twice; and of two events the later one is broadcast first. -/
theorem not_follows :
    (∃ w, run step (.init 64)
        (.subscribe :: readLine .stdout [97, 10] 1 ++
          [.log (.push .stdout), .snapshot 5 true, .log (.send .stdout)]) = some w ∧
      ¬ Follows w) ∧
    ∃ w, run step (.init 64)
        ([.subscribe, .snapshot 5 true] ++ readLine .stdout [97, 10] 1 ++
          readLine .stderr [98, 10] 2 ++ [.log (.push .stdout), .log (.push .stderr),
            .log (.send .stderr), .log (.send .stdout)]) = some w ∧
      ¬ Follows w := by
  constructor
  · exact exists_not_follows 0 [⟨.stdout, [97, 10], 1⟩] [⟨.stdout, [97, 10], 1⟩]
      [⟨.stdout, [97, 10], 1⟩] (by decide +kernel) (by decide)
  · exact exists_not_follows 0 [] [⟨.stderr, [98, 10], 2⟩, ⟨.stdout, [97, 10], 1⟩]
      [⟨.stdout, [97, 10], 1⟩, ⟨.stderr, [98, 10], 2⟩] (by decide +kernel) (by decide)

end Sample

end Imago.LogFollow
