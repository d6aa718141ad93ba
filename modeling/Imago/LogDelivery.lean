/-
Imago/LogDelivery.lean

A log request from one end to the other: the frames that the daemon writes
(`Imago/LogForwarder.lean`) and the client that reads them
(`run_async_with_target_override` of the `logs` command), which watches the
sequence numbers and reports that the log is truncated when one is missing.

The two counters agree up to the numbers that were left out (`Synced`):
`logs_delivered` says that the client is given each service's snapshot and then
its events, that the end marker has the successor of the last chunk's number, and
that the client reports a truncated log exactly if some receiver lagged.
-/
import Imago.LogForwarder

namespace Imago

/-! ### The client -/

structure LogsClient where
  acked : Bool
  sawEnd : Bool
  expectedSeq : Option Nat
  truncatedWarned : Bool
  /-- the chunks of its request that it was given -/
  chunks : List LogChunk

def LogsClient.init : LogsClient := ⟨false, false, none, false, []⟩

/-- `detect_seq_gap`. -/
def detectSeqGap (expectedSeq : Option Nat) (actual : Nat) : Bool × Option Nat :=
  let gap := match expectedSeq with
    | some expected => actual ≠ expected
    | none => actual ≠ 0
  (gap, some (saturatingAdd actual 1))

/-- `warn_if_seq_gap`: the warning is given once. -/
def LogsClient.warnIfSeqGap (c : LogsClient) (actual : Nat) : LogsClient :=
  { c with
    expectedSeq := (detectSeqGap c.expectedSeq actual).2
    truncatedWarned := c.truncatedWarned || (detectSeqGap c.expectedSeq actual).1 }

/-- `apply_end_seq_after_drain`. -/
def LogsClient.applyEndSeqAfterDrain (c : LogsClient) (endSeq : Nat)
    (delayedChunkSeqs : List Nat) : LogsClient :=
  (delayedChunkSeqs.foldl LogsClient.warnIfSeqGap c).warnIfSeqGap endSeq

def LogErrorCode.debug : LogErrorCode → String
  | .processNotFound => "ProcessNotFound"
  | .permissionDenied => "PermissionDenied"
  | .internal => "Internal"

section Client

variable (requestId : Uuid) (renderTextChunk : LogChunk → Except String Unit)

/-- `render_chunk`. -/
def renderChunk (chunk : LogChunk) : Except String Unit :=
  if chunk.bytes = [] then .ok () else renderTextChunk chunk

/-- The closure that is called for each envelope; it says whether it was the
last one. -/
def onEnvelope (c : LogsClient) : LogFrame → Except String (Bool × LogsClient)
  | .ack accepted names _ =>
    if accepted = false then .error "logs.request was not accepted"
    else if names = [] then .error "logs.request returned no target service"
    else .ok (false, { c with acked := true })
  | .chunk chunk =>
    if c.acked = false then .error "logs.chunk arrived before logs.request ack"
    else if requestId ≠ chunk.requestId then .ok (false, c)
    else
      match renderChunk renderTextChunk chunk with
      | .error e => .error e
      | .ok () =>
        .ok (false, { c.warnIfSeqGap chunk.seq with chunks := c.chunks ++ [chunk] })
  | .logsEnd logsEnd =>
    if c.acked = false then .error "logs.end arrived before logs.request ack"
    else if requestId ≠ logsEnd.requestId then .ok (false, c)
    else
      match logsEnd.error with
      | some e =>
        .error ("logs stream ended with error: " ++ e.message ++ " (" ++ e.code.debug ++ ")")
      | none => .ok (true, { c.applyEndSeqAfterDrain logsEnd.seq [] with sawEnd := true })

/-- `request_streamed_events`, on the frames of the stream. -/
def receiveFrames (c : LogsClient) : List LogFrame → Except String LogsClient
  | [] => .ok c
  | frame :: frames =>
    match onEnvelope requestId renderTextChunk c frame with
    | .error e => .error e
    | .ok (true, c) => .ok c
    | .ok (false, c) => receiveFrames c frames

/-- The `logs` command, from its request on. -/
def runLogs (frames : List LogFrame) : Except String LogsClient :=
  match receiveFrames requestId renderTextChunk .init frames with
  | .error e => .error e
  | .ok c =>
    if c.acked = false then .error "logs.request returned empty response stream"
    else if c.sawEnd = false then .error "logs stream ended without logs.end"
    else .ok c

/-- The client after some frames of which none was the last. -/
def hears (c : LogsClient) : List LogFrame → Option LogsClient
  | [] => some c
  | frame :: frames =>
    match onEnvelope requestId renderTextChunk c frame with
    | .ok (false, c) => hears c frames
    | _ => none

variable {requestId renderTextChunk}

theorem receiveFrames_of_hears {c c' : LogsClient} {frames rest : List LogFrame}
    (h : hears requestId renderTextChunk c frames = some c') :
    receiveFrames requestId renderTextChunk c (frames ++ rest) =
      receiveFrames requestId renderTextChunk c' rest := by
  induction frames generalizing c with
  | nil =>
    cases h
    rfl
  | cons frame frames ih =>
    rw [hears] at h
    rw [List.cons_append, receiveFrames]
    split at h
    · next c₁ hframe =>
      rw [hframe]
      exact ih h
    · cases h

theorem hears_concat {c c' c'' : LogsClient} {frames : List LogFrame} {frame : LogFrame}
    (h : hears requestId renderTextChunk c frames = some c')
    (hframe : onEnvelope requestId renderTextChunk c' frame = .ok (false, c'')) :
    hears requestId renderTextChunk c (frames ++ [frame]) = some c'' := by
  induction frames generalizing c with
  | nil =>
    cases h
    rw [List.nil_append, hears, hframe]
    rfl
  | cons f frames ih =>
    rw [hears] at h
    rw [List.cons_append, hears]
    split at h
    · exact ih h
    · cases h

end Client

/-! ### The two counters -/

/-- The number that the client expects next. -/
def LogsClient.nextSeq (c : LogsClient) : Nat := c.expectedSeq.getD 0

/-- The chunks among the frames. -/
def chunkFrames (frames : List LogFrame) : List LogChunk :=
  frames.filterMap fun
    | .chunk chunk => some chunk
    | _ => none

/-- The data of a service. -/
def dataOf (name : String) (chunks : List LogChunk) : List UInt8 :=
  (chunks.filter (·.name = name)).flatMap (·.bytes)

theorem chunkFrames_concat (frames : List LogFrame) (chunk : LogChunk) :
    chunkFrames (frames ++ [.chunk chunk]) = chunkFrames frames ++ [chunk] := by
  rw [chunkFrames, List.filterMap_append]
  rfl

theorem dataOf_concat (name : String) (chunks : List LogChunk) (chunk : LogChunk) :
    dataOf name (chunks ++ [chunk]) =
      addTo (fun n => dataOf n chunks) chunk.name chunk.bytes name := by
  rw [dataOf, List.filter_append, List.flatMap_append]
  by_cases hname : name = chunk.name
  · subst hname
    rw [addTo_self]
    simp [dataOf]
  · rw [addTo_of_ne _ _ hname, List.filter_singleton]
    simp [dataOf, Ne.symm hname]

theorem detectSeqGap_fst (c : LogsClient) (actual : Nat) :
    (detectSeqGap c.expectedSeq actual).1 = true ↔ c.nextSeq ≠ actual := by
  unfold LogsClient.nextSeq detectSeqGap
  cases c.expectedSeq with
  | none | some expected => exact decide_eq_true_iff.trans ne_comm

/-- The client can show every chunk. -/
def Shown (renderTextChunk : LogChunk → Except String Unit) (frames : List LogFrame) : Prop :=
  ∀ chunk, .chunk chunk ∈ frames → renderChunk renderTextChunk chunk = .ok ()

/-- The client has read what the daemon has written, and has warned or is about
to see a gap exactly if something was lost. -/
structure Synced (r : LogsCall) (renderTextChunk : LogChunk → Except String Unit) (lagged : Prop)
    (f : Forwarder) (c : LogsClient) : Prop where
  hears : hears r.requestId renderTextChunk .init f.frames = some c
  acked : c.acked = true
  chunks : c.chunks = chunkFrames f.frames
  le : c.nextSeq ≤ f.seq
  gap : (c.truncatedWarned = true ∨ c.nextSeq ≠ f.seq) ↔ lagged

/-- The frames hold `content`, and a client that can show them is in step as
long as the numbers do not run out. -/
def Carries (r : LogsCall) (renderTextChunk : LogChunk → Except String Unit) (lagged : Prop)
    (content : String → List UInt8) (f : Forwarder) : Prop :=
  (∀ name, dataOf name (chunkFrames f.frames) = content name) ∧
    (f.seq < u64Max → Shown renderTextChunk f.frames →
      ∃ c, Synced r renderTextChunk lagged f c)

section Synced

variable {r : LogsCall} {renderTextChunk : LogChunk → Except String Unit} {lagged : Prop}
  {f : Forwarder} {c : LogsClient} {content : String → List UInt8}

/-- The forwarder after a chunk. -/
def Forwarder.afterChunk (f : Forwarder) (chunk : LogChunk) : Forwarder :=
  { f with frames := f.frames ++ [.chunk chunk], seq := saturatingAdd f.seq 1 }

theorem sendSingleLogChunk_ok (hwrite : ∀ frame, r.write frame = .ok ()) (name : String)
    (streamKind : LogStreamKind) (bytes : List UInt8) (isLast : Bool)
    (timestampUnixMs : Option Nat) (f : Forwarder) :
    r.sendSingleLogChunk name streamKind bytes isLast timestampUnixMs f =
      (.ok (), f.afterChunk (r.chunkOf f name streamKind bytes isLast timestampUnixMs)) := by
  rw [LogsCall.sendSingleLogChunk, LogsCall.writeFrame, hwrite]
  rfl

/-- A number below the maximum was counted, not saturated. -/
theorem saturatingAdd_of_lt {a b : Nat} (h : saturatingAdd a b < u64Max) :
    saturatingAdd a b = a + b := by
  unfold saturatingAdd at *
  omega

/-- The client reads a chunk. -/
theorem Synced.chunk (h : Synced r renderTextChunk lagged f c) {chunk : LogChunk}
    (hid : chunk.requestId = r.requestId) (hnum : chunk.seq = f.seq)
    (hshown : renderChunk renderTextChunk chunk = .ok ()) :
    ∃ c', Synced r renderTextChunk lagged (f.afterChunk chunk) c' := by
  have hnext : saturatingAdd chunk.seq 1 = (f.afterChunk chunk).seq := by
    rw [hnum]
    rfl
  refine ⟨{ c.warnIfSeqGap chunk.seq with chunks := c.chunks ++ [chunk] }, ?_, h.acked, ?_, ?_, ?_⟩
  · refine hears_concat h.hears ?_
    rw [onEnvelope, if_neg (by rw [h.acked]; decide), if_neg (by rw [hid]; simp), hshown]
  · rw [h.chunks]
    exact (chunkFrames_concat _ _).symm
  · exact hnext.le
  · -- the gap that was to be seen is seen now
    rw [← h.gap, ← hnum, ← detectSeqGap_fst c]
    show (c.truncatedWarned || _) = true ∨ saturatingAdd chunk.seq 1 ≠ _ ↔ _
    rw [hnext, Bool.or_eq_true]
    exact ⟨fun h => h.resolve_right (absurd rfl), .inl⟩

theorem sendRule_carries (renderTextChunk : LogChunk → Except String Unit)
    (hwrite : ∀ frame, r.write frame = .ok ()) (lagged : Prop) :
    SendRule r (Carries r renderTextChunk lagged) where
  chunk content f name streamKind bytes isLast timestampUnixMs hf := by
    refine ⟨_, sendSingleLogChunk_ok hwrite name streamKind bytes isLast timestampUnixMs f, ?_, ?_⟩
    · intro n
      show dataOf n (chunkFrames (f.frames ++ [.chunk _])) = _
      rw [chunkFrames_concat, dataOf_concat]
      show addTo _ name bytes n = _
      rw [funext hf.1]
    · intro hseq hshown
      have hlt : f.seq < u64Max := by
        have heq := saturatingAdd_of_lt hseq
        have hlt : saturatingAdd f.seq 1 < u64Max := hseq
        omega
      obtain ⟨c, hc⟩ := hf.2 hlt fun chunk hchunk => hshown chunk (List.mem_append_left _ hchunk)
      exact hc.chunk rfl rfl (hshown _ (List.mem_append_right _ (List.mem_singleton_self _)))
  name content f lastName hf := by
    refine ⟨hf.1, fun hseq hshown => ?_⟩
    obtain ⟨c, hc⟩ := hf.2 hseq hshown
    exact ⟨c, hc.hears, hc.acked, hc.chunks, hc.le, hc.gap⟩

/-- Numbers are left out. -/
theorem Carries.lag (hf : Carries r renderTextChunk lagged content f) (lastName : Option String)
    (dropped : ℕ+) :
    Carries r renderTextChunk True content
      { f with lastName := lastName, seq := saturatingAdd f.seq dropped } := by
  refine ⟨hf.1, fun hseq hshown => ?_⟩
  have heq : saturatingAdd f.seq dropped = f.seq + dropped := saturatingAdd_of_lt hseq
  have hpos := dropped.pos
  have hlt : f.seq < u64Max := by
    have hlt : saturatingAdd f.seq dropped < u64Max := hseq
    omega
  obtain ⟨c, hc⟩ := hf.2 hlt hshown
  have hle := hc.le
  refine ⟨c, hc.hears, hc.acked, hc.chunks, ?_, ?_⟩
  · show c.nextSeq ≤ saturatingAdd f.seq dropped
    omega
  · refine iff_true_intro (.inr ?_)
    show c.nextSeq ≠ saturatingAdd f.seq dropped
    omega

end Synced

/-! ### Messages -/

/-- What a task hands to the loop before its receiver is closed. -/
def messages (name : String) : List RecvOutcome → List FollowForwardMsg
  | [] => []
  | .event event :: outcomes => .event name event :: messages name outcomes
  | .lagged dropped :: outcomes => .lagged name dropped :: messages name outcomes
  | .closed :: _ => []

/-- The messages of a service. -/
def ofService (name : String) (msgs : List FollowForwardMsg) : List FollowForwardMsg :=
  msgs.filter (·.serviceName = name)

/-- Some receiver has lagged. -/
def Lagged (msgs : List FollowForwardMsg) : Prop :=
  ∃ name dropped, FollowForwardMsg.lagged name dropped ∈ msgs

/-- What has been sent when these messages have been handled. -/
def LogsCall.contentAfter (r : LogsCall) (msgs : List FollowForwardMsg) : String → List UInt8 :=
  fun name => r.snapshotContent name ++ eventBytes name msgs

variable {name : String} {msg : FollowForwardMsg}

section Messages

variable {r : LogsCall} {msgs : List FollowForwardMsg}

theorem ofService_concat_self (name : String) (msgs : List FollowForwardMsg)
    (h : msg.serviceName = name) :
    ofService name (msgs ++ [msg]) = ofService name msgs ++ [msg] := by
  rw [ofService, List.filter_append, List.filter_singleton]
  simp [ofService, h]

theorem ofService_concat_ne (msgs : List FollowForwardMsg) (h : name ≠ msg.serviceName) :
    ofService name (msgs ++ [msg]) = ofService name msgs := by
  rw [ofService, List.filter_append, List.filter_singleton]
  simp [ofService, Ne.symm h]

theorem contentAfter_nil (r : LogsCall) : r.contentAfter [] = r.snapshotContent := by
  funext name
  exact List.append_nil _

theorem contentAfter_event (r : LogsCall) (msgs : List FollowForwardMsg) (name : String)
    (event : ServiceLogEvent) :
    r.contentAfter (msgs ++ [.event name event]) =
      addTo (r.contentAfter msgs) name event.bytes := by
  funext n
  have hbytes : eventBytes n (msgs ++ [.event name event]) =
      eventBytes n msgs ++ if name = n then event.bytes else [] := by
    rw [eventBytes, List.flatMap_append, List.flatMap_singleton]
    rfl
  unfold LogsCall.contentAfter
  rw [hbytes, ← List.append_assoc]
  by_cases hn : n = name
  · subst hn
    rw [addTo_self, if_pos rfl]
  · rw [addTo_of_ne _ _ hn, if_neg (Ne.symm hn), List.append_nil]

theorem contentAfter_lagged (r : LogsCall) (msgs : List FollowForwardMsg) (name : String)
    (dropped : ℕ+) : r.contentAfter (msgs ++ [.lagged name dropped]) = r.contentAfter msgs := by
  funext n
  unfold LogsCall.contentAfter eventBytes
  rw [List.flatMap_append, List.flatMap_singleton, List.append_nil]

theorem lagged_concat_event {event : ServiceLogEvent} :
    Lagged (msgs ++ [.event name event]) ↔ Lagged msgs := by
  simp [Lagged]

theorem lagged_concat_lagged {dropped : ℕ+} :
    Lagged (msgs ++ [.lagged name dropped]) :=
  ⟨name, dropped, List.mem_append_right _ (List.mem_singleton_self _)⟩

end Messages

/-! ### Runs of the forwarder -/

section Runs

variable {r : LogsCall} {renderTextChunk : LogChunk → Except String Unit}
  {w w' : ForwarderWorld} {a : ForwarderAction}

/-- The frames carry the snapshots and what the loop has taken. -/
def ForwarderWorld.Carried (r : LogsCall) (renderTextChunk : LogChunk → Except String Unit)
    (w : ForwarderWorld) (f : Forwarder) : Prop :=
  Carries r renderTextChunk (Lagged w.taken) (r.contentAfter w.taken) f

/-- The writing side of a run. -/
def FramesInv (r : LogsCall) (renderTextChunk : LogChunk → Except String Unit)
    (w : ForwarderWorld) : Prop :=
  match w.pc with
  | .following | .streamed (.ok ()) => w.Carried r renderTextChunk w.forwarder
  | .streamed (.error _) => False
  | .returned result => ∃ f, w.Carried r renderTextChunk f ∧
      r.finishStream (.ok ()) f = (result, w.forwarder)

theorem carries_ack (r : LogsCall) :
    Carries r renderTextChunk False (fun _ => [])
      ⟨0, none, [.ack true (r.subscriptions.map (·.serviceName)) r.follow]⟩ := by
  refine ⟨fun name => rfl, fun _ _ => ⟨{ LogsClient.init with acked := true }, ?_, rfl, rfl,
    Nat.le_refl _, ?_⟩⟩
  · have hnames : r.subscriptions.map (·.serviceName) ≠ [] := by
      rw [Ne, List.map_eq_nil_iff]
      exact r.nonempty
    rw [hears, onEnvelope, if_neg (by decide), if_neg hnames]
    rfl
  · simp [LogsClient.init, LogsClient.nextSeq]

/-- The acknowledgement and the snapshots are written. -/
theorem exists_start (renderTextChunk : LogChunk → Except String Unit)
    (hwrite : ∀ frame, r.write frame = .ok ()) :
    ∃ f, r.start = ⟨f, r.startTask, [], [], .following, false⟩ ∧
      Carries r renderTextChunk (Lagged []) (r.contentAfter []) f := by
  have hrule := sendRule_carries renderTextChunk hwrite False
  obtain ⟨f, hsent, hf⟩ := sends_sendEach
    (fun content (s : ServiceLogSubscription) => addTo content s.serviceName s.snapshot.toBytes)
    (fun s content f hf => hrule.sendSnapshot s hf) r.subscriptions (carries_ack r)
  have hnone : Lagged [] ↔ False := by simp [Lagged]
  refine ⟨f, ?_, ?_⟩
  · unfold LogsCall.start
    dsimp only
    rw [hsent]
  · rw [contentAfter_nil, propext hnone]
    exact hf

/-- The loop handles a message. -/
theorem carries_forwardMsg (hwrite : ∀ frame, r.write frame = .ok ())
    (hf : w.Carried r renderTextChunk w.forwarder) (msg : FollowForwardMsg) :
    ∃ f, r.forwardMsg w.forwarder msg = (.ok (), f) ∧
      Carries r renderTextChunk (Lagged (w.taken ++ [msg]))
        (r.contentAfter (w.taken ++ [msg])) f := by
  cases msg with
  | event name event =>
    have hrule := sendRule_carries renderTextChunk hwrite (Lagged w.taken)
    rw [contentAfter_event, propext lagged_concat_event]
    exact hrule.sendLogDataChunks name _ event.bytes _ hf
  | lagged name dropped =>
    refine ⟨_, rfl, ?_⟩
    rw [contentAfter_lagged, propext (iff_true_intro lagged_concat_lagged)]
    exact Carries.lag hf (some name) dropped

/-- The reading side of a run: what the receiver of a service yields has been
handled, is in the channel or is still to come. -/
structure TasksInv (r : LogsCall) (w : ForwarderWorld) : Prop where
  flow : ∀ name, ofService name (w.taken ++ w.channel) ++ messages name (w.tasks name).pending =
    messages name (r.outcomes name)
  stopped : ∀ name, (w.tasks name).running = false → messages name (w.tasks name).pending = []
  target : ∀ name, (w.tasks name).running = true → ∃ t ∈ r.followTargets, t.serviceName = name

/-- Nothing is on its way when the loop has ended by itself. -/
def DrainedInv (w : ForwarderWorld) : Prop :=
  w.pc ≠ .following → w.closedEarly = false →
    w.channel = [] ∧ ∀ name, (w.tasks name).running = false

theorem tasksInv_start (r : LogsCall) : TasksInv r r.start where
  flow name := rfl
  stopped name hrunning := by
    show messages name (r.outcomes name) = []
    have hnone : r.outcomes name = [] := by
      unfold LogsCall.outcomes
      rcases hfind : r.subscriptions.find? (·.serviceName = name) with none | s
      · rw [hfind]
        rfl
      · -- a followed subscription has a task
        rw [hfind]
        have hname : s.serviceName = name := by simpa using List.find?_some hfind
        rcases hreceiver : s.receiver with - | outcomes
        · show s.receiver.getD [] = []
          rw [hreceiver]
          rfl
        · have hany : r.followTargets.any (·.serviceName = name) = false := hrunning
          rw [List.any_eq_false] at hany
          refine absurd (decide_eq_true hname) (hany s ?_)
          rw [LogsCall.followTargets, List.mem_filter, hreceiver]
          exact ⟨List.mem_of_find?_eq_some hfind, rfl⟩
    rw [hnone]
    rfl
  target name hrunning := by
    obtain ⟨t, ht, hname⟩ := List.any_eq_true.mp (show r.followTargets.any _ = true from hrunning)
    exact ⟨t, ht, of_decide_eq_true hname⟩

/-- One task changes, and the channel with it. -/
theorem TasksInv.update (h : TasksInv r w) {t : FollowTask} {c : List FollowForwardMsg}
    (hself : ofService name (w.taken ++ c) ++ messages name t.pending =
      messages name (r.outcomes name))
    (hother : ∀ n, n ≠ name → ofService n (w.taken ++ c) = ofService n (w.taken ++ w.channel))
    (hstopped : t.running = false → messages name t.pending = [])
    (htarget : t.running = true → (w.tasks name).running = true) :
    TasksInv r { w with tasks := Function.update w.tasks name t, channel := c } := by
  refine ⟨fun n => ?_, fun n hrunning => ?_, fun n hrunning => ?_⟩ <;> dsimp only at * <;>
    by_cases hn : n = name
  · rw [hn, Function.update_self]
    exact hself
  · rw [Function.update_of_ne hn, hother n hn]
    exact h.flow n
  · rw [hn, Function.update_self] at hrunning ⊢
    exact hstopped hrunning
  · rw [Function.update_of_ne hn] at hrunning ⊢
    exact h.stopped n hrunning
  · rw [hn, Function.update_self] at hrunning
    exact h.target n (hn ▸ htarget hrunning)
  · rw [Function.update_of_ne hn] at hrunning
    exact h.target n hrunning

/-- A task hands a message to the loop. -/
theorem TasksInv.offer (h : TasksInv r w) {outcome : RecvOutcome} {pending : List RecvOutcome}
    (htask : w.tasks name = ⟨outcome :: pending, true⟩) (hmsg : msg.serviceName = name)
    (hmessages : messages name (outcome :: pending) = msg :: messages name pending) :
    TasksInv r { w with
      tasks := Function.update w.tasks name ⟨pending, true⟩
      channel := w.channel ++ [msg] } := by
  refine h.update ?_ (fun n hn => ?_) nofun fun _ => by rw [htask]
  · have hflow := h.flow name
    rw [htask, hmessages] at hflow
    rw [← List.append_assoc, ofService_concat_self name _ hmsg, List.append_assoc]
    exact hflow
  · rw [← List.append_assoc, ofService_concat_ne _ (hmsg ▸ hn)]

/-- A task ends. -/
theorem TasksInv.close (h : TasksInv r w) {pending : List RecvOutcome}
    (htask : w.tasks name = ⟨.closed :: pending, true⟩) :
    TasksInv r { w with tasks := Function.update w.tasks name ⟨[], false⟩ } := by
  have hflow := h.flow name
  rw [htask] at hflow
  exact h.update hflow (fun _ _ => rfl) (fun _ => rfl) nofun

theorem TasksInv.forward (h : TasksInv r w) (hstep : w.forward name = some w') :
    TasksInv r w' ∧ w'.pc = w.pc ∧ w'.taken = w.taken ∧ w'.forwarder = w.forwarder := by
  unfold ForwarderWorld.forward ForwarderWorld.offer at hstep
  split at hstep
  · next event pending htask =>
    split at hstep
    · cases hstep
    · cases hstep
      exact ⟨h.offer htask rfl rfl, rfl, rfl, rfl⟩
  · next dropped pending htask =>
    split at hstep
    · cases hstep
    · cases hstep
      exact ⟨h.offer htask rfl rfl, rfl, rfl, rfl⟩
  · next pending htask =>
    cases hstep
    exact ⟨h.close htask, rfl, rfl, rfl⟩
  · cases hstep

/-- The invariant of a `logs` call. -/
structure ForwarderInv (r : LogsCall) (renderTextChunk : LogChunk → Except String Unit)
    (w : ForwarderWorld) : Prop where
  frames : FramesInv r renderTextChunk w
  tasks : TasksInv r w
  drained : DrainedInv w

theorem forwarderInv_start (hwrite : ∀ frame, r.write frame = .ok ()) :
    ForwarderInv r renderTextChunk r.start := by
  obtain ⟨f, hstart, hf⟩ := exists_start renderTextChunk hwrite
  refine ⟨?_, tasksInv_start r, ?_⟩
  · rw [hstart]
    exact hf
  · rw [hstart]
    exact fun hne => absurd rfl hne

theorem ForwarderInv.step (hwrite : ∀ frame, r.write frame = .ok ())
    (h : ForwarderInv r renderTextChunk w) (hstep : r.step w a = some w') :
    ForwarderInv r renderTextChunk w' := by
  have hframes := h.frames
  unfold FramesInv at hframes
  cases a with simp only [LogsCall.step] at hstep
  | forward name =>
    split at hstep
    · next hpc =>
      obtain ⟨htasks, hpc', htaken, hforwarder⟩ := h.tasks.forward hstep
      rw [hpc] at hframes
      refine ⟨?_, htasks, fun hne => absurd (hpc'.trans hpc) hne⟩
      unfold FramesInv ForwarderWorld.Carried
      rw [hpc', hpc, htaken, hforwarder]
      exact hframes
    · cases hstep
  | take =>
    split at hstep
    · next msg channel hpc hchannel =>
      rw [hpc] at hframes
      obtain ⟨f, hsent, hf⟩ := carries_forwardMsg hwrite hframes msg
      rw [hsent] at hstep
      cases hstep
      refine ⟨hf, ⟨fun name => ?_, h.tasks.stopped, h.tasks.target⟩, fun hne => absurd rfl hne⟩
      have hflow := h.tasks.flow name
      rw [hchannel] at hflow
      show ofService name (w.taken ++ [msg] ++ channel) ++ _ = _
      rw [List.append_assoc]
      exact hflow
    · cases hstep
  | drained =>
    split at hstep
    · next hpc hchannel =>
      split at hstep
      · cases hstep
      · next hidle =>
        cases hstep
        rw [hpc] at hframes
        refine ⟨hframes, ⟨h.tasks.flow, h.tasks.stopped, h.tasks.target⟩, fun _ _ => ?_⟩
        refine ⟨hchannel, fun name => Bool.eq_false_iff.mpr fun hrunning => hidle ?_⟩
        obtain ⟨t, ht, rfl⟩ := h.tasks.target name hrunning
        exact List.any_eq_true.mpr ⟨t, ht, hrunning⟩
    · cases hstep
  | closeSignal =>
    split at hstep
    · next hpc =>
      split at hstep
      · cases hstep
      · cases hstep
        rw [hpc] at hframes
        exact ⟨hframes, ⟨h.tasks.flow, h.tasks.stopped, h.tasks.target⟩,
          fun _ hclosed => nomatch hclosed⟩
    · cases hstep
  | finish =>
    split at hstep
    · next result hpc =>
      cases hstep
      rw [hpc] at hframes
      rcases result with e | u
      · exact hframes.elim
      · refine ⟨⟨w.forwarder, hframes, rfl⟩, ⟨h.tasks.flow, h.tasks.stopped, h.tasks.target⟩, ?_⟩
        intro _ hclosed
        exact h.drained (by rw [hpc]; exact nofun) hclosed
    · cases hstep

end Runs

/-! ### The request as a whole -/

/-- The client is given each service's snapshot and events, the end marker has
the successor of the last chunk's number, and the client has warned exactly if a
receiver lagged. -/
structure Delivered (r : LogsCall) (w : ForwarderWorld) (client : LogsClient) : Prop where
  data : ∀ s ∈ r.subscriptions, dataOf s.serviceName client.chunks =
    s.snapshot.toBytes ++ eventBytes s.serviceName w.taken
  successor : ∃ last logsEnd, client.chunks.getLast? = some last ∧
    w.forwarder.frames.getLast? = some (.logsEnd logsEnd) ∧ logsEnd.seq = last.seq + 1
  warned : client.truncatedWarned = true ↔ Lagged w.taken
  /-- all that the receivers yielded was handled, unless the client closed first -/
  handled : w.closedEarly = false → ∀ s ∈ r.subscriptions,
    ofService s.serviceName w.taken = messages s.serviceName (s.receiver.getD [])

section Delivery

variable {r : LogsCall} {renderTextChunk : LogChunk → Except String Unit} {w : ForwarderWorld}

theorem find?_of_nodup {subs : List ServiceLogSubscription} {s : ServiceLogSubscription}
    (hnodup : (subs.map (·.serviceName)).Nodup) (hs : s ∈ subs) :
    subs.find? (·.serviceName = s.serviceName) = some s := by
  induction subs with
  | nil => cases hs
  | cons t subs ih =>
    rw [List.map_cons, List.nodup_cons] at hnodup
    rcases List.mem_cons.mp hs with rfl | hs
    · exact List.find?_cons_of_pos (decide_eq_true rfl)
    · have hne : ¬ t.serviceName = s.serviceName := by
        intro heq
        exact hnodup.1 (heq ▸ List.mem_map_of_mem hs)
      rw [List.find?_cons_of_neg (by simpa using hne)]
      exact ih hnodup.2 hs

theorem outcomes_eq (r : LogsCall) {s : ServiceLogSubscription} (hs : s ∈ r.subscriptions) :
    r.outcomes s.serviceName = s.receiver.getD [] := by
  rw [LogsCall.outcomes, find?_of_nodup r.names_nodup hs]
  rfl

/-- The last chunk and the end marker. -/
theorem finishStream_ok (hwrite : ∀ frame, r.write frame = .ok ()) (f : Forwarder) :
    ∃ last : LogChunk, last.requestId = r.requestId ∧ last.seq = f.seq ∧ last.bytes = [] ∧
      r.finishStream (.ok ()) f = (.ok (), { f.afterChunk last with
        frames := (f.afterChunk last).frames ++
          [.logsEnd ⟨r.requestId, (f.afterChunk last).seq, none⟩] }) := by
  let name := f.lastName.getD (r.subscriptions.head r.nonempty).serviceName
  refine ⟨r.chunkOf f name .composite [] true none, rfl, rfl, rfl, ?_⟩
  unfold LogsCall.finishStream
  dsimp only
  rw [sendSingleLogChunk_ok hwrite]
  show r.sendLogsEnd none _ = _
  rw [LogsCall.sendLogsEnd, LogsCall.writeFrame, hwrite]

/-- A client that is in step reads the end marker. -/
theorem runLogs_end {lagged : Prop} {f : Forwarder} {c : LogsClient}
    (h : Synced r renderTextChunk lagged f c) :
    ∃ client, runLogs r.requestId renderTextChunk
        (f.frames ++ [.logsEnd ⟨r.requestId, f.seq, none⟩]) = .ok client ∧
      client.chunks = c.chunks ∧ (client.truncatedWarned = true ↔ lagged) := by
  refine ⟨{ c.applyEndSeqAfterDrain f.seq [] with sawEnd := true }, ?_, rfl, ?_⟩
  · have hacked : ¬ c.acked = false := by
      rw [h.acked]
      decide
    have hlast : onEnvelope r.requestId renderTextChunk c
        (.logsEnd ⟨r.requestId, f.seq, none⟩) =
          .ok (true, { c.applyEndSeqAfterDrain f.seq [] with sawEnd := true }) := by
      rw [onEnvelope, if_neg hacked, if_neg (by simp)]
    rw [runLogs, receiveFrames_of_hears h.hears, receiveFrames, hlast]
    exact (if_neg hacked).trans (if_neg (show ¬ true = false by decide))
  · rw [← h.gap, ← detectSeqGap_fst]
    exact Bool.or_eq_true_iff

/-- **A log request over the stream transport**: whatever the snapshots are, the
receivers yield and the tasks and the loop do in turn, a client that is given all
frames and can show them has each service's log, sees the end marker with the
successor of the last chunk's number, and reports a truncated log exactly if a
receiver lagged. -/
theorem logs_delivered (r : LogsCall) (renderTextChunk : LogChunk → Except String Unit)
    (as : List ForwarderAction) (w : ForwarderWorld) (result : Except ImagodError Unit)
    (hwrite : ∀ frame, r.write frame = .ok ()) (hrun : run r.step r.start as = some w)
    (hreturned : w.pc = .returned result) (hshown : Shown renderTextChunk w.forwarder.frames)
    (hseq : ∀ logsEnd, .logsEnd logsEnd ∈ w.forwarder.frames → logsEnd.seq < u64Max) :
    ∃ client, runLogs r.requestId renderTextChunk w.forwarder.frames = .ok client ∧
      Delivered r w client := by
  have hinv : ForwarderInv r renderTextChunk w :=
    run_invariant (fun s a s' hs hstep => hs.step hwrite hstep) hrun (forwarderInv_start hwrite)
  have hframes := hinv.frames
  unfold FramesInv at hframes
  rw [hreturned] at hframes
  obtain ⟨f, hf, hfinish⟩ := hframes
  obtain ⟨last, hid, hnum, hempty, hsent⟩ := finishStream_ok hwrite f
  have hforwarder : w.forwarder.frames = (f.afterChunk last).frames ++
      [.logsEnd ⟨r.requestId, (f.afterChunk last).seq, none⟩] :=
    congrArg (fun s => s.2.frames) (hfinish.symm.trans hsent)
  -- the numbers have not run out
  have hlt : (f.afterChunk last).seq < u64Max := by
    refine hseq ⟨r.requestId, _, none⟩ ?_
    rw [hforwarder]
    exact List.mem_append_right _ (List.mem_singleton_self _)
  have hsucc : (f.afterChunk last).seq = f.seq + 1 := saturatingAdd_of_lt hlt
  have hmem : ∀ frame ∈ (f.afterChunk last).frames, frame ∈ w.forwarder.frames := by
    intro frame hframe
    rw [hforwarder]
    exact List.mem_append_left _ hframe
  -- the client is in step before the last chunk, and after it
  obtain ⟨c, hc⟩ := hf.2 (by omega) fun chunk hchunk =>
    hshown chunk (hmem _ (List.mem_append_left _ hchunk))
  obtain ⟨c', hc'⟩ := hc.chunk hid hnum
    (hshown last (hmem _ (List.mem_append_right _ (List.mem_singleton_self _))))
  obtain ⟨client, hclient, hchunks, hwarned⟩ := runLogs_end hc'
  have hlast : client.chunks = chunkFrames f.frames ++ [last] := by
    rw [hchunks, hc'.chunks]
    exact chunkFrames_concat _ _
  refine ⟨client, by rw [hforwarder]; exact hclient, ?_, ?_, hwarned, ?_⟩
  · intro s hs
    rw [hlast, dataOf_concat, hempty, addTo_nil, hf.1, LogsCall.contentAfter,
      r.snapshotContent_eq hs]
  · refine ⟨last, ⟨r.requestId, (f.afterChunk last).seq, none⟩, ?_, ?_, ?_⟩
    · rw [hlast, List.getLast?_concat]
    · rw [hforwarder, List.getLast?_concat]
    · rw [hnum]
      exact hsucc
  · intro hclosed s hs
    obtain ⟨hchannel, hstopped⟩ := hinv.drained (by rw [hreturned]; exact nofun) hclosed
    have hflow := hinv.tasks.flow s.serviceName
    rw [hchannel, List.append_nil, hinv.tasks.stopped _ (hstopped s.serviceName),
      List.append_nil, outcomes_eq r hs] at hflow
    exact hflow

/-- A service with one logged line, of whose later events two are missed. -/
def laggedCall : LogsCall where
  requestId := 1
  withTimestamp := true
  follow := true
  subscriptions := [⟨"a", .events [⟨.stdout, [97, 10], 1⟩],
    some [.event ⟨.stdout, [98, 10], 2⟩, .lagged ⟨2, by decide⟩, .event ⟨.stderr, [99, 10], 3⟩,
      .closed]⟩]
  write _ := .ok ()
  nonempty := by decide
  names_nodup := by decide

def endsBelow (frames : List LogFrame) : Bool :=
  frames.all fun
    | .logsEnd logsEnd => logsEnd.seq < u64Max
    | _ => true

theorem logs_delivered_lagged :
    ∃ w client, run laggedCall.step laggedCall.start
        [.forward "a", .take, .forward "a", .forward "a", .take, .take, .forward "a", .drained,
          .finish] = some w ∧
      runLogs laggedCall.requestId (fun _ => .ok ()) w.forwarder.frames = .ok client ∧
      Delivered laggedCall w client := by
  have hend : (run laggedCall.step laggedCall.start
      [.forward "a", .take, .forward "a", .forward "a", .take, .take, .forward "a", .drained,
        .finish]).map (fun w =>
          (match w.pc with
            | .returned _ => true
            | _ => false, endsBelow w.forwarder.frames)) = some (true, true) := by
    decide +kernel
  obtain ⟨w, hrun, hw⟩ := Option.map_eq_some_iff.mp hend
  obtain ⟨hpc, hbelow⟩ := Prod.mk.inj hw
  have hreturned : ∃ result, w.pc = .returned result := by
    split at hpc
    · next result hresult => exact ⟨result, hresult⟩
    · cases hpc
  obtain ⟨result, hresult⟩ := hreturned
  have hshown : Shown (fun _ => .ok ()) w.forwarder.frames := by
    intro chunk _
    unfold renderChunk
    split <;> rfl
  have hseq : ∀ logsEnd, .logsEnd logsEnd ∈ w.forwarder.frames → logsEnd.seq < u64Max :=
    fun logsEnd hmem => of_decide_eq_true (List.all_eq_true.mp hbelow _ hmem)
  obtain ⟨client, hclient, hdelivered⟩ := logs_delivered laggedCall (fun _ => .ok ()) _ w result
    (fun _ => rfl) hrun hresult hshown hseq
  exact ⟨w, client, hrun, hclient, hdelivered⟩

end Delivery

end Imago
