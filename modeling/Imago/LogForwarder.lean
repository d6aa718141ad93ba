/-
Imago/LogForwarder.lean

The daemon's side of a log request over the stream transport
(`run_stream_logs_forwarder`): the snapshots of the requested services are sent
in chunks, then one task per followed service hands what its receiver yields to
the loop that writes the frames, and at the end come a last empty chunk and the
end marker.  Every chunk has the next sequence number; where a receiver has
lagged, as many numbers are left out as events were missed.

`SendRule` is the rule for the functions that write: what holds of the frames and
the bytes that they carry for each service after any single chunk holds after each
of the loops.
-/
import Imago.Errors
import Imago.LogBuffer
import Imago.Runs
import Mathlib.Data.PNat.Basic
import Mathlib.Logic.Function.Basic

namespace Imago

/-! ### Frames -/

/-- `LogStreamKind`. -/
inductive LogStreamKind
  | stdout | stderr | composite
  deriving DecidableEq

/-- `LogChunk`. -/
structure LogChunk where
  requestId : Uuid
  seq : Nat
  name : String
  streamKind : LogStreamKind
  bytes : List UInt8
  isLast : Bool
  timestampUnixMs : Option Nat
  deriving DecidableEq

/-- `LogErrorCode`. -/
inductive LogErrorCode
  | processNotFound | permissionDenied | internal
  deriving DecidableEq

/-- `LogError`. -/
structure LogError where
  code : LogErrorCode
  message : String
  deriving DecidableEq

/-- `LogEnd`. -/
structure LogEnd where
  requestId : Uuid
  seq : Nat
  error : Option LogError
  deriving DecidableEq

/-- What the daemon writes to the stream: the acknowledgement
(`LogsRequestAck`), the chunks and the end marker. -/
inductive LogFrame
  | ack (accepted : Bool) (names : List String) (follow : Bool)
  | chunk (chunk : LogChunk)
  | logsEnd (logsEnd : LogEnd)
  deriving DecidableEq

/-- `log_error_from_imagod_error`. -/
def logErrorFromImagodError (e : ImagodError) : LogError where
  code := match e.code with
    | .notFound => .processNotFound
    | .unauthorized => .permissionDenied
    | _ => .internal
  message := e.message

/-- `service_log_stream_to_protocol`. -/
def serviceLogStreamToProtocol : ServiceLogStream → LogStreamKind
  | .stdout => .stdout
  | .stderr => .stderr

/-! ### `slice::chunks` -/

section Chunks

variable {α : Type*}

def chunksLoop (n : Nat) : Nat → List α → List (List α)
  | 0, _ => []
  | _ + 1, [] => []
  | k + 1, x :: l => (x :: l).take n :: chunksLoop n k ((x :: l).drop n)

/-- `slice::chunks`. -/
def chunks (n : Nat) (l : List α) : List (List α) := chunksLoop n l.length l

theorem flatten_chunksLoop {n k : Nat} (hn : 0 < n) {l : List α} (hk : l.length ≤ k) :
    (chunksLoop n k l).flatten = l := by
  induction k generalizing l with
  | zero =>
    obtain rfl := List.length_eq_zero_iff.mp (Nat.le_zero.mp hk)
    rfl
  | succ k ih =>
    cases l with
    | nil => rfl
    | cons x l =>
      have hle : ((x :: l).drop n).length ≤ k := by
        rw [List.length_drop, List.length_cons] at *
        omega
      rw [chunksLoop, List.flatten_cons, ih hle, List.take_append_drop]

/-- The chunks are the slice, cut. -/
theorem flatten_chunks {n : Nat} (hn : 0 < n) (l : List α) : (chunks n l).flatten = l :=
  flatten_chunksLoop hn (Nat.le_refl _)

end Chunks

/-! ### The request -/

/-- What a broadcast receiver yields: an event, the number of events it has
missed, or that the channel is closed. -/
inductive RecvOutcome
  | event (event : ServiceLogEvent)
  | lagged (dropped : ℕ+)
  | closed

/-- `ServiceLogSubscription`, with the outcomes that its receiver will yield. -/
structure ServiceLogSubscription where
  serviceName : String
  snapshot : ServiceLogSnapshot
  receiver : Option (List RecvOutcome)

/-- A log request that has been accepted: a subscription for each service (each
name once, see `resolve_logs_request_service_names`), and what becomes of a frame
that is written. -/
structure LogsCall where
  requestId : Uuid
  withTimestamp : Bool
  follow : Bool
  subscriptions : List ServiceLogSubscription
  write : LogFrame → Except ImagodError Unit
  nonempty : subscriptions ≠ []
  names_nodup : (subscriptions.map (·.serviceName)).Nodup

/-- `FollowForwardMsg`. -/
inductive FollowForwardMsg
  | event (serviceName : String) (event : ServiceLogEvent)
  | lagged (serviceName : String) (dropped : ℕ+)

def FollowForwardMsg.serviceName : FollowForwardMsg → String
  | .event serviceName _ | .lagged serviceName _ => serviceName

/-! ### Writing -/

/-- The sequence number, the service last named, and the frames written. -/
structure Forwarder where
  seq : Nat
  lastName : Option String
  frames : List LogFrame

/-- The result of a writing function, with the state it leaves. -/
abbrev Sending := Except ImagodError Unit × Forwarder

/-- The `?` of a writing function. -/
def Sending.andThen (s : Sending) (next : Forwarder → Sending) : Sending :=
  match s with
  | (.ok (), f) => next f
  | (.error e, f) => (.error e, f)

/-- A `for` loop whose body may return. -/
def sendEach {α : Type} (body : α → Forwarder → Sending) : List α → Forwarder → Sending
  | [], f => (.ok (), f)
  | x :: xs, f => (body x f).andThen (sendEach body xs)

/-- `LOG_STREAM_CHUNK_BYTES`. -/
def logStreamChunkBytes : Nat := 16 * 1024

namespace LogsCall

variable (r : LogsCall)

/-- `write_typed_envelope`. -/
def writeFrame (f : Forwarder) (frame : LogFrame) : Sending :=
  match r.write frame with
  | .ok () => (.ok (), { f with frames := f.frames ++ [frame] })
  | .error e => (.error e, f)

/-- The chunk that `send_single_log_chunk` sends. -/
def chunkOf (f : Forwarder) (name : String) (streamKind : LogStreamKind) (bytes : List UInt8)
    (isLast : Bool) (timestampUnixMs : Option Nat) : LogChunk where
  requestId := r.requestId
  seq := f.seq
  name := name
  streamKind := streamKind
  bytes := bytes
  isLast := isLast
  timestampUnixMs := if r.withTimestamp then timestampUnixMs else none

/-- `send_single_log_chunk`. -/
def sendSingleLogChunk (name : String) (streamKind : LogStreamKind) (bytes : List UInt8)
    (isLast : Bool) (timestampUnixMs : Option Nat) (f : Forwarder) : Sending :=
  (r.writeFrame f (.chunk (r.chunkOf f name streamKind bytes isLast timestampUnixMs))).andThen
    fun f => (.ok (), { f with seq := saturatingAdd f.seq 1 })

/-- `send_log_data_chunks`. -/
def sendLogDataChunks (name : String) (streamKind : LogStreamKind) (bytes : List UInt8)
    (timestampUnixMs : Option Nat) (f : Forwarder) : Sending :=
  if bytes = [] then (.ok (), f)
  else
    (sendEach (fun chunk => r.sendSingleLogChunk name streamKind chunk false timestampUnixMs)
      (chunks logStreamChunkBytes bytes) f).andThen
    fun f => (.ok (), { f with lastName := some name })

/-- `send_logs_end`. -/
def sendLogsEnd (error : Option LogError) (f : Forwarder) : Sending :=
  r.writeFrame f (.logsEnd ⟨r.requestId, f.seq, error⟩)

/-- The snapshot of one subscription in `stream_logs_chunks`. -/
def sendSnapshot (subscription : ServiceLogSubscription) (f : Forwarder) : Sending :=
  match subscription.snapshot with
  | .bytes bytes => r.sendLogDataChunks subscription.serviceName .composite bytes none f
  | .events events =>
    if r.withTimestamp then
      sendEach (fun event => r.sendLogDataChunks subscription.serviceName .composite
        event.bytes (some event.timestampUnixMs)) events f
    else r.sendLogDataChunks subscription.serviceName .composite (bytesOf events) none f

/-- The body of the loop of `stream_logs_chunks`, with `advance_seq_for_lagged`. -/
def forwardMsg (f : Forwarder) : FollowForwardMsg → Sending
  | .event serviceName event =>
    r.sendLogDataChunks serviceName (serviceLogStreamToProtocol event.stream) event.bytes
      (some event.timestampUnixMs) f
  | .lagged serviceName dropped =>
    (.ok (), { f with lastName := some serviceName, seq := saturatingAdd f.seq dropped })

/-- What `run_stream_logs_forwarder` does with the result of
`stream_logs_chunks`. -/
def finishStream (result : Except ImagodError Unit) (f : Forwarder) : Sending :=
  match result with
  | .ok () =>
    let fallbackName := (r.subscriptions.head r.nonempty).serviceName
    (r.sendSingleLogChunk (f.lastName.getD fallbackName) .composite [] true none f).andThen
      (r.sendLogsEnd none)
  | .error e => r.sendLogsEnd (some (logErrorFromImagodError e)) f

end LogsCall

/-! ### The tasks and the loop -/

/-- The task of a followed service: what its receiver has still to yield, and
whether it runs. -/
structure FollowTask where
  pending : List RecvOutcome
  running : Bool

/-- Where the request is: in the loop of `stream_logs_chunks`, behind it with its
result, or answered. -/
inductive ForwarderPc
  | following
  | streamed (result : Except ImagodError Unit)
  | returned (result : Except ImagodError Unit)

/-- A `logs` call with its tasks. -/
structure ForwarderWorld where
  forwarder : Forwarder
  tasks : String → FollowTask
  /-- the channel between the tasks and the loop -/
  channel : List FollowForwardMsg
  /-- the messages the loop has taken from it -/
  taken : List FollowForwardMsg
  pc : ForwarderPc
  /-- the client closed the request before the receivers were closed -/
  closedEarly : Bool

inductive ForwarderAction
  /-- the task of a service handles what its receiver yields next -/
  | forward (serviceName : String)
  /-- the loop handles the next message -/
  | take
  /-- every task has ended and the channel is empty -/
  | drained
  | closeSignal
  | finish

/-- The capacity of the channel. -/
def followChannelCapacity : Nat := 128

/-- A task hands its loop a message, if there is room for it. -/
def ForwarderWorld.offer (w : ForwarderWorld) (serviceName : String) (pending : List RecvOutcome)
    (msg : FollowForwardMsg) : Option ForwarderWorld :=
  if followChannelCapacity ≤ w.channel.length then none
  else some { w with
    tasks := Function.update w.tasks serviceName ⟨pending, true⟩
    channel := w.channel ++ [msg] }

/-- The task of a service handles what its receiver yields. -/
def ForwarderWorld.forward (w : ForwarderWorld) (serviceName : String) : Option ForwarderWorld :=
  match w.tasks serviceName with
  | ⟨.event event :: pending, true⟩ => w.offer serviceName pending (.event serviceName event)
  | ⟨.lagged dropped :: pending, true⟩ => w.offer serviceName pending (.lagged serviceName dropped)
  | ⟨.closed :: _, true⟩ =>
    some { w with tasks := Function.update w.tasks serviceName ⟨[], false⟩ }
  | _ => none

namespace LogsCall

variable (r : LogsCall)

/-- The subscriptions that are followed: `follow_targets`. -/
def followTargets : List ServiceLogSubscription := r.subscriptions.filter (·.receiver.isSome)

/-- The outcomes that a service's receiver yields. -/
def outcomes (serviceName : String) : List RecvOutcome :=
  ((r.subscriptions.find? (·.serviceName = serviceName)).bind (·.receiver)).getD []

def startTask (serviceName : String) : FollowTask where
  pending := r.outcomes serviceName
  running := r.followTargets.any (·.serviceName = serviceName)

/-- The acknowledgement and the snapshots. -/
def start : ForwarderWorld :=
  let ack := .ack true (r.subscriptions.map (·.serviceName)) r.follow
  let sent := sendEach r.sendSnapshot r.subscriptions ⟨0, none, [ack]⟩
  { forwarder := sent.2
    tasks := r.startTask
    channel := []
    taken := []
    pc := match sent.1 with
      | .ok () => .following
      | .error e => .streamed (.error e)
    closedEarly := false }

def step (w : ForwarderWorld) : ForwarderAction → Option ForwarderWorld
  | .forward serviceName =>
    match w.pc with
    | .following => w.forward serviceName
    | _ => none
  | .take =>
    match w.pc, w.channel with
    | .following, msg :: channel =>
      let sent := r.forwardMsg w.forwarder msg
      some { w with
        forwarder := sent.2
        channel := channel
        taken := w.taken ++ [msg]
        pc := match sent.1 with
          | .ok () => .following
          | .error e => .streamed (.error e) }
    | _, _ => none
  | .drained =>
    match w.pc, w.channel with
    | .following, [] =>
      if r.followTargets.any (fun target => (w.tasks target.serviceName).running) then none
      else some { w with pc := .streamed (.ok ()) }
    | _, _ => none
  | .closeSignal =>
    match w.pc with
    | .following =>
      if r.followTargets = [] then none
      else some { w with pc := .streamed (.ok ()), closedEarly := true }
    | _ => none
  | .finish =>
    match w.pc with
    | .streamed result =>
      let sent := r.finishStream result w.forwarder
      some { w with forwarder := sent.2, pc := .returned sent.1 }
    | _ => none

end LogsCall

/-! ### What is sent for each service -/

/-- Some more bytes for a service. -/
def addTo (content : String → List UInt8) (name : String) (bytes : List UInt8) :
    String → List UInt8 :=
  Function.update content name (content name ++ bytes)

section AddTo

variable (content : String → List UInt8) (name : String)

theorem addTo_self (bytes : List UInt8) : addTo content name bytes name = content name ++ bytes :=
  Function.update_self ..

theorem addTo_of_ne {n : String} (h : n ≠ name) (bytes : List UInt8) :
    addTo content name bytes n = content n :=
  Function.update_of_ne h ..

theorem addTo_nil : addTo content name [] = content := by
  rw [addTo, List.append_nil, Function.update_eq_self]

theorem addTo_addTo (bytes more : List UInt8) :
    addTo (addTo content name bytes) name more = addTo content name (bytes ++ more) := by
  rw [addTo, addTo_self, addTo, addTo, Function.update_idem, List.append_assoc]

/-- Bytes that come in pieces. -/
theorem foldl_addTo {α : Type} (piece : α → List UInt8) (xs : List α) :
    xs.foldl (fun content x => addTo content name (piece x)) content =
      addTo content name (xs.flatMap piece) := by
  induction xs generalizing content with
  | nil => exact (addTo_nil content name).symm
  | cons x xs ih => rw [List.foldl_cons, ih, addTo_addTo, List.flatMap_cons]

end AddTo

def ServiceLogSnapshot.toBytes : ServiceLogSnapshot → List UInt8
  | .bytes b => b
  | .events es => bytesOf es

/-- The bytes of the events of a service among the messages. -/
def eventBytes (name : String) (msgs : List FollowForwardMsg) : List UInt8 :=
  msgs.flatMap fun
    | .event serviceName event => if serviceName = name then event.bytes else []
    | .lagged _ _ => []

/-- A predicate that holds after a chunk of `bytes` for the content with these
bytes, and does not look at the service last named. -/
structure SendRule (r : LogsCall) (P : (String → List UInt8) → Forwarder → Prop) : Prop where
  chunk : ∀ content f name streamKind bytes isLast timestampUnixMs, P content f →
    ∃ f', r.sendSingleLogChunk name streamKind bytes isLast timestampUnixMs f = (.ok (), f') ∧
      P (addTo content name bytes) f'
  name : ∀ content f lastName, P content f → P content { f with lastName := lastName }

/-- A writing function succeeds, and what it sends adds up to `content`. -/
def Sends (P : (String → List UInt8) → Forwarder → Prop) (content : String → List UInt8)
    (s : Sending) : Prop :=
  ∃ f, s = (.ok (), f) ∧ P content f

section SendRule

variable {r : LogsCall} {P : (String → List UInt8) → Forwarder → Prop}
  {content content' : String → List UInt8} {f : Forwarder}

theorem Sends.andThen {s : Sending} {next : Forwarder → Sending} (h : Sends P content s)
    (hnext : ∀ f, P content f → Sends P content' (next f)) : Sends P content' (s.andThen next) := by
  obtain ⟨f, rfl, hf⟩ := h
  exact hnext f hf

theorem sends_sendEach {α : Type} {body : α → Forwarder → Sending}
    (add : (String → List UInt8) → α → String → List UInt8)
    (hbody : ∀ x content f, P content f → Sends P (add content x) (body x f)) (xs : List α)
    (hf : P content f) : Sends P (xs.foldl add content) (sendEach body xs f) := by
  induction xs generalizing content f with
  | nil => exact ⟨f, rfl, hf⟩
  | cons x xs ih => exact (hbody x content f hf).andThen fun f hf => ih hf

theorem SendRule.sendLogDataChunks (h : SendRule r P) (name : String) (streamKind : LogStreamKind)
    (bytes : List UInt8) (timestampUnixMs : Option Nat) (hf : P content f) :
    Sends P (addTo content name bytes)
      (r.sendLogDataChunks name streamKind bytes timestampUnixMs f) := by
  unfold LogsCall.sendLogDataChunks
  split
  · next hempty =>
    rw [hempty, addTo_nil]
    exact ⟨f, rfl, hf⟩
  · have hloop := sends_sendEach (fun content chunk => addTo content name (id chunk))
      (fun chunk content f hf => h.chunk content f name streamKind chunk false timestampUnixMs hf)
      (chunks logStreamChunkBytes bytes) hf
    rw [foldl_addTo, List.flatMap_id,
      flatten_chunks (by decide : 0 < logStreamChunkBytes)] at hloop
    exact hloop.andThen fun f hf => ⟨_, rfl, h.name _ _ _ hf⟩

theorem SendRule.sendSnapshot (h : SendRule r P) (subscription : ServiceLogSubscription)
    (hf : P content f) :
    Sends P (addTo content subscription.serviceName subscription.snapshot.toBytes)
      (r.sendSnapshot subscription f) := by
  unfold LogsCall.sendSnapshot
  split
  · next bytes hsnapshot =>
    rw [hsnapshot]
    exact h.sendLogDataChunks _ _ _ _ hf
  · next events hsnapshot =>
    rw [hsnapshot]
    split
    · have hloop := sends_sendEach
        (fun content (event : ServiceLogEvent) =>
          addTo content subscription.serviceName event.bytes)
        (fun event content f hf => h.sendLogDataChunks subscription.serviceName .composite
          event.bytes (some event.timestampUnixMs) hf) events hf
      rw [foldl_addTo] at hloop
      exact hloop
    · exact h.sendLogDataChunks _ _ _ _ hf

end SendRule

/-- The snapshots, one service after the other. -/
def LogsCall.snapshotContent (r : LogsCall) : String → List UInt8 :=
  r.subscriptions.foldl
    (fun content s => addTo content s.serviceName s.snapshot.toBytes) fun _ => []

section SnapshotContent

theorem foldl_snapshots_of_notMem {name : String} {subs : List ServiceLogSubscription}
    {content : String → List UInt8} (h : name ∉ subs.map (·.serviceName)) :
    subs.foldl (fun content s => addTo content s.serviceName s.snapshot.toBytes) content name =
      content name := by
  induction subs generalizing content with
  | nil => rfl
  | cons s subs ih =>
    rw [List.map_cons, List.mem_cons, not_or] at h
    rw [List.foldl_cons, ih h.2, addTo_of_ne _ _ h.1]

theorem foldl_snapshots_of_mem {subs : List ServiceLogSubscription} {s : ServiceLogSubscription}
    {content : String → List UInt8} (hnodup : (subs.map (·.serviceName)).Nodup) (hs : s ∈ subs) :
    subs.foldl (fun content s => addTo content s.serviceName s.snapshot.toBytes) content
        s.serviceName = content s.serviceName ++ s.snapshot.toBytes := by
  induction subs generalizing content with
  | nil => cases hs
  | cons t subs ih =>
    rw [List.map_cons, List.nodup_cons] at hnodup
    rw [List.foldl_cons]
    rcases List.mem_cons.mp hs with rfl | hs
    · rw [foldl_snapshots_of_notMem hnodup.1, addTo_self]
    · have hne : s.serviceName ≠ t.serviceName := by
        intro heq
        exact hnodup.1 (heq ▸ List.mem_map_of_mem hs)
      rw [ih hnodup.2 hs, addTo_of_ne _ _ hne]

/-- The bytes sent for a service before the loop are its snapshot. -/
theorem LogsCall.snapshotContent_eq (r : LogsCall) {s : ServiceLogSubscription}
    (hs : s ∈ r.subscriptions) : r.snapshotContent s.serviceName = s.snapshot.toBytes := by
  rw [snapshotContent, foldl_snapshots_of_mem r.names_nodup hs, List.nil_append]

end SnapshotContent

end Imago
