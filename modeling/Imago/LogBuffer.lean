/-
Imago/LogBuffer.lean

The in-memory log of a running service: a ring of log events that is bounded by
the number of bytes in it (`BoundedLogEventBuffer`), and the functions that cut
the last lines out of a list of events.

A ring carries what `push` maintains (the running total is the number of bytes
kept, which is at most the bound, and no event is empty), so that these facts
are not proved again where a ring is used.  `bytesOf_pushAll`: after any number
of pushes the ring holds the last bytes of everything that was pushed.
-/
import Mathlib.Data.List.DropRight

namespace Imago

/-- `ServiceLogStream`. -/
inductive ServiceLogStream
  | stdout | stderr
  deriving DecidableEq

/-- `ServiceLogEvent`. -/
structure ServiceLogEvent where
  stream : ServiceLogStream
  bytes : List UInt8
  timestampUnixMs : Nat
  deriving DecidableEq

/-- `ServiceLogSnapshot`. -/
inductive ServiceLogSnapshot
  | bytes (bytes : List UInt8)
  | events (events : List ServiceLogEvent)

/-- `flatten_log_event_bytes`: the bytes of a list of events. -/
def bytesOf (events : List ServiceLogEvent) : List UInt8 := events.flatMap (·.bytes)

@[simp] theorem bytesOf_nil : bytesOf [] = [] := rfl

@[simp] theorem bytesOf_cons (e : ServiceLogEvent) (es : List ServiceLogEvent) :
    bytesOf (e :: es) = e.bytes ++ bytesOf es := rfl

@[simp] theorem bytesOf_append (es fs : List ServiceLogEvent) :
    bytesOf (es ++ fs) = bytesOf es ++ bytesOf fs := List.flatMap_append

/-! ### The last elements of a list -/

section Last

variable {α : Type*} {l : List α} {n : Nat}

theorem rtake_of_length_le (h : l.length ≤ n) : l.rtake n = l := by
  rw [List.rtake, Nat.sub_eq_zero_of_le h, List.drop_zero]

theorem length_rtake_of_le (h : n ≤ l.length) : (l.rtake n).length = n := by
  rw [List.rtake, List.length_drop]
  omega

/-- What is cut off at the front before more is appended was lost anyway. -/
theorem rtake_rtake_append (l m : List α) (n : Nat) :
    (l.rtake n ++ m).rtake n = (l ++ m).rtake n := by
  simp only [List.rtake, List.length_append, List.length_drop, List.drop_append, List.drop_drop]
  congr 2 <;> omega

theorem rtake_append_of_le (l : List α) {m : List α} (h : n ≤ m.length) :
    (l ++ m).rtake n = m.rtake n := by
  rw [List.rtake, List.rtake, List.length_append, List.drop_append,
    List.drop_eq_nil_of_le (by omega), List.nil_append]
  congr 1
  omega

end Last

/-! ### The ring -/

/-- `evict_front_bytes`, with the running total. -/
def evictFrontBytes (total : Nat) : Nat → List ServiceLogEvent → Nat × List ServiceLogEvent
  | 0, events => (total, events)
  | _ + 1, [] => (total, [])
  | n + 1, front :: events =>
    if front.bytes.length ≤ n + 1 then
      evictFrontBytes (total - front.bytes.length) (n + 1 - front.bytes.length) events
    else (total - (n + 1), { front with bytes := front.bytes.drop (n + 1) } :: events)

/-- Eviction drops bytes from the front, and no more than it is asked to. -/
theorem evictFrontBytes_spec (total : Nat) {n : Nat} {events : List ServiceLogEvent}
    (hn : n ≤ (bytesOf events).length) :
    (evictFrontBytes total n events).1 = total - n ∧
      bytesOf (evictFrontBytes total n events).2 = (bytesOf events).drop n := by
  induction events generalizing total n with
  | nil =>
    obtain rfl : n = 0 := Nat.le_zero.mp hn
    exact ⟨rfl, rfl⟩
  | cons front events ih =>
    rcases n with - | n
    · exact ⟨rfl, rfl⟩
    rw [bytesOf_cons, List.length_append] at hn
    rw [evictFrontBytes]
    split
    · next hle =>
      obtain ⟨htotal, hbytes⟩ := ih (total - front.bytes.length)
        (n := n + 1 - front.bytes.length) (by omega)
      refine ⟨by omega, ?_⟩
      rw [hbytes, bytesOf_cons, List.drop_append, List.drop_eq_nil_of_le hle, List.nil_append]
    · next hlt =>
      refine ⟨rfl, ?_⟩
      rw [bytesOf_cons, bytesOf_cons, List.drop_append, Nat.sub_eq_zero_of_le (by omega),
        List.drop_zero]

theorem evictFrontBytes_nonempty {total n : Nat} {events : List ServiceLogEvent}
    (h : ∀ e ∈ events, e.bytes ≠ []) :
    ∀ e ∈ (evictFrontBytes total n events).2, e.bytes ≠ [] := by
  induction events generalizing total n with
  | nil =>
    rcases n with - | n
    · exact h
    · exact h
  | cons front events ih =>
    rcases n with - | n
    · exact h
    rw [evictFrontBytes]
    split
    · exact ih fun e he => h e (.tail _ he)
    · next hlt =>
      intro e he
      rcases List.mem_cons.mp he with rfl | he
      · show front.bytes.drop (n + 1) ≠ []
        rw [Ne, List.drop_eq_nil_iff]
        exact hlt
      · exact h e (.tail _ he)

/-- `BoundedLogEventBuffer`. -/
structure BoundedLogEventBuffer where
  maxBytes : Nat
  totalBytes : Nat
  events : List ServiceLogEvent
  maxBytes_pos : 0 < maxBytes
  total_eq : totalBytes = (bytesOf events).length
  total_le : totalBytes ≤ maxBytes
  nonempty : ∀ e ∈ events, e.bytes ≠ []

namespace BoundedLogEventBuffer

/-- `BoundedLogEventBuffer::new`. -/
def new (maxBytes : Nat) : BoundedLogEventBuffer where
  maxBytes := max maxBytes 1
  totalBytes := 0
  events := []
  maxBytes_pos := by omega
  total_eq := rfl
  total_le := Nat.zero_le _
  nonempty := by simp

/-- The event as it is kept: of more bytes than fit, the last ones. -/
def clipped (maxBytes : Nat) (event : ServiceLogEvent) : ServiceLogEvent :=
  if maxBytes < event.bytes.length then
    { event with bytes := event.bytes.drop (event.bytes.length - maxBytes) }
  else event

theorem bytes_clipped (maxBytes : Nat) (event : ServiceLogEvent) :
    (clipped maxBytes event).bytes = event.bytes.rtake maxBytes := by
  unfold clipped
  split
  · rfl
  · next h => exact (rtake_of_length_le (Nat.le_of_not_lt h)).symm

variable {event : ServiceLogEvent}

theorem clipped_nonempty {maxBytes : Nat} (hpos : 0 < maxBytes) (h : event.bytes ≠ []) :
    (clipped maxBytes event).bytes ≠ [] := by
  have hlen := List.length_pos_iff.mpr h
  rw [bytes_clipped, ← List.length_pos_iff, List.rtake, List.length_drop]
  omega

/-- The part of `push` behind the check for an empty event: append, then evict
what is too much. -/
def append (b : BoundedLogEventBuffer) (event : ServiceLogEvent) : Nat × List ServiceLogEvent :=
  let total := b.totalBytes + event.bytes.length
  if b.maxBytes < total then evictFrontBytes total (total - b.maxBytes) (b.events ++ [event])
  else (total, b.events ++ [event])

section Append

variable {b : BoundedLogEventBuffer} {event : ServiceLogEvent}

theorem append_spec :
    (b.append event).1 = (bytesOf (b.append event).2).length ∧
      bytesOf (b.append event).2 = (bytesOf b.events ++ event.bytes).rtake b.maxBytes := by
  have hbytes : bytesOf (b.events ++ [event]) = bytesOf b.events ++ event.bytes := by simp
  have hlen : (bytesOf b.events ++ event.bytes).length = b.totalBytes + event.bytes.length := by
    rw [List.length_append, b.total_eq]
  unfold append
  dsimp only
  split
  · next hover =>
    have hn : b.totalBytes + event.bytes.length - b.maxBytes ≤
        (bytesOf (b.events ++ [event])).length := by
      rw [hbytes, hlen]
      omega
    have hspec := evictFrontBytes_spec (b.totalBytes + event.bytes.length) hn
    rw [hspec.1, hspec.2, hbytes, List.rtake, List.length_drop, hlen]
    exact ⟨rfl, rfl⟩
  · next hfits =>
    rw [hbytes, hlen]
    exact ⟨rfl, (rtake_of_length_le (by omega)).symm⟩

theorem append_nonempty (h : event.bytes ≠ []) : ∀ e ∈ (b.append event).2, e.bytes ≠ [] := by
  have hall : ∀ e ∈ b.events ++ [event], e.bytes ≠ [] := by
    intro e he
    rcases List.mem_append.mp he with he | he
    · exact b.nonempty e he
    · rw [List.mem_singleton.mp he]
      exact h
  unfold append
  dsimp only
  split
  · exact evictFrontBytes_nonempty hall
  · exact hall

end Append

/-- `push`. -/
def push (b : BoundedLogEventBuffer) (event : ServiceLogEvent) : BoundedLogEventBuffer :=
  if h : event.bytes = [] then b
  else
    { maxBytes := b.maxBytes
      totalBytes := (b.append (clipped b.maxBytes event)).1
      events := (b.append (clipped b.maxBytes event)).2
      maxBytes_pos := b.maxBytes_pos
      total_eq := append_spec.1
      total_le := by
        rw [append_spec.1, append_spec.2, List.rtake, List.length_drop]
        omega
      nonempty := append_nonempty (clipped_nonempty b.maxBytes_pos h) }

@[simp] theorem maxBytes_push (b : BoundedLogEventBuffer) (event : ServiceLogEvent) :
    (b.push event).maxBytes = b.maxBytes := by
  unfold push
  split <;> rfl

/-- The ring keeps the last bytes. -/
theorem bytesOf_push (b : BoundedLogEventBuffer) (event : ServiceLogEvent) :
    bytesOf (b.push event).events = (bytesOf b.events ++ event.bytes).rtake b.maxBytes := by
  unfold push
  split
  · next h =>
    have hle : (bytesOf b.events).length ≤ b.maxBytes := b.total_eq ▸ b.total_le
    rw [h, List.append_nil, rtake_of_length_le hle]
  · show bytesOf (b.append (clipped b.maxBytes event)).2 = _
    rw [append_spec.2, bytes_clipped]
    -- either nothing was clipped, or the clipped event fills the ring
    rcases Nat.le_total event.bytes.length b.maxBytes with hle | hle
    · rw [rtake_of_length_le hle]
    · rw [rtake_append_of_le _ hle,
        rtake_append_of_le _ (length_rtake_of_le hle).ge,
        rtake_of_length_le (length_rtake_of_le hle).le]

/-- `push`, one event after the other. -/
def pushAll (b : BoundedLogEventBuffer) (events : List ServiceLogEvent) : BoundedLogEventBuffer :=
  events.foldl push b

theorem bytesOf_pushAll (b : BoundedLogEventBuffer) (events : List ServiceLogEvent) :
    bytesOf (b.pushAll events).events = (bytesOf b.events ++ bytesOf events).rtake b.maxBytes := by
  induction events generalizing b with
  | nil =>
    rw [bytesOf_nil, List.append_nil, rtake_of_length_le (b.total_eq ▸ b.total_le)]
    rfl
  | cons e es ih =>
    show bytesOf ((b.push e).pushAll es).events = _
    rw [ih, bytesOf_push, maxBytes_push, rtake_rtake_append, bytesOf_cons, List.append_assoc]

/-- Without an overflow the ring keeps the events themselves. -/
theorem events_push_of_le {b : BoundedLogEventBuffer} (hne : event.bytes ≠ [])
    (hle : b.totalBytes + event.bytes.length ≤ b.maxBytes) :
    (b.push event).events = b.events ++ [event] := by
  have hclip : clipped b.maxBytes event = event := if_neg (by omega)
  unfold push
  rw [dif_neg hne]
  show (b.append (clipped b.maxBytes event)).2 = _
  rw [hclip, append]
  exact congrArg Prod.snd (if_neg (by omega))

end BoundedLogEventBuffer

/-! ### The last lines -/

/-- What `compute_tail_start_offset_by_lines` has seen: the starts of the last
lines, how many lines there are, and the offset of the next byte. -/
structure LineScan where
  recent : List Nat
  count : Nat
  index : Nat

/-- One byte of the scan. -/
def LineScan.next (limit totalBytes : Nat) (scan : LineScan) (byte : UInt8) : LineScan :=
  if byte = 10 ∧ scan.index + 1 < totalBytes then
    let recent := scan.recent ++ [scan.index + 1]
    { recent := if limit < recent.length then recent.drop 1 else recent
      count := scan.count + 1
      index := scan.index + 1 }
  else { scan with index := scan.index + 1 }

/-- `compute_tail_start_offset_by_lines`. -/
def computeTailStartOffsetByLines (events : List ServiceLogEvent) (totalBytes tailLines : Nat) :
    Nat :=
  if tailLines = 0 ∨ totalBytes = 0 then totalBytes
  else
    let limit := max (min tailLines (totalBytes + 1)) 1
    let scan := (bytesOf events).foldl (LineScan.next limit totalBytes) ⟨[0], 1, 0⟩
    if scan.count ≤ tailLines then 0 else scan.recent.head?.getD 0

/-- `materialize_bytes_from_offset`. -/
def materializeBytesFromOffset : List ServiceLogEvent → Nat → Nat → List UInt8
  | [], _, _ => []
  | event :: events, offset, remaining =>
    if remaining = 0 then []
    else if event.bytes.length ≤ offset then
      materializeBytesFromOffset events (offset - event.bytes.length) remaining
    else
      let take := min (event.bytes.length - offset) remaining
      (event.bytes.drop offset).take take ++
        materializeBytesFromOffset events 0 (remaining - take)

/-- `slice_events_from_offset`. -/
def sliceEventsFromOffset : List ServiceLogEvent → Nat → Nat → List ServiceLogEvent
  | [], _, _ => []
  | event :: events, offset, remaining =>
    if remaining = 0 then []
    else if event.bytes.length ≤ offset then
      sliceEventsFromOffset events (offset - event.bytes.length) remaining
    else
      let take := min (event.bytes.length - offset) remaining
      (if 0 < take then [{ event with bytes := (event.bytes.drop offset).take take }] else []) ++
        sliceEventsFromOffset events 0 (remaining - take)

namespace BoundedLogEventBuffer

def tailStart (b : BoundedLogEventBuffer) (tailLines : Nat) : Nat :=
  computeTailStartOffsetByLines b.events b.totalBytes tailLines

/-- `tail_snapshot_events`. -/
def tailSnapshotEvents (b : BoundedLogEventBuffer) (tailLines : Nat) : List ServiceLogEvent :=
  sliceEventsFromOffset b.events (b.tailStart tailLines) (b.totalBytes - b.tailStart tailLines)

/-- `tail_snapshot_bytes`. -/
def tailSnapshotBytes (b : BoundedLogEventBuffer) (tailLines : Nat) : List UInt8 :=
  materializeBytesFromOffset b.events (b.tailStart tailLines)
    (b.totalBytes - b.tailStart tailLines)

end BoundedLogEventBuffer

section Tail

variable {events : List ServiceLogEvent} {offset remaining : Nat}

/-- All lines start inside the log. -/
theorem mem_recent_le {limit totalBytes : Nat} {bytes : List UInt8} {scan : LineScan}
    (h : ∀ i ∈ scan.recent, i ≤ totalBytes) :
    ∀ i ∈ (bytes.foldl (LineScan.next limit totalBytes) scan).recent, i ≤ totalBytes := by
  induction bytes generalizing scan with
  | nil => exact h
  | cons byte bytes ih =>
    refine ih fun i hi => ?_
    unfold LineScan.next at hi
    split at hi
    · next hnew =>
      have hmem : i ∈ scan.recent ++ [scan.index + 1] := by
        dsimp only at hi
        split at hi
        · exact List.mem_of_mem_drop hi
        · exact hi
      rcases List.mem_append.mp hmem with hmem | hmem
      · exact h i hmem
      · rw [List.mem_singleton.mp hmem]
        exact hnew.2.le
    · exact h i hi

theorem computeTailStartOffsetByLines_le (events : List ServiceLogEvent)
    (totalBytes tailLines : Nat) :
    computeTailStartOffsetByLines events totalBytes tailLines ≤ totalBytes := by
  unfold computeTailStartOffsetByLines
  split
  · exact Nat.le_refl _
  · dsimp only
    split
    · exact Nat.zero_le _
    · generalize hscan : (bytesOf events).foldl _ _ = scan
      have hrecent : ∀ i ∈ scan.recent, i ≤ totalBytes := by
        rw [← hscan]
        exact mem_recent_le (by simp)
      rcases hhead : scan.recent.head? with - | i
      · exact Nat.zero_le _
      · exact hrecent i (List.mem_of_mem_head? hhead)

theorem materializeBytesFromOffset_eq :
    materializeBytesFromOffset events offset remaining =
      ((bytesOf events).drop offset).take remaining := by
  induction events generalizing offset remaining with
  | nil =>
    rw [materializeBytesFromOffset]
    simp
  | cons event events ih =>
    rw [materializeBytesFromOffset, bytesOf_cons]
    split
    · next h => rw [h, List.take_zero]
    · split
      · next hle =>
        rw [ih, List.drop_append, List.drop_eq_nil_of_le hle, List.nil_append]
      · next hlt =>
        have hzero : offset - event.bytes.length = 0 := by omega
        dsimp only
        rw [ih, List.drop_zero, List.drop_append, hzero, List.drop_zero, List.take_append,
          List.length_drop]
        congr 1
        · rw [List.take_eq_take_iff, List.length_drop]
          omega
        · congr 1
          omega

theorem sliceEventsFromOffset_none (events : List ServiceLogEvent) (offset : Nat) :
    sliceEventsFromOffset events offset 0 = [] := by
  cases events <;> rfl

theorem sliceEventsFromOffset_skip (h : event.bytes.length ≤ offset) :
    sliceEventsFromOffset (event :: events) offset remaining =
      sliceEventsFromOffset events (offset - event.bytes.length) remaining := by
  rw [sliceEventsFromOffset, if_pos h]
  split
  · next hzero => rw [hzero, sliceEventsFromOffset_none]
  · rfl

/-- A slice to the end that begins inside an event takes the rest of it. -/
theorem sliceEventsFromOffset_inside (h : offset < event.bytes.length) :
    sliceEventsFromOffset (event :: events) offset
        (event.bytes.length + (bytesOf events).length - offset) =
      { event with bytes := event.bytes.drop offset } ::
        sliceEventsFromOffset events 0 (bytesOf events).length := by
  have hmin : min (event.bytes.length - offset)
      (event.bytes.length + (bytesOf events).length - offset) = event.bytes.length - offset := by
    omega
  have hrest : event.bytes.length + (bytesOf events).length - offset -
      (event.bytes.length - offset) = (bytesOf events).length := by
    omega
  rw [sliceEventsFromOffset, if_neg (by omega), if_neg (by omega)]
  dsimp only
  rw [hmin, if_pos (by omega), hrest, List.take_of_length_le (by rw [List.length_drop])]
  rfl

/-- Nothing is left out of events that are taken whole. -/
theorem sliceEventsFromOffset_zero (h : ∀ e ∈ events, e.bytes ≠ []) :
    sliceEventsFromOffset events 0 (bytesOf events).length = events := by
  induction events with
  | nil => rfl
  | cons event events ih =>
    have hinside := @sliceEventsFromOffset_inside events 0 event
      (List.length_pos_iff.mpr (h event (.head _)))
    rw [Nat.sub_zero, ih fun e he => h e (.tail _ he)] at hinside
    rw [bytesOf_cons, List.length_append]
    exact hinside

/-- What comes after the log is what comes after a slice to its end. -/
theorem sliceEventsFromOffset_append {more : List ServiceLogEvent}
    (hoffset : offset ≤ (bytesOf events).length) (hmore : ∀ e ∈ more, e.bytes ≠ []) :
    sliceEventsFromOffset (events ++ more) offset ((bytesOf (events ++ more)).length - offset) =
      sliceEventsFromOffset events offset ((bytesOf events).length - offset) ++ more := by
  induction events generalizing offset with
  | nil =>
    obtain rfl : offset = 0 := Nat.le_zero.mp hoffset
    exact sliceEventsFromOffset_zero hmore
  | cons event events ih =>
    rw [bytesOf_cons, List.length_append] at hoffset
    rw [List.cons_append, bytesOf_cons, bytesOf_cons, List.length_append, List.length_append]
    rcases Nat.lt_or_ge offset event.bytes.length with hinside | hskip
    · have hih := ih (Nat.zero_le _)
      rw [Nat.sub_zero, Nat.sub_zero] at hih
      rw [sliceEventsFromOffset_inside hinside, sliceEventsFromOffset_inside hinside, hih]
      rfl
    · have hsub : ∀ n, event.bytes.length + n - offset = n - (offset - event.bytes.length) := by
        omega
      rw [sliceEventsFromOffset_skip hskip, sliceEventsFromOffset_skip hskip, hsub, hsub]
      exact ih (by omega)

end Tail

end Imago
