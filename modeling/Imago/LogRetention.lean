/-
Imago/LogRetention.lean

What is kept of a service's log when its runner ends.  The paths that end a
runner (`stop`, `reap_finished` and `reap_finished_service`, and
`restore_service_after_stop_error`) run beside the two drain tasks of the
service; most of them take a snapshot of the ring and write it to the store of
retained logs, in two steps.

No path waits for the drains, and two branches of the recovery after a failed
stop do not retain at all.  `log_retained`: if the snapshot is taken when both
drains have read their pipe to its end, the two branches are not taken, and the
store keeps what it is given, then the retained log holds the last bytes of
everything the runner wrote, in the order in which it was drained.
-/
import Imago.LogDrain
import Imago.RetainedStore

namespace Imago.LogRetention

/-! ### The model -/

/-- Where the service instance is: in the running map, on the way through
`stop`, or in `retain_composite_snapshot`. -/
inductive Pc
  | running
  | checkExited
  | terminate
  | recover
  | restore
  | killDisplaced
  | retain
  | write (snapshot : List ServiceLogEvent)
  | ended

/-- A service, its log, the call that ends it and the retained store. -/
structure World (Payload : Type) where
  service : String
  logs : Logs
  pc : Pc
  store : RetainedWorld Payload

/-- The service runs, and nothing has been logged or retained. -/
def World.init {Payload : Type} (service : String) (maxBytes : Nat) (retainedDir : String)
    (capacityBytes : Nat) : World Payload where
  service := service
  logs := .init maxBytes
  pc := .running
  store := .init retainedDir capacityBytes

/-- What a step of an ending path takes from outside: whether `try_wait` fails,
the outcome of ending the child, whether the running map has another entry for
the service by now, and what the retained write meets. -/
structure Input (Payload : Type) where
  tryWaitFails : Bool
  killed : Except ImagodError Unit
  displaced : Bool
  upsert : UpsertInput Payload

/-- A step of the log, of the path that ends the service, or of another service. -/
inductive Action (Payload : Type)
  | log (a : LogAction)
  | stop
  /-- one of the reapers looks at the service -/
  | reap (tryWaitFails : Bool)
  | proceed (input : Input Payload)
  /-- the log of another service is retained -/
  | otherUpsert (call : UpsertCall Payload)

section Model

variable {Payload : Type} (c : RetainedCrates Payload)

/-- `try_wait` reports an exit status. -/
def World.exited (w : World Payload) (tryWaitFails : Bool) : Bool := !tryWaitFails && !w.logs.alive

/-- The child has been killed and waited for. -/
def World.kill (w : World Payload) : World Payload :=
  { w with logs := { w.logs with alive := false } }

/-- One step of the path that ends the runner. -/
def proceed (w : World Payload) (input : Input Payload) : Option (World Payload) :=
  match w.pc with
  | .checkExited =>
    if w.exited input.tryWaitFails then some { w with pc := .retain }
    else some { w with pc := .terminate }
  | .terminate =>
    match input.killed with
    | .ok () => some { w.kill with pc := .retain }
    | .error _ => some { w with pc := .recover }
  | .recover =>
    -- the log of a runner that has exited here is not retained
    if w.exited input.tryWaitFails then some { w with pc := .ended }
    else some { w with pc := .restore }
  | .restore =>
    if input.displaced then some { w with pc := .killDisplaced }
    else some { w with pc := .running }
  | .killDisplaced =>
    match input.killed with
    | .ok () => some { w.kill with pc := .ended }
    | .error _ => some { w with pc := .ended }
  | .retain => some { w with pc := .write w.logs.ring.events }
  | .write snapshot =>
    -- an error is printed and forgotten
    some { w with
      store := (upsert c w.store w.service snapshot input.upsert).2
      pc := .ended }
  | .running | .ended => none

/-- One step of the world, if it is possible. -/
def step (w : World Payload) : Action Payload → Option (World Payload)
  | .log a => (logStep w.logs a).map fun logs => { w with logs := logs }
  | .stop =>
    match w.pc with
    | .running => some { w with pc := .checkExited }
    | _ => none
  | .reap tryWaitFails =>
    match w.pc with
    | .running => if w.exited tryWaitFails then some { w with pc := .retain } else none
    | _ => none
  | .proceed input => proceed c w input
  | .otherUpsert call =>
    match w.pc with
    | .ended => none
    | _ =>
      if call.serviceName = w.service then none
      else some { w with
        store := (upsert c w.store call.serviceName call.events call.input).2 }

/-- All that the runner wrote has been drained, and the retained log holds the
last bytes of it. -/
structure LogRetained (w : World Payload) : Prop where
  drained : ∀ stream, bytesOf (w.logs.drained.filter fun e => e.stream = stream) =
    w.logs.written stream
  retained : ∃ events, snapshotEvents c w.store w.service none = .ok (some events) ∧
    bytesOf events = (bytesOf w.logs.drained).rtake w.logs.ring.maxBytes

/-- Both drains have come to the end of their pipe. -/
def Drained (l : Logs) : Prop := ∀ stream, (l.drain stream).pc = .finished

/-- The condition: no read fails, a stop that has failed does not find its
runner exited or displaced, the snapshot is taken when both drains are done, and
a retained write meets no failure, is the newest one and fits. -/
def Waits (services : String → Prop) (w : World Payload) : Action Payload → Prop
  | .log (.readError _) => False
  | .otherUpsert call => services call.serviceName ∧ Smooth w.store call
  | .proceed input =>
    match w.pc with
    | .recover => w.exited input.tryWaitFails = false
    | .restore => input.displaced = false
    | .retain => Drained w.logs
    | .write snapshot =>
      Smooth w.store ⟨w.service, snapshot, input.upsert⟩ ∧
        ∃ payload, c.encode ⟨storedRetainedLogVersion, w.service, snapshot⟩ = .ok payload ∧
          c.len payload ≤ w.store.store.capacityBytes
    | _ => True
  | _ => True

end Model

/-! ### The invariant -/

variable {a : LogAction}

section Invariant

variable {Payload : Type} {c : RetainedCrates Payload} {services : String → Prop}
  {w w' : World Payload} {l l' : Logs}

/-- The snapshot is taken of a drained log, and it is retained when the path ends. -/
structure Inv (c : RetainedCrates Payload) (services : String → Prop) (w : World Payload) :
    Prop where
  flow : Flow w.logs
  /-- a drain that has finished has read everything -/
  finished : ∀ stream, (w.logs.drain stream).pc = .finished →
    (w.logs.drain stream).pipe = [] ∧ w.logs.alive = false
  snapshot : ∀ snapshot, w.pc = .write snapshot → Drained w.logs ∧ snapshot = w.logs.ring.events
  notDisplaced : w.pc ≠ .killDisplaced
  ended : w.pc = .ended → Drained w.logs ∧
    snapshotEvents c w.store w.service none = .ok (some w.logs.ring.events)
  known : services w.service
  indexed : Indexed c services w.store

/-- When both drains are done nothing happens to the log any more. -/
theorem logStep_of_drained (hd : Drained l) (hdead : l.alive = false)
    (hstep : logStep l a = some l') : l' = l := by
  have hpc : ∀ stream pipe pc, l.drain stream = ⟨pipe, pc⟩ → pc = .finished := by
    intro stream pipe pc heq
    have := hd stream
    rwa [heq] at this
  cases a <;> simp only [logStep] at hstep
  case output =>
    rw [hdead] at hstep
    cases hstep
  case exit =>
    cases hstep
    rw [← hdead]
  case read | push | send | eof | readError =>
    split at hstep
    · next heq => cases hpc _ _ _ heq
    · cases hstep

/-- Drains finish at the end of their pipe only. -/
theorem finished_logStep (hread : ∀ stream, a ≠ .readError stream)
    (h : ∀ stream, (l.drain stream).pc = .finished → (l.drain stream).pipe = [] ∧ l.alive = false)
    (hstep : logStep l a = some l') :
    ∀ stream, (l'.drain stream).pc = .finished →
      (l'.drain stream).pipe = [] ∧ l'.alive = false := by
  intro s hs
  cases a <;> simp only [logStep] at hstep
  case exit =>
    cases hstep
    exact ⟨(h s hs).1, rfl⟩
  case output stream bytes =>
    split at hstep
    · next halive =>
      cases hstep
      change ((l.setDrain stream _).drain s).pc = _ at hs
      by_cases heq : s = stream
      · subst heq
        rw [setDrain_self] at hs
        rw [(h s hs).2] at halive
        cases halive
      · rw [setDrain_ne _ _ heq] at hs
        rw [(h s hs).2] at halive
        cases halive
    · cases hstep
  case readError stream => exact absurd rfl (hread stream)
  case eof stream =>
    split at hstep
    · split at hstep
      · cases hstep
      · next hdead =>
        cases hstep
        by_cases heq : s = stream
        · subst heq
          rw [setDrain_self]
          exact ⟨rfl, Bool.eq_false_iff.mpr hdead⟩
        · rw [setDrain_ne _ _ heq] at hs ⊢
          exact h s hs
    · cases hstep
  case read stream n now =>
    split at hstep
    · split at hstep
      · cases hstep
        by_cases heq : s = stream
        · subst heq
          rw [setDrain_self] at hs
          cases hs
        · rw [setDrain_ne _ _ heq] at hs ⊢
          exact h s hs
      · cases hstep
    · cases hstep
  case push stream | send stream =>
    split at hstep
    · cases hstep
      change ((l.setDrain stream _).drain s).pc = _ at hs
      show ((l.setDrain stream _).drain s).pipe = [] ∧ _
      by_cases heq : s = stream
      · subst heq
        rw [setDrain_self] at hs
        cases hs
      · rw [setDrain_ne _ _ heq] at hs ⊢
        exact h s hs
    · cases hstep

theorem Inv.log (h : Inv c services w) (hok : Waits c services w (.log a))
    (hstep : logStep w.logs a = some l') : Inv c services { w with logs := l' } := by
  have hread : ∀ stream, a ≠ .readError stream := by
    rintro stream rfl
    exact hok
  -- a log that is complete stays as it is
  have hsame : Drained w.logs → l' = w.logs := fun hd =>
    logStep_of_drained hd (h.finished .stdout (hd .stdout)).2 hstep
  constructor
  · exact h.flow.step hstep
  · exact finished_logStep hread h.finished hstep
  · intro snapshot hpc
    have hsnap := h.snapshot snapshot hpc
    show Drained l' ∧ snapshot = l'.ring.events
    rw [hsame hsnap.1]
    exact hsnap
  · exact h.notDisplaced
  · intro hpc
    have hend := h.ended hpc
    show Drained l' ∧ snapshotEvents c w.store w.service none = .ok (some l'.ring.events)
    rw [hsame hend.1]
    exact hend
  · exact h.known
  · exact h.indexed

/-- A step that only moves on to a point of the path where nothing is claimed. -/
theorem Inv.move (h : Inv c services w) {pc : Pc} (hwrite : ∀ snapshot, pc ≠ .write snapshot)
    (hdisplaced : pc ≠ .killDisplaced) (hended : pc ≠ .ended) :
    Inv c services { w with pc := pc } :=
  ⟨h.flow, h.finished, fun s hs => absurd hs (hwrite s), hdisplaced, fun he => absurd he hended,
    h.known, h.indexed⟩

theorem Inv.kill (h : Inv c services w) (hpc : w.pc = .terminate) : Inv c services w.kill where
  flow := ⟨h.flow.written, h.flow.pushing, h.flow.ring⟩
  finished stream hs := ⟨(h.finished stream hs).1, rfl⟩
  snapshot s hs := by
    change w.pc = _ at hs
    rw [hpc] at hs
    cases hs
  notDisplaced := h.notDisplaced
  ended he := by
    change w.pc = _ at he
    rw [hpc] at he
    cases he
  known := h.known
  indexed := h.indexed

section

variable (hstem : DistinctStems c services) (h : Inv c services w)

include hstem h

/-- The retained write. -/
theorem Inv.write {snapshot : List ServiceLogEvent} (hpc : w.pc = .write snapshot)
    {input : Input Payload}
    (hsmooth : Smooth w.store ⟨w.service, snapshot, input.upsert⟩) {payload : Payload}
    (henc : c.encode ⟨storedRetainedLogVersion, w.service, snapshot⟩ = .ok payload)
    (hfits : c.len payload ≤ w.store.store.capacityBytes) :
    Inv c services { w with
      store := (upsert c w.store w.service snapshot input.upsert).2
      pc := .ended } := by
  obtain ⟨hdrained, rfl⟩ := h.snapshot snapshot hpc
  rcases upsert_spec hstem h.indexed (a := ⟨w.service, w.logs.ring.events, input.upsert⟩) h.known
    hsmooth with ⟨err, e, herr, -⟩ | ⟨payload', w₁, w₂, -, heq, -, -, hix, -⟩
  · cases henc.symm.trans herr
  have hkept := h.indexed.kept hstem (a := ⟨w.service, w.logs.ring.events, input.upsert⟩) h.known
    hsmooth heq
  rw [heq]
  refine ⟨h.flow, h.finished, nofun, nofun, fun _ => ⟨hdrained, ?_⟩, h.known, hix⟩
  rcases hkept.readable with hread | ⟨payload'', henc'', hlt⟩
  · exact hread
  · cases henc.symm.trans henc''
    exact absurd hlt (Nat.not_lt.mpr hfits)

/-- The path that ends the runner. -/
theorem Inv.proceed {input : Input Payload} (hok : Waits c services w (.proceed input))
    (hstep : LogRetention.proceed c w input = some w') : Inv c services w' := by
  unfold Waits at hok
  unfold LogRetention.proceed at hstep
  split at hstep
  · -- checkExited
    split at hstep <;> cases hstep <;> exact h.move nofun nofun nofun
  · next hpc =>
    split at hstep <;> cases hstep
    · exact (h.kill hpc).move nofun nofun nofun
    · exact h.move nofun nofun nofun
  · next hpc =>
    rw [hpc] at hok
    rw [show w.exited input.tryWaitFails = false from hok] at hstep
    cases hstep
    exact h.move nofun nofun nofun
  · next hpc =>
    rw [hpc] at hok
    rw [show input.displaced = false from hok] at hstep
    cases hstep
    exact h.move nofun nofun nofun
  · next hpc => exact absurd hpc h.notDisplaced
  · next hpc =>
    rw [hpc] at hok
    cases hstep
    refine ⟨h.flow, h.finished, fun s hs => ?_, nofun, nofun, h.known, h.indexed⟩
    cases hs
    exact ⟨hok, rfl⟩
  · next snapshot hpc =>
    rw [hpc] at hok
    obtain ⟨hsmooth, payload, henc, hfits⟩ := hok
    cases hstep
    exact h.write hstem hpc hsmooth henc hfits
  · cases hstep
  · cases hstep

theorem Inv.step {a : Action Payload}
    (hok : Waits c services w a) (hstep : LogRetention.step c w a = some w') :
    Inv c services w' := by
  cases a with
  | log a =>
    obtain ⟨l', hlog, rfl⟩ := Option.map_eq_some_iff.mp hstep
    exact h.log hok hlog
  | stop =>
    simp only [LogRetention.step] at hstep
    split at hstep <;> cases hstep
    exact h.move nofun nofun nofun
  | reap fails =>
    simp only [LogRetention.step] at hstep
    split at hstep
    · split at hstep <;> cases hstep
      exact h.move nofun nofun nofun
    · cases hstep
  | proceed input => exact h.proceed hstem hok hstep
  | otherUpsert call =>
    simp only [LogRetention.step] at hstep
    split at hstep
    · cases hstep
    · next hpc =>
      split at hstep <;> cases hstep
      exact ⟨h.flow, h.finished, h.snapshot, h.notDisplaced, fun he => absurd he hpc, h.known,
        h.indexed.step hstem hok.1 hok.2 rfl⟩

end

theorem inv_init {service : String} {maxBytes capacityBytes : Nat} {retainedDir : String}
    (hservice : services service) :
    Inv c services (.init service maxBytes retainedDir capacityBytes) where
  flow := flow_init maxBytes
  finished _ hs := nomatch hs
  snapshot _ hs := nomatch hs
  notDisplaced := nofun
  ended he := nomatch he
  known := hservice
  indexed := indexed_init retainedDir capacityBytes

theorem Inv.logRetained (h : Inv c services w) (hend : w.pc = .ended) : LogRetained c w := by
  obtain ⟨hdrained, hread⟩ := h.ended hend
  refine ⟨fun stream => ?_, _, hread, h.flow.ring⟩
  rw [h.flow.written stream, (h.finished stream (hdrained stream)).1, hdrained stream]
  simp [DrainPc.held]

end Invariant

/-- **The retained log is the end of what was written**: in every run (any
interleaving of the runner's output, the two drains, the paths that end the
runner and the retained writes of other services) whose steps meet the
condition, when the path is over all that the runner wrote has been drained, and
the retained log holds the last bytes of it that fit into the ring. -/
theorem log_retained {Payload : Type} (c : RetainedCrates Payload) (services : String → Prop)
    (hstem : DistinctStems c services) (service : String) (hservice : services service)
    (maxBytes : Nat) (retainedDir : String) (capacityBytes : Nat) (as : List (Action Payload))
    (w : World Payload)
    (hok : RunMeets (step c) (Waits c services) (.init service maxBytes retainedDir capacityBytes)
      as)
    (hrun : run (step c) (.init service maxBytes retainedDir capacityBytes) as = some w)
    (hend : w.pc = .ended) : LogRetained c w := by
  have hinv : Inv c services w :=
    run_invariant_of_meets (fun _ _ _ hinv hok hstep => hinv.step hstem hok hstep) hok hrun
      (inv_init hservice)
  exact hinv.logRetained hend

/-! ### Runs -/

section Sample

/-- The service `a`, with a ring and a store of this size. -/
def sampleWorld : World StoredRetainedLog := .init "a" 64 "/var/retained-logs" 128

/-- A step that nothing goes wrong in, at time `now`. -/
def smoothInput (now : Nat) : Input StoredRetainedLog := ⟨false, .ok (), false, .smooth now⟩

/-- One byte of output is read and appended. -/
def drainOne : List (Action StoredRetainedLog) :=
  [.log (.output .stdout [7]), .log (.read .stdout 1 3), .log (.push .stdout),
    .log (.send .stdout)]

/-- The runner crashes, both drains finish, the reaper takes the snapshot. -/
def crash : List (Action StoredRetainedLog) :=
  drainOne ++ [.log .exit, .log (.eof .stdout), .log (.eof .stderr), .reap false,
    .proceed (smoothInput 5)]

/-- The drain task has ended. -/
def DrainPc.isFinished : DrainPc → Bool
  | .finished => true
  | _ => false

/-- The service has been retained. -/
def Pc.isEnded : Pc → Bool
  | .ended => true
  | _ => false

theorem Pc.eq_ended {pc : Pc} (h : pc.isEnded = true) : pc = .ended := by
  cases pc <;> first | rfl | cases h

/-- A test of the condition up to the retained write. -/
def waitsTest (w : World StoredRetainedLog) : Action StoredRetainedLog → Bool
  | .log (.readError _) | .otherUpsert _ => false
  | .proceed _ =>
    match w.pc with
    | .retain =>
      DrainPc.isFinished (w.logs.drain .stdout).pc &&
        DrainPc.isFinished (w.logs.drain .stderr).pc
    | _ => false
  | _ => true

theorem waits_of_waitsTest {services : String → Prop} {w : World StoredRetainedLog}
    {a : Action StoredRetainedLog} (h : waitsTest w a = true) :
    Waits sampleCrates services w a := by
  have hfinished : ∀ {pc : DrainPc}, DrainPc.isFinished pc = true → pc = .finished := by
    rintro (_ | _ | _ | _) hpc <;> first | rfl | cases hpc
  cases a with
  | log a =>
    cases a with
    | readError stream => cases h
    | output | exit | read | push | send | eof => trivial
  | stop | reap => trivial
  | otherUpsert call => cases h
  | proceed input =>
    unfold waitsTest at h
    unfold Waits
    dsimp only at h ⊢
    split at h
    · next hpc =>
      rw [hpc]
      obtain ⟨hout, herr⟩ := Bool.and_eq_true_iff.mp h
      rintro (_ | _)
      · exact hfinished hout
      · exact hfinished herr
    · cases h

/-- What the retained log of the service holds. -/
def retainedBytes (w : World StoredRetainedLog) : Option (List UInt8) :=
  match snapshotEvents sampleCrates w.store w.service none with
  | .ok (some events) => some (bytesOf events)
  | _ => none

theorem LogRetained.retainedBytes_eq {w : World StoredRetainedLog}
    (h : LogRetained sampleCrates w) :
    retainedBytes w = some ((bytesOf w.logs.drained).rtake w.logs.ring.maxBytes) := by
  obtain ⟨events, hread, hbytes⟩ := h.retained
  rw [retainedBytes, hread]
  exact congrArg some hbytes

theorem log_retained_crash :
    ∃ w, run (step sampleCrates) sampleWorld (crash ++ [.proceed (smoothInput 5)]) = some w ∧
      LogRetained sampleCrates w ∧ retainedBytes w = some [7] := by
  have hcrash : (run (step sampleCrates) sampleWorld crash).map (fun w =>
      (w.service, match w.pc with | .write s => some s | _ => none, w.store.store.capacityBytes,
        w.store.store.entries.toList.length)) =
      some ("a", some [⟨.stdout, [7], 3⟩], 128, 0) := by
    decide +kernel
  obtain ⟨w₁, hrun₁, hw₁⟩ := Option.map_eq_some_iff.mp hcrash
  simp only [Prod.mk.injEq] at hw₁
  obtain ⟨hservice, hpc, hcap, hempty⟩ := hw₁
  replace hpc : w₁.pc = .write [⟨.stdout, [7], 3⟩] := by
    split at hpc
    · next s hs => rw [hs, Option.some.inj hpc]
    · cases hpc
  have hok : RunMeets (step sampleCrates) (Waits sampleCrates fun n => n = "a") sampleWorld
      (crash ++ [.proceed (smoothInput 5)]) := by
    have htest : meetsBy (step sampleCrates) waitsTest sampleWorld crash = true := by
      decide +kernel
    refine (runMeets_concat hrun₁).mpr ⟨.of_meetsBy (fun _ _ => waits_of_waitsTest) htest, ?_⟩
    unfold Waits
    dsimp only
    rw [hpc]
    refine ⟨smooth_of_all ?_ (by rw [List.length_eq_zero_iff.mp hempty]; rfl), _, rfl, ?_⟩
    · rw [hservice]
      decide +kernel
    · rw [hcap, hservice]
      decide
  have hend : (run (step sampleCrates) sampleWorld (crash ++ [.proceed (smoothInput 5)])).map
      (fun w => (w.pc.isEnded, retainedBytes w)) = some (true, some [7]) := by
    decide +kernel
  obtain ⟨w, hrun, hw⟩ := Option.map_eq_some_iff.mp hend
  obtain ⟨hended, hbytes⟩ := Prod.mk.inj hw
  refine ⟨w, hrun, ?_, hbytes⟩
  exact log_retained sampleCrates (fun n => n = "a") (fun m n hm hn _ => hm.trans hn.symm) "a" rfl
    64 "/var/retained-logs" 128 _ w hok hrun (Pc.eq_ended hended)

/-- A run at whose end something else is retained than the byte that was drained. -/
theorem exists_not_logRetained {as : List (Action StoredRetainedLog)} {r : Option (List UInt8)}
    (h : (run (step sampleCrates) sampleWorld as).map (fun w =>
      (w.pc.isEnded, retainedBytes w, bytesOf w.logs.drained, w.logs.ring.maxBytes)) =
      some (true, r, [7], 64)) (hr : r ≠ some [7]) :
    ∃ w, run (step sampleCrates) sampleWorld as = some w ∧ w.pc = .ended ∧
      ¬ LogRetained sampleCrates w := by
  obtain ⟨w, hrun, hw⟩ := Option.map_eq_some_iff.mp h
  simp only [Prod.mk.injEq] at hw
  obtain ⟨hended, hbytes, hdrained, hmax⟩ := hw
  refine ⟨w, hrun, Pc.eq_ended hended, fun hkept => hr ?_⟩
  rw [← hbytes, hkept.retainedBytes_eq, hdrained, hmax]
  rfl

/-- The reaper is faster than the drain: the byte that the runner wrote before it
crashed is read after the snapshot.  And after a stop that failed, the runner is
found to have exited: nothing is retained at all. -/
theorem log_not_retained :
    (∃ w, run (step sampleCrates) sampleWorld
        ([.log (.output .stdout [7]), .log .exit, .reap false, .proceed (smoothInput 5),
          .proceed (smoothInput 5), .log (.read .stdout 1 6), .log (.push .stdout)]) = some w ∧
      w.pc = .ended ∧ ¬ LogRetained sampleCrates w) ∧
    ∃ w, run (step sampleCrates) sampleWorld
        (drainOne ++ [.stop, .proceed (smoothInput 5),
          .proceed { smoothInput 5 with killed := .error (.new .internal "service.stop" "failed") },
          .log .exit, .log (.eof .stdout), .log (.eof .stderr), .proceed (smoothInput 5)]) =
        some w ∧
      w.pc = .ended ∧ ¬ LogRetained sampleCrates w :=
  ⟨exists_not_logRetained (r := some []) (by decide +kernel) (by decide),
    exists_not_logRetained (r := none) (by decide +kernel) (by decide)⟩

end Sample

end Imago.LogRetention
