/-
Imago/CommandCancel.lean

The race between `command.start` and `command.cancel`.  For every reachable
state of the server:

* `cancel_decides`: a granted cancel is final (the action is never executed
  and no terminal event but `canceled` is sent), a spawned command is never
  granted a cancel, and a command whose writes succeed sends exactly one
  terminal event;
* `cancel_after_finish_not_found`: a cancel that comes after the command has
  ended is an error and not an answer.

Two invariants carry them: what a stream has done so far fits its program
counter (`Stream.Ok`), and the table holds exactly the entries of the tracked
streams, one each (`Inv`).
-/
import Imago.CommandStart

namespace Imago.Command

open Imago.OperationManager
open Std.TreeMap (getElem?_insert_self)

variable {st st' : Stream} {m m' : OperationManager} {w w' : World}

/-! ### What a stream has done at each point -/

/-- The command's entry is in the table. -/
def Stream.Tracked (st : Stream) : Prop := st.accepted = true ∧ st.removed = false

/-- Nothing was registered, and nothing sent. -/
structure Stream.Fresh (st : Stream) : Prop where
  accepted : st.accepted = false
  transition : st.transition = none
  executed : st.executed = false
  finished : st.finished = false
  removed : st.removed = false
  broken : st.broken = false
  quiet : terminalEvents st.sent = []

/-- The command is registered and has not ended; every write so far went
through. -/
structure Stream.Live (st : Stream) (transition : Option SpawnTransition) (executed : Bool) :
    Prop where
  accepted : st.accepted = true
  transition : st.transition = transition
  executed : st.executed = executed
  finished : st.finished = false
  removed : st.removed = false
  broken : st.broken = false
  quiet : terminalEvents st.sent = []

/-- A failed write has ended the handler before any terminal event; the entry
stays behind in the table. -/
structure Stream.Abandoned (st : Stream) : Prop where
  accepted : st.accepted = true
  executed : st.executed = true → st.transition = some .spawned
  finished : st.finished = false
  removed : st.removed = false
  broken : st.broken = true
  quiet : terminalEvents st.sent = []

/-- The command has ended with `t`, and its terminal event was written or the
write has failed. -/
structure Stream.Closed (st : Stream) (t : Terminal) (written : Except ImagodError Unit) :
    Prop where
  accepted : st.accepted = true
  executed : st.executed = true → st.transition = some .spawned
  decided : st.transition = some (if t.state = .canceled then .canceled else .spawned)
  sent :
    match written with
    | .ok _ => st.broken = false ∧
        ∃ e, terminalEvents st.sent = [e] ∧ e.eventType = t.eventType
    | .error _ => st.broken = true ∧ terminalEvents st.sent = []

/-- What a stream has done so far fits its program counter. -/
def Stream.Ok (st : Stream) : Prop :=
  match st.pc with
  | .received | .start => st.Fresh
  | .respond | .acceptEvent | .setRunning | .startEvent | .markSpawned => st.Live none false
  | .cancelEvent => st.Live (some .canceled) false
  | .execute => st.Live (some .spawned) false
  | .executing | .progressEvent _ _ | .succeedEvent _ => st.Live (some .spawned) true
  | .failEvent _ => ∃ executed, st.Live (some .spawned) executed
  | .finish t written =>
    st.Closed t written ∧ st.finished = false ∧ st.removed = false
  | .remove t written => st.Closed t written ∧ st.finished = true ∧ st.removed = false
  | .purge t written => st.Closed t written ∧ st.finished = true ∧ st.removed = true
  | .returned written =>
    st.Fresh ∨ st.Abandoned ∨
      ∃ t, st.Closed t written ∧ st.finished = true ∧ st.removed = true

/-- The state that the table shows for a tracked stream. -/
def Stream.Shows (st : Stream) (s : CommandState) : Prop :=
  match st.pc with
  | .respond | .acceptEvent | .setRunning => s = .accepted
  | .remove t _ => s = t.state
  | .returned _ => s = .running ∨ (s = .accepted ∧ st.transition = none)
  | _ => s = .running

/-- The entry of a tracked stream: its phase ends with the spawn transition. -/
structure Stream.Matches (st : Stream) (e : OperationEntry) : Prop where
  phase : e.phase = .starting ↔ st.transition = none
  state : st.Shows e.state

theorem terminalEvents_append (as bs : List Message) :
    terminalEvents (as ++ bs) = terminalEvents as ++ terminalEvents bs := by
  induction as with
  | nil => rfl
  | cons a as ih =>
    cases a with
    | response b => exact ih
    | event e =>
      rw [List.cons_append, terminalEvents, terminalEvents, ih]
      split <;> rfl

theorem terminalEvents_terminalEvent (st : Stream) (now : String) (t : Terminal) :
    ∃ e, terminalEvents [st.terminalEvent now t] = [e] ∧ e.eventType = t.eventType := by
  refine ⟨⟨t.eventType, st.operationId, st.request.commandType, now, some t.stage, t.error⟩, ?_,
    rfl⟩
  cases t <;> rfl

variable {now : String} {msg : Message} {next : Pc}

/-- A plain write is that of a live stream, which stays live as it was, and
its message is no terminal event. -/
theorem of_plain_write (hok : st.Ok) (hw : st.pendingWrite now = some (msg, .plain next)) :
    terminalEvents [msg] = [] ∧
      ∃ transition executed, st.Live transition executed ∧
        (executed = true → transition = some .spawned) ∧
        ∀ st₁ : Stream, st₁.pc = next → st₁.Live transition executed → st₁.Ok := by
  unfold Stream.pendingWrite at hw
  unfold Stream.Ok at hok
  split at hw <;> rename_i hpc <;> cases hw <;> simp only [hpc] at hok <;>
    refine ⟨rfl, _, _, hok, by simp, fun st₁ h₁ hlive => ?_⟩ <;>
    (unfold Stream.Ok; rw [h₁]; exact hlive)

variable {t : Terminal}

/-- A terminal event is written by a live stream, and reports how the spawn
transition went. -/
theorem of_terminal_write (hok : st.Ok) (hw : st.pendingWrite now = some (msg, .terminal t)) :
    msg = st.terminalEvent now t ∧
      ∃ executed, (executed = true → t.state ≠ .canceled) ∧
        st.Live (some (if t.state = .canceled then .canceled else .spawned)) executed := by
  unfold Stream.pendingWrite at hw
  unfold Stream.Ok at hok
  split at hw <;> rename_i hpc <;> cases hw <;> simp only [hpc] at hok
  · exact ⟨rfl, false, nofun, hok⟩
  · exact ⟨rfl, true, fun _ => nofun, hok⟩
  · obtain ⟨executed, hlive⟩ := hok
    exact ⟨rfl, executed, fun _ => nofun, hlive⟩

variable {transition : Option SpawnTransition} {executed : Bool}

theorem Stream.Live.tracked (h : st.Live transition executed) :
    st.Tracked := ⟨h.accepted, h.removed⟩

/-- The record does not depend on the program counter. -/
theorem Stream.Live.goto (h : st.Live transition executed) (pc : Pc) :
    ({ st with pc := pc } : Stream).Live transition executed :=
  ⟨h.accepted, h.transition, h.executed, h.finished, h.removed, h.broken, h.quiet⟩

theorem Stream.Live.abandoned (h : st.Live transition executed)
    (hexec : executed = true → transition = some .spawned) (pc : Pc) :
    ({ st with pc := pc, broken := true } : Stream).Abandoned where
  accepted := h.accepted
  executed := fun he => h.transition.trans (hexec (h.executed ▸ he))
  finished := h.finished
  removed := h.removed
  broken := rfl
  quiet := h.quiet

variable {written : Except ImagodError Unit}

/-- A live stream that ends with `t`, its terminal event written or not. -/
theorem Stream.Live.closed
    (hlive : st.Live (some (if t.state = .canceled then .canceled else .spawned)) executed)
    (hexec : executed = true → t.state ≠ .canceled) {pc : Pc} {broken : Bool} {sent : List Message}
    (hsent :
      match written with
      | .ok _ => broken = false ∧ ∃ e, terminalEvents sent = [e] ∧ e.eventType = t.eventType
      | .error _ => broken = true ∧ terminalEvents sent = []) :
    ({ st with pc := pc, broken := broken, sent := sent } : Stream).Closed t written where
  accepted := hlive.accepted
  executed := by
    intro h
    have h : executed = true := hlive.executed ▸ h
    exact hlive.transition.trans (if_neg (hexec h) ▸ rfl)
  decided := hlive.transition
  sent := hsent

/-- Every transition keeps the record in step with the program counter.  The
table enters at one place: a tracked stream always finds its entry. -/
theorem Stream.Ok.moves (hok : st.Ok) (htable : st.Tracked → m[st.operationId]? ≠ none)
    (h : Moves st m st' m') : st'.Ok := by
  have hpcOk := hok
  unfold Stream.Ok at hpcOk
  cases h with
  | refuse hpc e =>
    have hfresh : st.Fresh := by
      rcases hpc with hpc | hpc <;> simpa only [hpc] using hpcOk
    exact .inl ⟨hfresh.1, hfresh.2, hfresh.3, hfresh.4, hfresh.5, hfresh.6, hfresh.7⟩
  | letIn hpc hid =>
    simp only [hpc] at hpcOk
    exact ⟨hpcOk.1, hpcOk.2, hpcOk.3, hpcOk.4, hpcOk.5, hpcOk.6, hpcOk.7⟩
  | start hpc hfree now =>
    simp only [hpc] at hpcOk
    exact ⟨rfl, hpcOk.2, hpcOk.3, hpcOk.4, hpcOk.5, hpcOk.6, hpcOk.7⟩
  | lost hpc hfree e =>
    -- both points belong to a live stream, whose entry cannot be missing
    have hlive : st.Live none false := by
      rcases hpc with hpc | hpc <;> simpa only [hpc] using hpcOk
    exact absurd hfree (htable hlive.tracked)
  | setRunning hpc entry hentry now | succeed hpc p s =>
    simp only [hpc] at hpcOk
    exact hpcOk.goto _
  | cancel hpc entry hentry hflag now | spawn hpc entry hentry hflag now =>
    simp only [hpc] at hpcOk
    exact ⟨hpcOk.1, rfl, hpcOk.3, hpcOk.4, hpcOk.5, hpcOk.6, hpcOk.7⟩
  | execute hpc =>
    simp only [hpc] at hpcOk
    exact ⟨hpcOk.1, hpcOk.2, rfl, hpcOk.4, hpcOk.5, hpcOk.6, hpcOk.7⟩
  | mismatch hpc e =>
    simp only [hpc] at hpcOk
    exact ⟨false, hpcOk.goto _⟩
  | fail hpc e =>
    simp only [hpc] at hpcOk
    exact ⟨true, hpcOk.goto _⟩
  | write hw =>
    obtain ⟨hmsg, transition, executed, hlive, -, hnext⟩ := of_plain_write hok hw
    refine hnext _ rfl ⟨hlive.1, hlive.2, hlive.3, hlive.4, hlive.5, hlive.6, ?_⟩
    show terminalEvents (st.sent ++ [_]) = []
    rw [terminalEvents_append, hlive.quiet, hmsg, List.append_nil]
  | writeFails hw e =>
    obtain ⟨-, transition, executed, hlive, hexec, -⟩ := of_plain_write hok hw
    exact .inr (.inl (hlive.abandoned hexec _))
  | @close now msg t hw =>
    obtain ⟨rfl, executed, hexec, hlive⟩ := of_terminal_write hok hw
    obtain ⟨e, he, htype⟩ := terminalEvents_terminalEvent st now t
    refine ⟨hlive.closed hexec ⟨hlive.broken, e, ?_, htype⟩, hlive.finished,
      hlive.removed⟩
    show terminalEvents (st.sent ++ [_]) = [e]
    rw [terminalEvents_append, hlive.quiet, he, List.nil_append]
  | closeFails hw e =>
    obtain ⟨-, executed, hexec, hlive⟩ := of_terminal_write hok hw
    exact ⟨hlive.closed hexec ⟨rfl, hlive.quiet⟩, hlive.finished, hlive.removed⟩
  | finish hpc now =>
    simp only [hpc] at hpcOk
    obtain ⟨hclosed, -, hremoved⟩ := hpcOk
    exact ⟨⟨hclosed.1, hclosed.2, hclosed.3, hclosed.4⟩, rfl, hremoved⟩
  | remove hpc =>
    simp only [hpc] at hpcOk
    obtain ⟨hclosed, hfinished, -⟩ := hpcOk
    exact ⟨⟨hclosed.1, hclosed.2, hclosed.3, hclosed.4⟩, hfinished, rfl⟩
  | @purge t written hpc purged =>
    simp only [hpc] at hpcOk
    obtain ⟨hclosed, hfinished, hremoved⟩ := hpcOk
    exact .inr (.inr ⟨t, ⟨hclosed.1, hclosed.2, hclosed.3, hclosed.4⟩, hfinished, hremoved⟩)

/-! ### What a stream does to the table -/

theorem Moves.operationId_eq (h : Moves st m st' m') : st'.operationId = st.operationId := by
  cases h <;> rfl

/-- A stream touches no entry but its own. -/
theorem Moves.elsewhere (h : Moves st m st' m') {k : Uuid} (hk : st.operationId ≠ k) :
    m'[k]? = m[k]? := by
  cases h with
  | start | setRunning | cancel | spawn => exact getElem?_insert_ne hk
  | @finish t _ _ now =>
    rcases he : m[st.operationId]? with - | e
    · unfold OperationManager.finish
      rw [he]
    · rw [finish_eq he]
      exact getElem?_insert_ne hk
  | remove => exact getElem?_remove_ne hk
  | _ => rfl

/-- A stream that has just become tracked found its id free. -/
theorem Moves.was_tracked (h : Moves st m st' m') (ht : st'.Tracked) :
    st.Tracked ∨ m[st.operationId]? = none := by
  cases h with
  | start hpc hfree now => exact .inr hfree
  | remove => exact absurd ht.2 nofun
  | _ => exact .inl ht

/-- A stream that is not tracked after its step has left the table alone, or
has just removed its entry. -/
theorem Moves.not_tracked (hok : st.Ok) (h : Moves st m st' m') (ht : ¬ st'.Tracked) :
    (¬ st.Tracked ∧ m' = m) ∨ (st.Tracked ∧ m'[st.operationId]? = none) := by
  unfold Stream.Ok at hok
  cases h with
  | start hpc hfree now =>
    simp only [hpc] at hok
    exact absurd ⟨rfl, hok.removed⟩ ht
  | setRunning hpc | cancel hpc | spawn hpc =>
    simp only [hpc] at hok
    exact absurd ⟨hok.accepted, hok.removed⟩ ht
  | finish hpc now =>
    simp only [hpc] at hok
    exact absurd ⟨hok.1.accepted, hok.2.2⟩ ht
  | remove hpc =>
    simp only [hpc] at hok
    exact .inr ⟨⟨hok.1.accepted, hok.2.2⟩, getElem?_remove_self⟩
  | _ => exact .inl ⟨ht, rfl⟩

/-- Only a request with an id gets as far as `start`. -/
theorem Moves.named (hok : st.Ok) (h : Moves st m st' m')
    (hid : st.pc = .start ∨ st.accepted = true → st.operationId ≠ 0)
    (hst' : st'.pc = .start ∨ st'.accepted = true) : st'.operationId ≠ 0 := by
  cases h with
  | letIn hpc hnil => exact hnil
  | start hpc hfree now => exact hid (.inl hpc)
  | write hw =>
    obtain ⟨_, _, _, hlive, _⟩ := of_plain_write hok hw
    exact hid (.inr hlive.accepted)
  | _ => exact hid (hst'.imp nofun id)

variable {s : CommandState}

theorem shows_of_plain_write (hw : st.pendingWrite now = some (msg, .plain next)) (hs : st.Shows s)
    (sent : List Message) : ({ st with pc := next, sent := sent } : Stream).Shows s := by
  unfold Stream.pendingWrite at hw
  unfold Stream.Shows at hs ⊢
  split at hw <;> rename_i hpc <;> cases hw <;> simpa only [hpc] using hs

/-- A plain write that fails leaves the state that the table showed last. -/
theorem shows_of_failed_write (hok : st.Ok) (hw : st.pendingWrite now = some (msg, .plain next))
    (hs : st.Shows s) : s = .running ∨ (s = .accepted ∧ st.transition = none) := by
  unfold Stream.pendingWrite at hw
  unfold Stream.Ok at hok
  unfold Stream.Shows at hs
  split at hw <;> rename_i hpc <;> cases hw <;> simp only [hpc] at hs hok
  · exact .inr ⟨hs, hok.transition⟩
  · exact .inr ⟨hs, hok.transition⟩
  · exact .inl hs
  · exact .inl hs

theorem shows_of_terminal_write (hw : st.pendingWrite now = some (msg, .terminal t))
    (hs : st.Shows s) : s = .running := by
  unfold Stream.pendingWrite at hw
  unfold Stream.Shows at hs
  split at hw <;> rename_i hpc <;> cases hw <;> simpa only [hpc] using hs

/-- The entry of a tracked stream keeps up with the stream. -/
theorem Moves.matches (hok : st.Ok) (h : Moves st m st' m')
    (hentry : st.Tracked → ∃ e, m[st.operationId]? = some e ∧ st.Matches e)
    (ht : st'.Tracked) : ∃ e, m'[st'.operationId]? = some e ∧ st'.Matches e := by
  have hpcOk := hok
  unfold Stream.Ok at hpcOk
  cases h with
  | refuse hpc e =>
    have hfresh : st.Fresh := by
      rcases hpc with hpc | hpc <;> simpa only [hpc] using hpcOk
    exact absurd (ht.1.symm.trans hfresh.accepted) nofun
  | letIn hpc hid =>
    simp only [hpc] at hpcOk
    exact absurd (ht.1.symm.trans hpcOk.accepted) nofun
  | start hpc hfree now =>
    simp only [hpc] at hpcOk
    exact ⟨_, getElem?_insert_self, ⟨fun _ => hpcOk.transition, fun _ => rfl⟩, rfl⟩
  | lost hpc hfree e =>
    obtain ⟨entry, he, -⟩ := hentry ht
    exact absurd (he.symm.trans hfree) nofun
  | setRunning hpc entry he now =>
    obtain ⟨entry', he', hmatch⟩ := hentry ht
    obtain rfl := Option.mem_unique he he'
    exact ⟨_, getElem?_insert_self, hmatch.phase, rfl⟩
  | cancel hpc entry he hflag now | spawn hpc entry he hflag now =>
    obtain ⟨entry', he', hmatch⟩ := hentry ht
    obtain rfl := Option.mem_unique he he'
    have hrunning := hmatch.state
    unfold Stream.Shows at hrunning
    simp only [hpc] at hrunning
    exact ⟨_, getElem?_insert_self, ⟨nofun, nofun⟩, hrunning⟩
  | execute hpc | mismatch hpc | succeed hpc | fail hpc =>
    obtain ⟨entry, he, hmatch⟩ := hentry ht
    have hrunning := hmatch.state
    unfold Stream.Shows at hrunning
    simp only [hpc] at hrunning
    exact ⟨entry, he, hmatch.phase, hrunning⟩
  | write hw =>
    obtain ⟨entry, he, hmatch⟩ := hentry ht
    exact ⟨entry, he, hmatch.phase, shows_of_plain_write hw hmatch.state _⟩
  | writeFails hw e =>
    obtain ⟨entry, he, hmatch⟩ := hentry ht
    have hshows := shows_of_failed_write hok hw hmatch.state
    exact ⟨entry, he, hmatch.phase, hshows⟩
  | close hw | closeFails hw =>
    obtain ⟨entry, he, hmatch⟩ := hentry ht
    exact ⟨entry, he, hmatch.phase, shows_of_terminal_write hw hmatch.state⟩
  | @finish t written hpc now =>
    obtain ⟨entry, he, hmatch⟩ := hentry ht
    simp only [hpc] at hpcOk
    rw [finish_eq he]
    refine ⟨_, getElem?_insert_self, ⟨nofun, fun hnone => ?_⟩, rfl⟩
    exact absurd (hnone.symm.trans hpcOk.1.decided) nofun
  | remove => exact absurd ht.2 nofun
  | purge hpc purged =>
    simp only [hpc] at hpcOk
    exact absurd (ht.2.symm.trans hpcOk.2.2) nofun

/-! ### The table and the streams -/

/-- The table holds one entry for each tracked stream and no other. -/
structure Inv (w : World) : Prop where
  ok : ∀ (i : Nat) (st : Stream), w.streams[i]? = some st → st.Ok
  named : ∀ (i : Nat) (st : Stream), w.streams[i]? = some st →
    st.pc = .start ∨ st.accepted = true → st.operationId ≠ 0
  entry : ∀ (i : Nat) (st : Stream), w.streams[i]? = some st → st.Tracked →
    ∃ e, w.operations[st.operationId]? = some e ∧ st.Matches e
  unique : ∀ (i j : Nat) (sti stj : Stream), w.streams[i]? = some sti →
    w.streams[j]? = some stj → sti.Tracked → stj.Tracked →
    sti.operationId = stj.operationId → i = j
  owner : ∀ (r : Uuid) (e : OperationEntry), w.operations[r]? = some e →
    ∃ (i : Nat) (st : Stream), w.streams[i]? = some st ∧ st.Tracked ∧ st.operationId = r

variable {i : Nat}

theorem step_stream {a : StreamAction} (h : step w (.stream i a) = some w') :
    ∃ (st st' : Stream) (m' : OperationManager),
      w.streams[i]? = some st ∧ Moves st w.operations st' m' ∧
      w' = { w with operations := m', streams := w.streams.set i st' } := by
  unfold step at h
  dsimp only at h
  split at h
  · cases h
  · obtain ⟨st, hst, h⟩ := Option.bind_eq_some_iff.mp h
    obtain ⟨⟨st', m'⟩, hact, rfl⟩ := Option.map_eq_some_iff.mp h
    exact ⟨st, st', m', hst, moves_of_act hact, rfl⟩

variable {r : Uuid}

/-- A cancel leaves the table as it is, or raises the flag of one entry. -/
theorem step_cancel (h : step w (.cancel r now) = some w') :
    w' = w ∨ ∃ e, w.operations[r]? = some e ∧ w' = { w with
      operations := w.operations.insert r
        { e with cancelRequested := true, updatedAt := now } } := by
  unfold step handleCommandCancel at h
  dsimp only at h
  split at h
  · exact .inl (Option.some.inj h).symm
  · rename_i resp m' hok
    cases h
    split at hok
    · cases hok
    rcases hgranted : resp.cancellable with - | -
    · -- a refused cancel: the answer carries the table unchanged
      left
      unfold requestCancel at hok
      split at hok
      · cases hok
      split at hok
      · cases hok
      split at hok <;> cases hok
      · rfl
      · cases hgranted
    · obtain ⟨e, he, -, rfl⟩ := of_requestCancel_granted hok hgranted
      exact .inr ⟨e, he, rfl⟩

theorem Inv.init : Inv World.init where
  ok := by simp [World.init]
  named := by simp [World.init]
  entry := by simp [World.init]
  unique := by simp [World.init]
  owner := by simp [World.init]

section

variable (hinv : Inv w) (hi : w.streams[i]? = some st) (h : Moves st w.operations st' m')

include hinv hi h

/-- A tracked stream other than the one that moves has another id than it, if
that one is tracked after its step. -/
theorem Inv.ids_differ {j : Nat} {stj : Stream} (ht : st'.Tracked) (hj : j ≠ i)
    (hstj : w.streams[j]? = some stj) (htj : stj.Tracked) : st.operationId ≠ stj.operationId := by
  intro heq
  rcases h.was_tracked ht with hwas | hfree
  · exact hj (hinv.unique j i stj st hstj hi htj hwas heq.symm)
  · obtain ⟨e, he, -⟩ := hinv.entry j stj hstj htj
    rw [← heq, hfree] at he
    cases he

/-- So the entries of the other tracked streams are as before. -/
theorem Inv.kept {j : Nat} {stj : Stream} (hj : j ≠ i) (hstj : w.streams[j]? = some stj)
    (htj : stj.Tracked) : m'[stj.operationId]? = w.operations[stj.operationId]? := by
  by_cases ht : st'.Tracked
  · exact h.elsewhere (hinv.ids_differ hi h ht hj hstj htj)
  · rcases h.not_tracked (hinv.ok i st hi) ht with ⟨-, rfl⟩ | ⟨hwas, -⟩
    · rfl
    · refine h.elsewhere fun heq => hj ?_
      exact hinv.unique j i stj st hstj hi htj hwas heq.symm

/-- One stream moves. -/
theorem Inv.moves :
    Inv { w with operations := m', streams := w.streams.set i st' } := by
  have hok := hinv.ok i st hi
  have hid := h.operationId_eq
  refine ⟨?_, ?_, ?_, ?_, ?_⟩
  · intro j stj hj
    rcases getElem?_set_cases hj with ⟨-, rfl⟩ | ⟨-, hj⟩
    · refine hok.moves (fun ht => ?_) h
      obtain ⟨e, he, -⟩ := hinv.entry i st hi ht
      rw [he]
      nofun
    · exact hinv.ok j stj hj
  · exact forall_set hinv.named (h.named hok (hinv.named i st hi))
  · intro j stj hj ht
    rcases getElem?_set_cases hj with ⟨-, rfl⟩ | ⟨hne, hj⟩
    · exact h.matches hok (hinv.entry i st hi) ht
    · obtain ⟨e, he, hmatch⟩ := hinv.entry j stj hj ht
      exact ⟨e, (hinv.kept hi h hne hj ht).trans he, hmatch⟩
  · intro j k stj stk hj hk htj htk heq
    rcases getElem?_set_cases hj with ⟨rfl, rfl⟩ | ⟨hne, hj'⟩ <;>
      rcases getElem?_set_cases hk with ⟨rfl, rfl⟩ | ⟨hne', hk'⟩
    · rfl
    · exact absurd (hid.symm.trans heq) (hinv.ids_differ hi h htj hne' hk' htk)
    · exact absurd (hid.symm.trans heq.symm) (hinv.ids_differ hi h htk hne hj' htj)
    · exact hinv.unique j k stj stk hj' hk' htj htk heq
  · intro r e he
    -- an owner other than `i` stays the owner
    have hstay : ∀ (j : Nat) (stj : Stream), j ≠ i → w.streams[j]? = some stj →
        (w.streams.set i st')[j]? = some stj := by
      intro j stj hne hj
      rwa [List.getElem?_set_ne hne.symm]
    by_cases hr : st.operationId = r
    · subst hr
      by_cases ht : st'.Tracked
      · refine ⟨i, st', ?_, ht, hid⟩
        rw [List.getElem?_set_self', hi]
        rfl
      · rcases h.not_tracked hok ht with ⟨hnot, rfl⟩ | ⟨-, hgone⟩
        · obtain ⟨j, stj, hj, htj, heq⟩ := hinv.owner _ e he
          refine ⟨j, stj, hstay j stj ?_ hj, htj, heq⟩
          rintro rfl
          exact hnot (Option.mem_unique hi hj ▸ htj)
        · exact absurd (he.symm.trans hgone) nofun
    · obtain ⟨j, stj, hj, htj, heq⟩ := hinv.owner r e ((h.elsewhere hr).symm.trans he)
      refine ⟨j, stj, hstay j stj ?_ hj, htj, heq⟩
      rintro rfl
      exact hr (Option.mem_unique hi hj ▸ heq)

end

/-- A cancel raises a flag that no entry's match depends on. -/
theorem Inv.flag (hinv : Inv w) {e e' : OperationEntry} (he : w.operations[r]? = some e)
    (hphase : e'.phase = e.phase) (hstate : e'.state = e.state) :
    Inv { w with operations := w.operations.insert r e' } := by
  refine ⟨hinv.ok, hinv.named, ?_, hinv.unique, ?_⟩
  · intro i st hi ht
    obtain ⟨e₁, he₁, hmatch⟩ := hinv.entry i st hi ht
    by_cases hr : r = st.operationId
    · subst hr
      obtain rfl := Option.mem_unique he he₁
      exact ⟨e', getElem?_insert_self, hphase ▸ hmatch.phase, hstate ▸ hmatch.state⟩
    · exact ⟨e₁, (getElem?_insert_ne hr).trans he₁, hmatch⟩
  · intro k e₁ he₁
    by_cases hr : r = k
    · subst hr
      exact hinv.owner r e he
    · exact hinv.owner k e₁ ((getElem?_insert_ne hr).symm.trans he₁)

/-- A new stream is not tracked. -/
theorem Inv.submit (hinv : Inv w) (r : Uuid) (request : CommandStartRequest) :
    Inv { w with streams := w.streams ++ [Stream.new r request] } := by
  have huntracked : ¬ (Stream.new r request).Tracked := fun ht => absurd ht.1 nofun
  refine ⟨?_, ?_, ?_, ?_, ?_⟩
  · exact forall_concat hinv.ok ⟨rfl, rfl, rfl, rfl, rfl, rfl, rfl⟩
  · intro i st hi hacc
    rcases getElem?_concat_cases hi with hi | ⟨-, rfl⟩
    · exact hinv.named i st hi hacc
    · rcases hacc with hacc | hacc <;> cases hacc
  · exact forall_concat hinv.entry fun ht => absurd ht huntracked
  · intro i j sti stj hi hj hti htj heq
    rcases getElem?_concat_cases hi with hi | ⟨-, rfl⟩
    · rcases getElem?_concat_cases hj with hj | ⟨-, rfl⟩
      · exact hinv.unique i j sti stj hi hj hti htj heq
      · exact absurd htj huntracked
    · exact absurd hti huntracked
  · intro k e he
    obtain ⟨i, st, hi, ht⟩ := hinv.owner k e he
    exact ⟨i, st, getElem?_concat_of_some hi, ht⟩

theorem Inv.step (w : World) (a : Action) (w' : World) (hinv : Inv w)
    (h : step w a = some w') : Inv w' := by
  cases a with
  | submit r request =>
    cases h
    exact hinv.submit r request
  | stream i a =>
    obtain ⟨st, st', m', hi, hmoves, rfl⟩ := step_stream h
    exact hinv.moves hi hmoves
  | drop i | shutdown =>
    cases h
    exact ⟨hinv.ok, hinv.named, hinv.entry, hinv.unique, hinv.owner⟩
  | cancel r now =>
    rcases step_cancel h with rfl | ⟨e, he, rfl⟩
    · exact hinv
    · exact hinv.flag he rfl rfl

theorem Reachable.inv (h : Reachable w) : Inv w := Reaches.invariant Inv.step h Inv.init

/-! ### A granted cancel -/

/-- Stream `i` will not spawn: its spawn transition has found the flag of a
granted cancel, or will find it. -/
def Condemned (i : Nat) (w : World) : Prop :=
  ∃ st, w.streams[i]? = some st ∧
    (st.transition = some .canceled ∨
      (st.transition = none ∧ st.Tracked ∧
        ∃ e, w.operations[st.operationId]? = some e ∧ e.cancelRequested = true))

/-- The spawn transition is taken once. -/
theorem Moves.transition_eq (hok : st.Ok) (h : Moves st m st' m') (ht : st.transition ≠ none) :
    st'.transition = st.transition := by
  unfold Stream.Ok at hok
  cases h with
  | cancel hpc | spawn hpc =>
    simp only [hpc] at hok
    exact absurd hok.transition ht
  | _ => rfl

/-- The stream whose flag is up keeps it, or finds it. -/
theorem Moves.flag_kept (hok : st.Ok) (h : Moves st m st' m') (hnone : st.transition = none)
    (ht : st.Tracked) {e : OperationEntry} (he : m[st.operationId]? = some e)
    (hflag : e.cancelRequested = true) :
    st'.transition = some .canceled ∨
      (st'.transition = none ∧ st'.Tracked ∧
        ∃ e', m'[st'.operationId]? = some e' ∧ e'.cancelRequested = true) := by
  unfold Stream.Ok at hok
  cases h with
  | start hpc hfree now => exact absurd (he.symm.trans hfree) nofun
  | setRunning hpc entry hentry now =>
    obtain rfl := Option.mem_unique he hentry
    exact .inr ⟨hnone, ht, _, getElem?_insert_self, hflag⟩
  | cancel hpc entry hentry hflag' now => exact .inl rfl
  | spawn hpc entry hentry hflag' now =>
    obtain rfl := Option.mem_unique he hentry
    exact absurd (hflag.symm.trans hflag') nofun
  | finish hpc now | remove hpc =>
    -- a stream that ends has its transition behind it
    simp only [hpc] at hok
    exact absurd (hnone.symm.trans hok.1.decided) nofun
  | _ => exact .inr ⟨hnone, ht, e, he, hflag⟩

theorem Condemned.step (w : World) (a : Action) (w' : World) (hinv : Inv w ∧ Condemned i w)
    (h : step w a = some w') : Inv w' ∧ Condemned i w' := by
  obtain ⟨hinv, st, hi, hst⟩ := hinv
  refine ⟨hinv.step w a w' h, ?_⟩
  cases a with
  | submit r request =>
    cases h
    exact ⟨st, getElem?_concat_of_some hi, hst⟩
  | stream j a =>
    obtain ⟨stj, stj', m', hj, hmoves, rfl⟩ := step_stream h
    by_cases hij : i = j
    · subst hij
      obtain rfl := Option.mem_unique hi hj
      refine ⟨stj', by simp [List.getElem?_set_self', hi], ?_⟩
      rcases hst with hcanceled | ⟨hnone, ht, e, he, hflag⟩
      · left
        rw [hmoves.transition_eq (hinv.ok i st hi) (by rw [hcanceled]; nofun), hcanceled]
      · exact hmoves.flag_kept (hinv.ok i st hi) hnone ht he hflag
    · refine ⟨st, by rwa [List.getElem?_set_ne (Ne.symm hij)], ?_⟩
      refine hst.imp_right fun ⟨hnone, ht, e, he, hflag⟩ => ⟨hnone, ht, e, ?_, hflag⟩
      exact (hinv.kept hj hmoves hij hi ht).trans he
  | drop j | shutdown =>
    cases h
    exact ⟨st, hi, hst⟩
  | cancel r now =>
    rcases step_cancel h with rfl | ⟨e, he, rfl⟩
    · exact ⟨st, hi, hst⟩
    · refine ⟨st, hi, hst.imp_right fun ⟨hnone, ht, e₁, he₁, hflag⟩ => ⟨hnone, ht, ?_⟩⟩
      by_cases hr : r = st.operationId
      · subst hr
        exact ⟨_, getElem?_insert_self, rfl⟩
      · exact ⟨e₁, (getElem?_insert_ne hr).trans he₁, hflag⟩

/-! ### What the record says -/

/-- The record of a stream, whatever its program counter. -/
theorem Stream.Ok.record (hok : st.Ok) :
    st.Fresh ∨ (∃ transition executed, st.Live transition executed ∧
      (executed = true → transition = some .spawned)) ∨
    st.Abandoned ∨ ∃ t written, st.Closed t written := by
  unfold Stream.Ok at hok
  cases hpc : st.pc <;> simp only [hpc] at hok
  case received | start => exact .inl hok
  case failEvent =>
    obtain ⟨executed, hlive⟩ := hok
    exact .inr (.inl ⟨_, _, hlive, fun _ => rfl⟩)
  case finish | remove | purge => exact .inr (.inr (.inr ⟨_, _, hok.1⟩))
  case returned =>
    rcases hok with hfresh | habandoned | ⟨t, hclosed, -⟩
    · exact .inl hfresh
    · exact .inr (.inr (.inl habandoned))
    · exact .inr (.inr (.inr ⟨_, _, hclosed⟩))
  all_goals exact .inr (.inl ⟨_, _, hok, by simp⟩)

/-- Only a spawned command was executed. -/
theorem Stream.Ok.spawned_of_executed (hok : st.Ok) (hexec : st.executed = true) :
    st.transition = some .spawned := by
  rcases hok.record with hfresh | ⟨_, _, hlive, hspawned⟩ | habandoned | ⟨_, _, hclosed⟩
  · exact absurd (hexec.symm.trans hfresh.executed) nofun
  · exact hlive.transition.trans (hspawned (hlive.executed ▸ hexec))
  · exact habandoned.executed hexec
  · exact hclosed.executed hexec

theorem Stream.Closed.terminalEvents (h : st.Closed t written) :
    terminalEvents st.sent = [] ∨
      ∃ e, terminalEvents st.sent = [e] ∧
        st.transition = some (if e.eventType = .canceled then .canceled else .spawned) := by
  have hsent := h.sent
  cases written with
  | error err => exact .inl hsent.2
  | ok u =>
    obtain ⟨-, e, he, htype⟩ := hsent
    refine .inr ⟨e, he, h.decided.trans ?_⟩
    rw [htype]
    cases t <;> rfl

/-- A stream has sent at most one terminal event, and that says how its spawn
transition went. -/
theorem Stream.Ok.terminalEvents (hok : st.Ok) :
    terminalEvents st.sent = [] ∨
      ∃ e, terminalEvents st.sent = [e] ∧
        st.transition = some (if e.eventType = .canceled then .canceled else .spawned) := by
  rcases hok.record with hfresh | ⟨_, _, hlive, -⟩ | habandoned | ⟨_, _, hclosed⟩
  · exact .inl hfresh.quiet
  · exact .inl hlive.quiet
  · exact .inl habandoned.quiet
  · exact hclosed.terminalEvents

/-- A registered command that has returned, all its writes done, has sent its
terminal event. -/
theorem Stream.Ok.one_terminal_event (hok : st.Ok) (hpc : st.pc = .returned written)
    (haccepted : st.accepted = true) (hunbroken : st.broken = false) :
    ∃ e, Command.terminalEvents st.sent = [e] := by
  unfold Stream.Ok at hok
  simp only [hpc] at hok
  rcases hok with hfresh | habandoned | ⟨t, hclosed, -⟩
  · exact absurd (haccepted.symm.trans hfresh.accepted) nofun
  · exact absurd (habandoned.broken.symm.trans hunbroken) nofun
  · have hsent := hclosed.sent
    cases written with
    | error err => exact absurd (hsent.1.symm.trans hunbroken) nofun
    | ok u =>
      obtain ⟨-, e, he, -⟩ := hsent
      exact ⟨e, he⟩

theorem Stream.Ok.accepted_of_transition (hok : st.Ok) (htrans : st.transition ≠ none) :
    st.accepted = true := by
  rcases hok.record with hfresh | ⟨_, _, hlive, -⟩ | habandoned | ⟨_, _, hclosed⟩
  · exact absurd hfresh.transition htrans
  · exact hlive.accepted
  · exact habandoned.accepted
  · exact hclosed.accepted

/-- A command past its spawn transition that has not finished is tracked, and
the table shows it as running. -/
theorem Stream.Ok.running (hok : st.Ok) (htrans : st.transition ≠ none)
    (hopen : st.finished = false) : st.Tracked ∧ ∀ s, st.Shows s → s = .running := by
  unfold Stream.Ok at hok
  unfold Stream.Shows
  cases hpc : st.pc <;> simp only [hpc] at hok ⊢
  case received | start | respond | acceptEvent | setRunning | startEvent | markSpawned =>
    exact absurd hok.transition htrans
  case cancelEvent | execute | executing | progressEvent | succeedEvent =>
    exact ⟨hok.tracked, fun s hs => hs⟩
  case failEvent =>
    obtain ⟨executed, hlive⟩ := hok
    exact ⟨hlive.tracked, fun s hs => hs⟩
  case finish => exact ⟨⟨hok.1.accepted, hok.2.2⟩, fun s hs => hs⟩
  case remove | purge => exact absurd (hok.2.1.symm.trans hopen) nofun
  case returned =>
    rcases hok with hfresh | habandoned | ⟨t, -, hfinished, -⟩
    · exact absurd hfresh.transition htrans
    · refine ⟨⟨habandoned.accepted, habandoned.removed⟩, fun s hs => ?_⟩
      exact hs.resolve_right fun h => htrans h.2
    · exact absurd (hfinished.symm.trans hopen) nofun

/-- A command that has finished and is still in the table is there with its
terminal state. -/
theorem Stream.Ok.shows_terminal (hok : st.Ok) (hfinished : st.finished = true) (ht : st.Tracked)
    (hs : st.Shows s) : s.isTerminal = true := by
  unfold Stream.Ok at hok
  unfold Stream.Shows at hs
  cases hpc : st.pc <;> simp only [hpc] at hok hs
  case received | start | respond | acceptEvent | setRunning | startEvent | markSpawned |
      cancelEvent | execute | executing | progressEvent | succeedEvent =>
    exact absurd (hfinished.symm.trans hok.finished) nofun
  case failEvent =>
    obtain ⟨executed, hlive⟩ := hok
    exact absurd (hfinished.symm.trans hlive.finished) nofun
  case finish => exact absurd (hfinished.symm.trans hok.2.1) nofun
  case remove t _ =>
    subst hs
    cases t <;> rfl
  case purge => exact absurd (ht.2.symm.trans hok.2.2) nofun
  case returned =>
    rcases hok with hfresh | habandoned | ⟨t, -, -, hremoved⟩
    · exact absurd (hfinished.symm.trans hfresh.finished) nofun
    · exact absurd (hfinished.symm.trans habandoned.finished) nofun
    · exact absurd (ht.2.symm.trans hremoved) nofun

/-! ### Later states -/

/-- What is settled about a stream stays so. -/
def Later (w w' : World) : Prop :=
  ∀ (i : Nat) (st : Stream), w.streams[i]? = some st →
    ∃ st', w'.streams[i]? = some st' ∧ st'.operationId = st.operationId ∧
      (st.accepted = true → st'.accepted = true) ∧
      (st.transition ≠ none → st'.transition = st.transition)

theorem Later.refl (w : World) : Later w w :=
  fun _ st hi => ⟨st, hi, rfl, id, fun _ => rfl⟩

theorem Later.trans (w w₁ w₂ : World) (h : Later w w₁) (h' : Later w₁ w₂) : Later w w₂ := by
  intro i st hi
  obtain ⟨st₁, hi₁, hid₁, hacc₁, htrans₁⟩ := h i st hi
  obtain ⟨st₂, hi₂, hid₂, hacc₂, htrans₂⟩ := h' i st₁ hi₁
  refine ⟨st₂, hi₂, hid₂.trans hid₁, hacc₂ ∘ hacc₁, fun ht => ?_⟩
  rw [htrans₂ (by rwa [htrans₁ ht]), htrans₁ ht]

theorem Later.step (w : World) (a : Action) (w' : World) (hinv : Inv w)
    (h : step w a = some w') : Later w w' := by
  intro i st hi
  cases a with
  | submit r request =>
    cases h
    exact ⟨st, getElem?_concat_of_some hi, rfl, id, fun _ => rfl⟩
  | stream j a =>
    obtain ⟨stj, stj', m', hj, hmoves, rfl⟩ := step_stream h
    by_cases hij : i = j
    · subst hij
      obtain rfl := Option.mem_unique hi hj
      refine ⟨stj', by simp [List.getElem?_set_self', hi], hmoves.operationId_eq, ?_,
        hmoves.transition_eq (hinv.ok i st hi)⟩
      intro hacc
      cases hmoves <;> first | rfl | exact hacc
    · exact ⟨st, by rwa [List.getElem?_set_ne (Ne.symm hij)], rfl, id, fun _ => rfl⟩
  | drop j | shutdown =>
    cases h
    exact ⟨st, hi, rfl, id, fun _ => rfl⟩
  | cancel r now =>
    rcases step_cancel h with rfl | ⟨e, -, rfl⟩ <;> exact ⟨st, hi, rfl, id, fun _ => rfl⟩

theorem Inv.later (hinv : Inv w) (h : Reaches Command.step w w') : Later w w' :=
  h.monotone Inv.step Later.refl Later.trans Later.step hinv

/-! ### The handler comes to its end -/

/-- The most steps that a stream takes from a point on. -/
def Pc.remaining : Pc → Nat
  | .received => 14
  | .start => 13
  | .respond => 12
  | .acceptEvent => 11
  | .setRunning => 10
  | .startEvent => 9
  | .markSpawned => 8
  | .execute => 7
  | .executing => 6
  | .progressEvent _ _ => 5
  | .succeedEvent _ | .failEvent _ | .cancelEvent => 4
  | .finish _ _ => 3
  | .remove _ _ => 2
  | .purge _ _ => 1
  | .returned _ => 0

/-- Every step brings the handler nearer to its end. -/
theorem Moves.remaining_lt (h : Moves st m st' m') : st'.pc.remaining < st.pc.remaining := by
  cases h with
  | refuse hpc | lost hpc => rcases hpc with hpc | hpc <;> simp [hpc, Pc.remaining]
  | write hw | writeFails hw | close hw | closeFails hw =>
    unfold Stream.pendingWrite at hw
    split at hw <;> rename_i hpc <;> cases hw <;> simp [hpc, Pc.remaining]
  | _ => simp [‹st.pc = _›, Pc.remaining]

/-- A handler that has not returned can take a step in which no write fails. -/
theorem Stream.can_act (st : Stream) (m : OperationManager) (shutdown : Bool)
    (h : ∀ r, st.pc ≠ .returned r) :
    ∃ a st' m', st.act m shutdown a = some (st', m') ∧ st'.broken = st.broken := by
  cases hpc : st.pc
  case returned r => exact absurd hpc (h r)
  case respond | acceptEvent | startEvent | cancelEvent | progressEvent | succeedEvent |
      failEvent =>
    refine ⟨.write "" none, ?_⟩
    simp only [Stream.act, Stream.write, Stream.pendingWrite, hpc]
    exact ⟨_, m, rfl, rfl⟩
  case executing =>
    refine ⟨.complete (.ok ⟨"", ""⟩), ?_⟩
    simp only [Stream.act, Stream.complete, hpc]
    exact ⟨_, m, rfl, rfl⟩
  all_goals
    refine ⟨.proceed "", ?_⟩
    simp only [Stream.act, Stream.proceed, hpc]
    repeat' split
    all_goals exact ⟨_, _, rfl, rfl⟩

theorem run_to_end (hi : w.streams[i]? = some st) (hlive : i ∉ w.aborted) :
    ∃ as w' st' r, run step w as = some w' ∧ w'.streams[i]? = some st' ∧
      st'.pc = .returned r ∧ st'.broken = st.broken := by
  induction hn : st.pc.remaining using Nat.strong_induction_on generalizing w st with
  | _ n ih =>
    by_cases hret : ∃ r, st.pc = .returned r
    · obtain ⟨r, hr⟩ := hret
      exact ⟨[], w, st, r, rfl, hi, hr, rfl⟩
    obtain ⟨a, st₁, m₁, hact, hbroken⟩ :=
      st.can_act w.operations w.shutdownRequested (fun r hr => hret ⟨r, hr⟩)
    have hstep : step w (.stream i a)
        = some { w with operations := m₁, streams := w.streams.set i st₁ } := by
      simp [step, hlive, hi, hact]
    have hlt := (moves_of_act hact).remaining_lt
    obtain ⟨as, w', st', r, hrun, hi', hr, hb⟩ := ih _ (hn ▸ hlt)
      (w := { w with operations := m₁, streams := w.streams.set i st₁ })
      (by simp [List.getElem?_set_self', hi]) hlive rfl
    exact ⟨.stream i a :: as, w', st', r, run_cons_eq_some.mpr ⟨_, hstep, hrun⟩, hi', hr,
      hb.trans hbroken⟩

/-! ### The race -/

/-- The command of request `r` is in the table; at most one stream is that
command's at a time (`Inv.unique`). -/
def World.Tracks (w : World) (i : Nat) (r : Uuid) : Prop :=
  ∃ st, w.streams[i]? = some st ∧ st.Tracked ∧ st.operationId = r

theorem Inv.eq_of_tracks (hinv : Inv w) {j : Nat} (hi : w.Tracks i r) (hj : w.Tracks j r) :
    i = j := by
  obtain ⟨sti, hsti, hti, hidi⟩ := hi
  obtain ⟨stj, hstj, htj, hidj⟩ := hj
  exact hinv.unique i j sti stj hsti hstj hti htj (hidi.trans hidj.symm)

/-- A granted cancel condemns the stream of its command. -/
theorem Inv.condemned (hinv : Inv w) {resp : CommandCancelResponse}
    (hanswer : handleCommandCancel w.operations r now = .ok (resp, m'))
    (hgranted : resp.cancellable = true) :
    ∃ i, w.Tracks i r ∧ Condemned i { w with operations := m' } := by
  unfold handleCommandCancel at hanswer
  split at hanswer
  · cases hanswer
  obtain ⟨e, he, hphase, rfl⟩ := of_requestCancel_granted hanswer hgranted
  obtain ⟨i, st, hi, ht, rfl⟩ := hinv.owner r e he
  obtain ⟨e', he', hmatch⟩ := hinv.entry i st hi ht
  obtain rfl := Option.mem_unique he he'
  exact ⟨i, ⟨st, hi, ht, rfl⟩, st, hi,
    .inr ⟨hmatch.phase.mp hphase, ht, _, getElem?_insert_self, rfl⟩⟩

/-- A condemned command is never executed, and no terminal event of it but
`canceled` is sent. -/
theorem Condemned.canceled (hinv : Inv w) (h : Condemned i w) (hi : w.streams[i]? = some st) :
    st.executed = false ∧ ∀ e ∈ terminalEvents st.sent, e.eventType = .canceled := by
  obtain ⟨st₁, hi₁, hst⟩ := h
  obtain rfl := Option.mem_unique hi hi₁
  have hok := hinv.ok i st hi
  have hnot : st.transition ≠ some .spawned := by
    rcases hst with hcanceled | ⟨hnone, -⟩
    · rw [hcanceled]
      nofun
    · rw [hnone]
      nofun
  constructor
  · exact Bool.eq_false_iff.mpr fun hexec => hnot (hok.spawned_of_executed hexec)
  · intro e he
    rcases hok.terminalEvents with hnil | ⟨e', hone, htrans⟩
    · rw [hnil] at he
      cases he
    · rw [hone, List.mem_singleton] at he
      subst he
      by_contra hne
      rw [if_neg hne] at htrans
      exact hnot htrans

/-- The answer to the cancel of a spawned command. -/
theorem Inv.cancel_spawned (hinv : Inv w) (hi : w.streams[i]? = some st)
    (htrans : st.transition = some .spawned) (now : String) :
    (st.finished = false →
      handleCommandCancel w.operations st.operationId now
        = .ok (⟨false, .running⟩, w.operations)) ∧
    (st.finished = true → (∀ j, w.Tracks j st.operationId → j = i) →
      handleCommandCancel w.operations st.operationId now
        = .error (notRunning "command.cancel")) := by
  have hok := hinv.ok i st hi
  have hsome : st.transition ≠ none := by
    rw [htrans]
    nofun
  have hid : st.operationId ≠ 0 :=
    hinv.named i st hi (.inr (hok.accepted_of_transition hsome))
  have hanswer : handleCommandCancel w.operations st.operationId now
      = w.operations.requestCancel st.operationId now := by
    rw [handleCommandCancel, ensureUuidNotNil, if_neg hid]
  rw [hanswer]
  constructor
  · intro hopen
    obtain ⟨ht, hrunning⟩ := hok.running hsome hopen
    obtain ⟨e, he, hmatch⟩ := hinv.entry i st hi ht
    have hstate : e.state = .running := hrunning _ hmatch.state
    have hphase : e.phase = .spawned := by
      cases hp : e.phase with
      | starting => exact absurd (hmatch.phase.mp hp) hsome
      | spawned => rfl
    rw [requestCancel_eq he (by rw [hstate]; rfl), hphase, hstate]
  · intro hfinished halone
    -- an entry under this id can only be this stream's own, with its terminal state
    refine requestCancel_eq_error fun e he => ?_
    obtain ⟨j, stj, hj, htj, hidj⟩ := hinv.owner _ e he
    obtain rfl := halone j ⟨stj, hj, htj, hidj⟩
    obtain rfl := Option.mem_unique hi hj
    obtain ⟨e', he', hmatch⟩ := hinv.entry j st hj htj
    obtain rfl := Option.mem_unique he he'
    exact hok.shows_terminal hfinished htj hmatch.state

/-- **The race of start and cancel.**  In every reachable state:

* a granted cancel concerns one tracked command, and from then on that command
  is never executed and sends no terminal event but `canceled`;
* once the spawn transition of a command has returned `spawned`, a cancel of
  it is answered with `cancellable = false` until the command is finished, and
  fails as not running after that, unless its id was taken by a new command;
* a registered command never sends a second terminal event; when it returns
  with all its writes done it has sent one; and unless it is aborted it does
  return, every step bringing it nearer to that. -/
theorem cancel_decides (w : World) (hw : Reachable w) :
    (∀ (r : Uuid) (now : String) (resp : CommandCancelResponse) (m' : OperationManager),
      handleCommandCancel w.operations r now = .ok (resp, m') → resp.cancellable = true →
      ∃ w₁ i, step w (.cancel r now) = some w₁ ∧ w.Tracks i r ∧
        (∀ j, w.Tracks j r → j = i) ∧
        ∀ (w' : World) (st' : Stream), Reaches step w₁ w' → w'.streams[i]? = some st' →
          st'.executed = false ∧ ∀ e ∈ terminalEvents st'.sent, e.eventType = .canceled) ∧
    (∀ (i : Nat) (st : Stream), w.streams[i]? = some st → st.transition = some .spawned →
      ∀ (w' : World) (st' : Stream), Reaches step w w' → w'.streams[i]? = some st' →
        ∀ now : String,
          (st'.finished = false →
            handleCommandCancel w'.operations st.operationId now
              = .ok (⟨false, .running⟩, w'.operations)) ∧
          (st'.finished = true → (∀ j, w'.Tracks j st.operationId → j = i) →
            handleCommandCancel w'.operations st.operationId now
              = .error (notRunning "command.cancel"))) ∧
    (∀ (i : Nat) (st : Stream), w.streams[i]? = some st → st.accepted = true →
      (terminalEvents st.sent).length ≤ 1 ∧
      (∀ r, st.pc = .returned r → st.broken = false → (terminalEvents st.sent).length = 1) ∧
      (∀ (a : StreamAction) (w' : World) (st' : Stream), step w (.stream i a) = some w' →
        w'.streams[i]? = some st' → st'.pc.remaining < st.pc.remaining) ∧
      (i ∉ w.aborted → st.broken = false → ∃ as w' st' r, run step w as = some w' ∧
        w'.streams[i]? = some st' ∧ st'.pc = .returned r ∧
        (terminalEvents st'.sent).length = 1)) := by
  have hinv := hw.inv
  refine ⟨?_, ?_, ?_⟩
  · intro r now resp m' hanswer hgranted
    obtain ⟨i, htracks, hcond⟩ := hinv.condemned hanswer hgranted
    have hstep : step w (.cancel r now) = some { w with operations := m' } := by
      simp only [step, hanswer]
    refine ⟨_, i, hstep, htracks, fun j hj => hinv.eq_of_tracks hj htracks, ?_⟩
    intro w' st' hreach hi
    obtain ⟨hinv', hcond'⟩ :=
      hreach.invariant Condemned.step ⟨hinv.step w _ _ hstep, hcond⟩
    exact hcond'.canceled hinv' hi
  · intro i st hi htrans w' st' hreach hi' now
    obtain ⟨st₁, hi₁, hid, -, hkeep⟩ := hinv.later hreach i st hi
    obtain rfl := Option.mem_unique hi' hi₁
    have htrans' : st'.transition = some .spawned := (hkeep (by rw [htrans]; nofun)).trans htrans
    have hanswer := (hreach.invariant Inv.step hinv).cancel_spawned hi' htrans' now
    rwa [hid] at hanswer
  · intro i st hi haccepted
    have hok := hinv.ok i st hi
    refine ⟨?_, ?_, ?_, ?_⟩
    · rcases hok.terminalEvents with hnil | ⟨e, hone, -⟩
      · simp [hnil]
      · simp [hone]
    · intro r hpc hunbroken
      obtain ⟨e, he⟩ := hok.one_terminal_event hpc haccepted hunbroken
      rw [he, List.length_singleton]
    · intro a w' st' hstep hi'
      obtain ⟨st₁, st₂, m', hi₁, hmoves, rfl⟩ := step_stream hstep
      obtain rfl := Option.mem_unique hi hi₁
      rcases getElem?_set_cases hi' with ⟨-, rfl⟩ | ⟨hne, -⟩
      · exact hmoves.remaining_lt
      · exact absurd rfl hne
    · intro hlive hunbroken
      obtain ⟨as, w', st', r, hrun, hi', hpc, hbroken⟩ := run_to_end hi hlive
      have hreach : Reaches step w w' := ⟨as, hrun⟩
      obtain ⟨st₁, hi₁, -, hkeep, -⟩ := hinv.later hreach i st hi
      obtain rfl := Option.mem_unique hi' hi₁
      obtain ⟨e, he⟩ := ((hreach.invariant Inv.step hinv).ok i st' hi').one_terminal_event hpc
        (hkeep haccepted) (hbroken.trans hunbroken)
      exact ⟨as, w', st', r, hrun, hi', hpc, by rw [he, List.length_singleton]⟩

/-- A `run` command, registered and its response written. -/
def sampleAccepted : List Action :=
  [.submit 1 ⟨1, .run, .run ⟨"svc"⟩⟩, .stream 0 (.proceed "1"), .stream 0 (.proceed "1"),
    .stream 0 (.write "1" none)]

/-- It is taken through its spawn transition. -/
def sampleSpawned : List Action :=
  sampleAccepted ++
    [.stream 0 (.write "2" none), .stream 0 (.proceed "2"), .stream 0 (.write "2" none),
      .stream 0 (.proceed "3")]

/-- It succeeds, and its entry is removed. -/
def sampleRemoved : List Action :=
  [.stream 0 (.proceed "4"), .stream 0 (.complete (.ok ⟨"svc", "abc"⟩)),
    .stream 0 (.write "5" none), .stream 0 (.write "5" none), .stream 0 (.proceed "5"),
    .stream 0 (.proceed "5")]

theorem cancel_decides_sample :
    (∃ w w₁ i, run step World.init sampleAccepted = some w ∧ w.Tracks i 1 ∧
      step w (.cancel 1 "2") = some w₁ ∧
      ∀ (w' : World) (st' : Stream), Reaches step w₁ w' → w'.streams[i]? = some st' →
        st'.executed = false ∧ ∀ e ∈ terminalEvents st'.sent, e.eventType = .canceled) ∧
    ∃ w st, run step World.init sampleSpawned = some w ∧ w.streams[0]? = some st ∧
      st.transition = some .spawned ∧
      handleCommandCancel w.operations 1 "4" = .ok (⟨false, .running⟩, w.operations) ∧
      ∃ as w' st' r, run step w as = some w' ∧ w'.streams[0]? = some st' ∧
        st'.pc = .returned r ∧ (terminalEvents st'.sent).length = 1 := by
  constructor
  · have hall := fun w (hrun : run step World.init sampleAccepted = some w) =>
      (cancel_decides w ⟨_, hrun⟩).1 1 "2"
    obtain ⟨w₁, i, hstep, htracks, -, hfinal⟩ := hall _ rfl _ _ rfl rfl
    exact ⟨_, w₁, i, rfl, htracks, hstep, hfinal⟩
  · have hall := fun w (hrun : run step World.init sampleSpawned = some w) =>
      (cancel_decides w ⟨_, hrun⟩).2
    have hcancel := (hall _ rfl).1 0 _ rfl rfl _ _ (Reaches.refl _) rfl "4"
    obtain ⟨-, -, -, hend⟩ := (hall _ rfl).2 0 _ rfl rfl
    exact ⟨_, _, rfl, rfl, rfl, hcancel.1 rfl, hend (by decide) rfl⟩

/-- A command that was spawned and has ended: a cancel of it is not answered
with `cancellable = false`, it fails. -/
theorem cancel_after_finish_not_found :
    ∃ w st w', run step World.init sampleSpawned = some w ∧ w.streams[0]? = some st ∧
      st.transition = some .spawned ∧ run step w sampleRemoved = some w' ∧
      handleCommandCancel w'.operations st.operationId "6"
        = .error (.new .notFound "command.cancel" "request_id is not running") :=
  ⟨_, _, _, rfl, rfl, rfl, rfl, rfl⟩

end Imago.Command
