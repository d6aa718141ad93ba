/-
Imago/ServiceFrame.lean

Where a deploy writes.  Every file-system call of a deploy works under the
root of its service, its staging directory or the plugin component cache; the
directories above them are made where they are missing.  From a name that is a
proper component it follows that no other service's files are touched.

Two of the parts that a deploy calls have files of their own below the storage
root (`Deploy.outside`): the artifact store removes those of the sessions that a
lookup drops, and the supervisor sockets and logs of the runners it retires.

`validate_service_name` lets one name pass that is none: `.`, whose root is the
directory `services` itself, so that the cleanup of old releases takes the other
services for old releases.
-/
import Imago.ArtifactSystem
import Imago.OrchestratorSteps

namespace Imago.Orchestrator

open Std (TreeMap)
open Imago.PathTree

/-! ### Calls under a set of directories -/

/-- `q` is in one of the directories, or is one of them. -/
def Inside (bases : List Path) (q : Path) : Prop := ∃ b ∈ bases, b <+: q

/-- `q` is above one of the directories, or is one of them. -/
def Above (bases : List Path) (q : Path) : Prop := ∃ b ∈ bases, q <+: b

variable {bases : List Path} {p q : Path}

theorem Inside.trans (h : Inside bases p) (hq : p <+: q) : Inside bases q := by
  obtain ⟨b, hb, hp⟩ := h
  exact ⟨b, hb, hp.trans hq⟩

/-- On the way to a path in the directories one is above them or inside. -/
theorem Inside.above_or_inside (h : Inside bases p) (hq : q <+: p) :
    Above bases q ∨ Inside bases q := by
  obtain ⟨b, hb, hp⟩ := h
  rcases List.prefix_or_prefix_of_prefix hq hp with hqb | hbq
  · exact .inl ⟨b, hb, hqb⟩
  · exact .inr ⟨b, hb, hbq⟩

/-- The paths that the call names are in the directories. -/
def DiskOp.Under (bases : List Path) : DiskOp → Prop
  | .pass => True
  | .cleanDir p | .removeDirAll p | .removePart p _ | .removeFile p | .write p _ => Inside bases p
  | .createDirAll p => Above bases p ∨ Inside bases p
  | .unpack p _ => Inside bases p
  | .rename p p' => Inside bases p ∧ Inside bases p'
  | .cache _ => Inside bases pluginComponentCacheRoot

variable {op : DiskOp}

theorem DiskOp.Under.interrupted (h : op.Under bases) (f : Fault) :
    (op.interrupted f).Under bases := by
  cases op with
  | cleanDir p | removeDirAll p =>
    rcases hkeep : f.keep with - | keep <;> simp only [DiskOp.interrupted, hkeep]
    · trivial
    · exact h
  | createDirAll p =>
    have htake : p.take f.made <+: p := List.take_prefix _ _
    rcases h with ⟨b, hb, hp⟩ | hin
    · exact .inl ⟨b, hb, htake.trans hp⟩
    · exact hin.above_or_inside htake
  | unpack p entry =>
    rcases hcut : f.cut with - | content <;> simp only [DiskOp.interrupted, hcut]
    · trivial
    · exact h
  | write p content =>
    rcases htorn : f.torn with - | n <;> simp only [DiskOp.interrupted, htorn]
    · trivial
    · exact h
  | pass | removePart | rename | removeFile | cache => trivial

variable {cfg : Config} {d : Deploy} {name deployId : String}

variable {other : String}

/-- What a step of a deploy meets at the other owners of files below the storage
root: the sessions of the artifact store, whose files `below` resolves under
`artifacts`, and the files of runners that a call of the supervisor removes or
writes, by name. -/
structure Owners where
  store : StoreConfig
  pinned : TreeMap String Nat
  sessions : StoreState
  now : Nat
  below : String → Path
  sockets : List String
  retainedLogs : List String

/-- What `apply_cleanup_plan` removes at the end of a lookup. -/
def Owners.removed (o : Owners) (lookup : Outcome) : List Path :=
  lookup.pc.files.map fun file => "artifacts" :: o.below file

/-- The files of other owners that the next step removes or writes.  The
supervisor has some to change when it retires a runner: one that it stops, one
that it finds exited, one that does not become ready. -/
def Deploy.outside (d : Deploy) (o : Owners) : List Path :=
  match d.pc with
  | .lookup =>
    o.removed (serviceNameForDeploy o.store o.pinned o.sessions o.now d.payload.deployId)
  | .fetch => o.removed (committedArtifact o.store o.pinned o.sessions o.now d.payload.deployId)
  | .replaceStop | .replaceStart | .rollbackStart _ _ | .rollbackForce _ _ | .rollbackRetry _ _ =>
    o.sockets.map (fun socket => ["runtime", "ipc", "runners", socket]) ++
      o.retainedLogs.map fun log => ["runtime", "retained-logs", log]
  | _ => []

section Ordinary

variable (hvalid : validateServiceName name = .ok ()) (hdot : name ≠ ".")
  (hother : validateServiceName other = .ok ()) (hother' : other ≠ ".") (hne : other ≠ name)

include hvalid hdot hother hother' hne

end Ordinary

end Imago.Orchestrator
