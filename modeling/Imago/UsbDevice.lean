/-
Imago/UsbDevice.lean

The claimed interfaces of the usb plugin (`imago-usb/src/lib.rs`): which
transfers the device threads accept, over all sequences of calls.

A device thread keeps a set of numbers, while several guest resources may stand
for one number, and each of them gives the number up when it is dropped.  The
resources of all devices stand in one registry (`HandleRegistry`), which may
replace a live one when its counter has come round.  `Allowed` excludes exactly
these two.
-/
import Imago.HandleRegistry
import Imago.Runs
import Mathlib.Data.Finset.Basic

namespace Imago.Usb

open HandleRegistry (Registry FreeAhead)

/-! ### Claimed interfaces -/

/-- Those errors of the plugin that the calls below return. -/
inductive UsbError
  | invalidArgument
  | other (message : String)
  deriving DecidableEq

/-- What a claimed-interface resource stands for; `sender` is the channel of
its device thread. -/
structure ClaimedInterfaceHandle where
  number : UInt8
  sender : Nat
  deriving DecidableEq

/-- A live resource of a guest.  `released` records that its interface was
released through `release_interface` since. -/
structure Resource where
  handle : ClaimedInterfaceHandle
  released : Bool

/-- The sets of the device threads, the registry of the process, and the live
resources by their representation, which no function reads. -/
structure Plugin where
  claimed : Nat → Finset UInt8
  handles : Registry ClaimedInterfaceHandle
  resources : Nat → Option Resource

/-- The plugin at the start of the process. -/
def Plugin.init : Plugin := ⟨fun _ => ∅, ⟨∅, 1, by decide⟩, fun _ => none⟩

/-- `ensure_interface_claimed`, the check at the head of every transfer. -/
def ensureInterfaceClaimed (claimed : Finset UInt8) (interface : UInt8) : Except UsbError Unit :=
  if interface ∉ claimed then .error .invalidArgument else .ok ()

/-- `lookup_claimed_interface_handle`, with `map_lookup_error`. -/
def Plugin.lookup (p : Plugin) (rep : Nat) : Except UsbError ClaimedInterfaceHandle :=
  match p.handles.entries[rep]? with
  | some handle => .ok handle
  | none => .error (.other ("claimed interface handle not found: rep=" ++ toString rep))

/-- What a transfer of a resource answers before libusb is asked. -/
def Plugin.transfer (p : Plugin) (rep : Nat) : Except UsbError Unit := do
  let handle ← p.lookup rep
  ensureInterfaceClaimed (p.claimed handle.sender) handle.number

/-- A call, with what libusb answers to it and the rounds of the registration. -/
inductive Call
  | claimInterface (number : UInt8) (sender : Nat) (granted : Bool) (rounds : Nat)
  | releaseInterface (number : UInt8) (sender : Nat) (granted : Bool)
  | transfer (rep : Nat)
  | drop (rep : Nat)

/-- The resource after an explicit release of the interface. -/
def Resource.markReleased (handle : ClaimedInterfaceHandle) (r : Resource) : Resource :=
  if r.handle = handle then { r with released := true } else r

/-- The sets after a device thread has claimed an interface. -/
def Plugin.claim (p : Plugin) (handle : ClaimedInterfaceHandle) : Nat → Finset UInt8 :=
  Function.update p.claimed handle.sender (insert handle.number (p.claimed handle.sender))

/-- The sets after a device thread has given an interface up. -/
def Plugin.unclaim (p : Plugin) (handle : ClaimedInterfaceHandle) : Nat → Finset UInt8 :=
  Function.update p.claimed handle.sender ((p.claimed handle.sender).erase handle.number)

/-- What the device threads and the registry do at a call. -/
def step (p : Plugin) : Call → Option Plugin
  | .claimInterface number sender granted rounds =>
    if granted then
      (HandleRegistry.Usb.registerRep rounds p.handles ⟨number, sender⟩).map fun (rep, handles) =>
        { claimed := p.claim ⟨number, sender⟩
          handles := handles
          resources := Function.update p.resources rep (some ⟨⟨number, sender⟩, false⟩) }
    else some p
  | .releaseInterface number sender granted =>
    let released rep := (p.resources rep).map (Resource.markReleased ⟨number, sender⟩)
    some (if number ∈ p.claimed sender then
        if granted then ⟨p.unclaim ⟨number, sender⟩, p.handles, released⟩ else p
      else ⟨p.claimed, p.handles, released⟩)
  | .transfer rep => (p.resources rep).map fun _ => p
  | .drop rep => (p.resources rep).map fun _ =>
    -- `ReleaseInterfaceNoReply` takes the number out whatever libusb answers
    { claimed := match p.handles.entries[rep]? with
        | some handle => p.unclaim handle
        | none => p.claimed
      handles := { p.handles with entries := p.handles.entries.erase rep }
      resources := Function.update p.resources rep none }

/-- Every live resource stands for its own interface, and no transfer of one
whose interface was not released is rejected. -/
structure Held (p : Plugin) : Prop where
  stands : ∀ rep, p.handles.entries[rep]? = (p.resources rep).map Resource.handle
  accepted : ∀ rep r, p.resources rep = some r → r.released = false → p.transfer rep = .ok ()

/-- A claim finds a free representation before one that stands for another
interface, and a resource is dropped only while no other one needs its
interface. -/
def Allowed (p : Plugin) : Call → Prop
  | .claimInterface number sender granted _ =>
      granted = true → FreeAhead p.handles ⟨number, sender⟩
  | .drop rep => ∀ r, p.resources rep = some r →
      ∀ rep' r', rep' ≠ rep → p.resources rep' = some r' → r'.released = false →
        r'.handle ≠ r.handle
  | _ => True

variable {p p' : Plugin} {call : Call} {calls : List Call} {handle : ClaimedInterfaceHandle}

theorem mem_unclaim {h : ClaimedInterfaceHandle} :
    h.number ∈ p.unclaim handle h.sender ↔ h ≠ handle ∧ h.number ∈ p.claimed h.sender := by
  obtain ⟨n, s⟩ := h
  obtain ⟨n', s'⟩ := handle
  simp only [Plugin.unclaim, Function.update_apply, ne_eq, ClaimedInterfaceHandle.mk.injEq]
  split
  · next heq => subst heq; simp
  · next hne => simp [hne]

theorem mem_claim {h : ClaimedInterfaceHandle} :
    h.number ∈ p.claim handle h.sender ↔ h = handle ∨ h.number ∈ p.claimed h.sender := by
  obtain ⟨n, s⟩ := h
  obtain ⟨n', s'⟩ := handle
  simp only [Plugin.claim, Function.update_apply, ClaimedInterfaceHandle.mk.injEq]
  split
  · next heq => subst heq; simp
  · next hne => simp [hne]

/-- `Held`, read at the sets of the device threads. -/
theorem held_iff : Held p ↔
    (∀ rep, p.handles.entries[rep]? = (p.resources rep).map Resource.handle) ∧
      ∀ rep r, p.resources rep = some r → r.released = false →
        r.handle.number ∈ p.claimed r.handle.sender := by
  have htransfer : ∀ rep r, p.resources rep = some r →
      p.handles.entries[rep]? = (p.resources rep).map Resource.handle →
      (p.transfer rep = .ok () ↔ r.handle.number ∈ p.claimed r.handle.sender) := by
    intro rep r hr hstands
    rw [hr] at hstands
    simp [Plugin.transfer, Plugin.lookup, hstands, ensureInterfaceClaimed, bind, Except.bind]
  constructor
  · rintro ⟨hstands, haccepted⟩
    exact ⟨hstands, fun rep r hr hlive =>
      (htransfer rep r hr (hstands rep)).mp (haccepted rep r hr hlive)⟩
  · rintro ⟨hstands, hmem⟩
    exact ⟨hstands, fun rep r hr hlive =>
      (htransfer rep r hr (hstands rep)).mpr (hmem rep r hr hlive)⟩

theorem of_markReleased {o : Option Resource} {r : Resource}
    (h : o.map (Resource.markReleased handle) = some r) (hlive : r.released = false) :
    o = some r ∧ r.handle ≠ handle := by
  obtain ⟨r₀, rfl, rfl⟩ := Option.map_eq_some_iff.mp h
  unfold Resource.markReleased at hlive ⊢
  split at hlive
  · cases hlive
  · rename_i hne
    rw [if_neg hne]
    exact ⟨rfl, hne⟩

@[simp] theorem map_markReleased (o : Option Resource) :
    (o.map (Resource.markReleased handle)).map Resource.handle = o.map Resource.handle := by
  rw [Option.map_map]
  congr 1
  funext r
  simp only [Function.comp_apply, Resource.markReleased, apply_ite Resource.handle, ite_self]

/-- `Held` after a change at one representation. -/
theorem held_update (h : Held p) {claimed : Nat → Finset UInt8} {rep : Nat} {o : Option Resource}
    {handles : Registry ClaimedInterfaceHandle} :
    Held ⟨claimed, handles, Function.update p.resources rep o⟩ ↔
      (handles.entries[rep]? = o.map Resource.handle ∧
        ∀ k, k ≠ rep → handles.entries[k]? = p.handles.entries[k]?) ∧
      (∀ r, o = some r → r.released = false → r.handle.number ∈ claimed r.handle.sender) ∧
      ∀ k, k ≠ rep → ∀ r, p.resources k = some r → r.released = false →
        r.handle.number ∈ claimed r.handle.sender := by
  rw [held_iff]
  refine and_congr ?_ (Function.forall_update_iff p.resources fun _ o =>
    ∀ r, o = some r → r.released = false → r.handle.number ∈ claimed r.handle.sender)
  simp only [h.stands]
  exact Function.forall_update_iff p.resources fun k o =>
    handles.entries[k]? = o.map Resource.handle

/-- What is held stays held at a claim exactly if the registration is right. -/
theorem held_claim (h : Held p) {rounds rep : Nat} {handles : Registry ClaimedInterfaceHandle}
    (hreg : HandleRegistry.Usb.registerRep rounds p.handles handle = some (rep, handles)) :
    Held ⟨p.claim handle, handles, Function.update p.resources rep (some ⟨handle, false⟩)⟩ ↔
      FreeAhead p.handles handle := by
  rw [← HandleRegistry.registers_iff hreg, held_update h]
  constructor
  · rintro ⟨⟨hstored, hframe⟩, -⟩
    obtain ⟨hne, hfree⟩ := HandleRegistry.free_of_registerLoop hreg
    exact ⟨hne, hfree, hstored, hframe⟩
  · intro hright
    refine ⟨⟨hright.stored, hright.frame⟩, ?_, fun k _ r hr hlive => ?_⟩
    · rintro r hr -
      cases hr
      exact mem_claim.mpr (.inl rfl)
    · exact mem_claim.mpr (.inr ((held_iff.mp h).2 k r hr hlive))

/-- What is held stays held at a call exactly if the call is allowed. -/
theorem held_step (h : Held p) (hstep : step p call = some p') : Held p' ↔ Allowed p call := by
  obtain ⟨hstands, hmem⟩ := held_iff.mp h
  cases call with
  | claimInterface number sender granted rounds =>
    cases granted with
    | false =>
      cases hstep
      exact iff_of_true h nofun
    | true =>
      obtain ⟨⟨rep, handles⟩, hreg, rfl⟩ := Option.map_eq_some_iff.mp hstep
      exact (held_claim h hreg).trans ⟨fun hahead _ => hahead, fun hahead => hahead rfl⟩
  | releaseInterface number sender granted =>
    cases hstep
    refine iff_of_true ?_ trivial
    split_ifs
    · refine held_iff.mpr ⟨fun rep => ?_, fun rep r hr hlive => ?_⟩
      · exact (hstands rep).trans (map_markReleased _).symm
      · obtain ⟨hr, hne⟩ := of_markReleased hr hlive
        exact mem_unclaim.mpr ⟨hne, hmem rep r hr hlive⟩
    · exact h
    · refine held_iff.mpr ⟨fun rep => ?_, fun rep r hr hlive => ?_⟩
      · exact (hstands rep).trans (map_markReleased _).symm
      · exact hmem rep r (of_markReleased hr hlive).1 hlive
  | transfer rep =>
    obtain ⟨-, -, rfl⟩ := Option.map_eq_some_iff.mp hstep
    exact iff_of_true h trivial
  | drop rep =>
    obtain ⟨r, hr, rfl⟩ := Option.map_eq_some_iff.mp hstep
    have hentry : p.handles.entries[rep]? = some r.handle := by rw [hstands, hr]; rfl
    rw [hentry, held_update h]
    constructor
    · rintro ⟨-, -, hmem'⟩ r₁ hr₁ rep' r' hne hr' hlive
      cases hr.symm.trans hr₁
      exact (mem_unclaim.mp (hmem' rep' hne r' hr' hlive)).1
    · intro halone
      refine ⟨⟨getElem?_erase_ite.trans (if_pos rfl), fun k hk => getElem?_erase_ne hk.symm⟩,
        nofun, fun rep' hne r' hr' hlive => ?_⟩
      exact mem_unclaim.mpr ⟨halone r hr rep' r' hne hr' hlive, hmem rep' r' hr' hlive⟩

/-- **When claimed interfaces stay usable.**  In every sequence of allowed
calls no transfer of a live resource is rejected, unless its interface was
released; and the next call keeps it so exactly if it is allowed, too. -/
theorem claimed_interfaces_usable (hok : RunMeets step Allowed .init calls)
    (hrun : run step .init calls = some p) :
    Held p ∧ ∀ call p', step p call = some p' → (Held p' ↔ Allowed p call) := by
  have hheld : Held p := by
    refine run_invariant_of_meets (fun _ _ _ h hok hstep => (held_step h hstep).mpr hok) hok hrun ?_
    exact ⟨fun _ => rfl, nofun⟩
  exact ⟨hheld, fun call p' hstep => held_step hheld hstep⟩

/-- Interfaces 1 and 2 are claimed, 2 is given up, and 1 is still used. -/
theorem claimed_interfaces_usable_two : ∃ p,
    run step .init [.claimInterface 1 0 true 1, .claimInterface 2 0 true 1, .drop 2] = some p ∧
      p.resources 1 = some ⟨⟨1, 0⟩, false⟩ ∧ Held p ∧
      ∀ call p', step p call = some p' → (Held p' ↔ Allowed p call) := by
  have hok : RunMeets step Allowed .init
      [.claimInterface 1 0 true 1, .claimInterface 2 0 true 1, .drop 2] := by
    have hahead {r : Registry ClaimedInterfaceHandle} {handle} (hne : r.next ≠ 0)
        (hfree : r.entries[r.next]? = none) : true = true → FreeAhead r handle :=
      fun _ => HandleRegistry.freeAhead_of_free hne hfree
    refine RunMeets.cons (hahead (by decide) (by decide)) rfl
      (RunMeets.cons (hahead (by decide) (by decide)) rfl (RunMeets.cons ?_ rfl trivial))
    rintro r hr rep' r' hne hr' -
    cases hr
    have hr' := (Function.update_of_ne hne ..).symm.trans hr'
    by_cases hone : rep' = 1
    · subst hone
      cases hr'
      decide
    · cases (Function.update_of_ne hone ..).symm.trans hr'
  exact ⟨_, rfl, rfl, claimed_interfaces_usable hok rfl⟩

/-- Interface 1 is claimed twice.  The drop of the first resource takes it from
the second one, whose transfers then fail. -/
theorem drop_unclaims_other_resource : ∃ p,
    run step .init [.claimInterface 1 0 true 1, .claimInterface 1 0 true 1, .drop 1] = some p ∧
      p.resources 2 = some ⟨⟨1, 0⟩, false⟩ ∧ p.transfer 2 = .error .invalidArgument :=
  ⟨_, rfl, rfl, by decide⟩

end Imago.Usb
