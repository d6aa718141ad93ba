/-
Imago/SessionIndex.lean

The in-memory index of upload sessions (`artifact_store/session_index.rs`)
and its three ways to drop sessions: expiry of unfinished uploads, eviction
of committed ones, and removal by deploy id.

All three end in `collect_sessions_for_removal_locked`.  What they do to the
index is said once, by the relation `Removes st st' plan`: sessions are kept
unchanged or removed, the plan lists exactly the files of the removed ones,
and the index stays a bijection between idempotency keys and sessions
(`IndexInv`).  `Removes` composes (`Removes.trans`), so the cleanup that
every operation of the store runs first has the same specification
(`removes_collectSessionCleanup`).
-/
import Imago.ByteRanges
import Imago.Errors
import Imago.StableSort
import Mathlib.Data.String.Basic

namespace Imago

open Std (TreeMap)

/-! ### The index -/

/-- Internal mutable state for one upload session. -/
structure UploadSession where
  deployId : String
  serviceName : String
  idempotencyKey : String
  fingerprint : String
  artifactDigest : String
  artifactSize : Nat
  manifestDigest : String
  uploadToken : String
  filePath : String
  receivedRanges : List ByteRange
  committed : Bool
  inflightWrites : Nat
  commitInProgress : Bool
  updatedAtEpochSecs : Nat
  deriving DecidableEq

/-- In-memory index of active sessions and idempotency keys. -/
structure StoreState where
  sessions : TreeMap String UploadSession
  idempotency : TreeMap String String

/-- `StoreState::default()`. -/
def StoreState.empty : StoreState := ⟨∅, ∅⟩

/-- Deferred file removals collected while the lock is held. -/
abbrev CleanupPlan := List String

/-! ### Removal -/

/-- The body of the loop of `collect_sessions_for_removal_locked`. -/
def removeSession (acc : StoreState × CleanupPlan) (deployId : String) :
    StoreState × CleanupPlan :=
  match acc.1.sessions[deployId]? with
  | none => acc
  | some session =>
    ({ sessions := acc.1.sessions.erase deployId
       idempotency :=
         if acc.1.idempotency[session.idempotencyKey]? = some deployId then
           acc.1.idempotency.erase session.idempotencyKey
         else acc.1.idempotency },
      acc.2 ++ [session.filePath])

/-- `collect_sessions_for_removal_locked`. -/
def collectSessionsForRemoval (st : StoreState) (deployIds : List String) :
    StoreState × CleanupPlan :=
  deployIds.foldl removeSession (st, [])

/-- The ids that `collect_expired_sessions` selects. -/
def expiredIds (st : StoreState) (now uploadTtl : Nat) : List String :=
  st.sessions.toList.filterMap fun (deployId, session) =>
    if session.committed || decide (session.inflightWrites > 0) || session.commitInProgress then
      none
    else if now - session.updatedAtEpochSecs ≥ uploadTtl then some deployId
    else none

/-- `collect_expired_sessions`. -/
def collectExpiredSessions (st : StoreState) (now uploadTtl : Nat) :
    StoreState × CleanupPlan :=
  collectSessionsForRemoval st (expiredIds st now uploadTtl)

/-- The committed sessions that are old enough to go. -/
def staleCommittedIds (st : StoreState) (now committedTtl : Nat)
    (protectedIds : List String) : List String :=
  st.sessions.toList.filterMap fun (deployId, session) =>
    if !session.committed || decide (session.inflightWrites > 0) || session.commitInProgress
        || protectedIds.contains deployId then
      none
    else if now - session.updatedAtEpochSecs ≥ committedTtl then some deployId
    else none

/-- The committed sessions that compete for the remaining places, with the
time of their last use. -/
def committedSurvivors (st : StoreState) (protectedIds removedIds : List String) :
    List (String × Nat) :=
  st.sessions.toList.filterMap fun (deployId, session) =>
    if !session.committed || decide (session.inflightWrites > 0) || session.commitInProgress then
      none
    else if protectedIds.contains deployId then none
    else if removedIds.contains deployId then none
    else some (deployId, session.updatedAtEpochSecs)

/-- How many committed sessions are protected. -/
def protectedCommittedCount (st : StoreState) (protectedIds : List String) : Nat :=
  (st.sessions.toList.filter fun (deployId, session) =>
    session.committed && protectedIds.contains deployId).length

/-- The ids that `collect_orphan_committed_sessions` selects: the stale ones,
then the least recently used ones beyond the limit. -/
def orphanIds (st : StoreState) (now committedTtl maxCommitted : Nat)
    (protectedIds : List String) : List String :=
  let removeIds := staleCommittedIds st now committedTtl protectedIds
  let survivors := committedSurvivors st protectedIds removeIds
  let allowed := maxCommitted - protectedCommittedCount st protectedIds
  if survivors.length > allowed then
    removeIds ++ ((survivors.insertionSort fun a b => a.2 ≤ b.2).take
      (survivors.length - allowed)).map Prod.fst
  else removeIds

/-- `collect_orphan_committed_sessions`. -/
def collectOrphanCommittedSessions (st : StoreState) (now committedTtl maxCommitted : Nat)
    (protectedIds : List String) : StoreState × CleanupPlan :=
  collectSessionsForRemoval st (orphanIds st now committedTtl maxCommitted protectedIds)

/-- The keys whose session no longer exists. -/
def orphanKeys (st : StoreState) : List String :=
  st.idempotency.toList.filterMap fun (key, deployId) =>
    if st.sessions.contains deployId then none else some key

/-- `cleanup_orphan_idempotency`. -/
def cleanupOrphanIdempotency (st : StoreState) : StoreState :=
  { st with idempotency := (orphanKeys st).foldl (fun m key => m.erase key) st.idempotency }

/-! ### The index invariant -/

/-- The idempotency map and the sessions map are in bijection, and every
session is filed under its own deploy id. -/
structure IndexInv (st : StoreState) : Prop where
  deployId_eq : ∀ (d : String) s, st.sessions[d]? = some s → s.deployId = d
  key_of_session : ∀ (d : String) s, st.sessions[d]? = some s →
    st.idempotency[s.idempotencyKey]? = some d
  session_of_key : ∀ (k : String) d, st.idempotency[k]? = some d →
    ∃ s, st.sessions[d]? = some s ∧ s.idempotencyKey = k

theorem indexInv_empty : IndexInv StoreState.empty := by
  constructor <;> intro x y h <;> simp [StoreState.empty] at h

variable {st : StoreState} {d : String} {s : UploadSession}

/-- No two live sessions share an idempotency key. -/
theorem IndexInv.key_injective (h : IndexInv st) {d' : String} {s' : UploadSession}
    (hs : st.sessions[d]? = some s) (hs' : st.sessions[d']? = some s')
    (hkey : s.idempotencyKey = s'.idempotencyKey) : d = d' := by
  have h₁ := h.key_of_session d s hs
  have h₂ := h.key_of_session d' s' hs'
  rw [hkey, h₂] at h₁
  exact (Option.some.inj h₁).symm

/-- With the invariant there is no orphan key. -/
theorem IndexInv.orphanKeys_eq_nil (h : IndexInv st) : orphanKeys st = [] := by
  rw [orphanKeys, List.filterMap_eq_nil_iff]
  rintro ⟨k, d⟩ hmem
  obtain ⟨s, hs, -⟩ := h.session_of_key k d (TreeMap.mem_toList_iff_getElem?_eq_some.mp hmem)
  have hcont : st.sessions.contains d = true := by
    rw [TreeMap.contains_eq_isSome_getElem?, hs, Option.isSome_some]
  simp [hcont]

/-! ### What a removal does -/

/-- `st'` is `st` with some sessions removed, and `plan` lists their files. -/
structure Removes (st st' : StoreState) (plan : CleanupPlan) : Prop where
  kept_or_gone : ∀ d : String, st'.sessions[d]? = st.sessions[d]? ∨ st'.sessions[d]? = none
  mem_plan : ∀ p, p ∈ plan ↔ ∃ (d : String) (s : UploadSession),
    st.sessions[d]? = some s ∧ st'.sessions[d]? = none ∧ s.filePath = p
  indexInv : IndexInv st → IndexInv st'

theorem Removes.refl (st : StoreState) : Removes st st [] where
  kept_or_gone := fun _ => Or.inl rfl
  mem_plan := by
    intro p
    constructor
    · intro hp; cases hp
    · rintro ⟨d, s, hs, hnone, -⟩
      rw [hs] at hnone; cases hnone
  indexInv := id

theorem Removes.of_some {st' : StoreState} {plan : CleanupPlan} (h : Removes st st' plan)
    (hs : st'.sessions[d]? = some s) : st.sessions[d]? = some s := by
  rcases h.kept_or_gone d with hd | hd
  · rw [← hd]; exact hs
  · rw [hd] at hs; cases hs

theorem Removes.trans {st₁ st₂ : StoreState} {p₁ p₂ : CleanupPlan} (h₁ : Removes st st₁ p₁)
    (h₂ : Removes st₁ st₂ p₂) : Removes st st₂ (p₁ ++ p₂) where
  kept_or_gone := by
    intro d
    rcases h₂.kept_or_gone d with hd | hd
    · rw [hd]; exact h₁.kept_or_gone d
    · exact .inr hd
  mem_plan := by
    intro p
    rw [List.mem_append, h₁.mem_plan, h₂.mem_plan]
    constructor
    · rintro (⟨d, s, hs, hnone, hp⟩ | ⟨d, s, hs, hnone, hp⟩)
      · refine ⟨d, s, hs, ?_, hp⟩
        rcases h₂.kept_or_gone d with hd | hd
        · rw [hd, hnone]
        · exact hd
      · exact ⟨d, s, h₁.of_some hs, hnone, hp⟩
    · rintro ⟨d, s, hs, hnone, hp⟩
      rcases h₁.kept_or_gone d with hd | hd
      · exact .inr ⟨d, s, hd.trans hs, hnone, hp⟩
      · exact .inl ⟨d, s, hs, hd, hp⟩
  indexInv := fun h => h₂.indexInv (h₁.indexInv h)

/-- Removing one session that exists. -/
theorem removes_erase (hs : st.sessions[d]? = some s) :
    Removes st
      { sessions := st.sessions.erase d
        idempotency :=
          if st.idempotency[s.idempotencyKey]? = some d then st.idempotency.erase s.idempotencyKey
          else st.idempotency }
      [s.filePath] where
  kept_or_gone := by
    intro d'
    by_cases hd : d = d'
    · right; simp [hd]
    · left; simp [TreeMap.getElem?_erase, hd]
  mem_plan := by
    intro p
    rw [List.mem_singleton]
    constructor
    · rintro rfl
      exact ⟨d, s, hs, by simp, rfl⟩
    · rintro ⟨d', s', hs', hnone, rfl⟩
      by_cases hd : d = d'
      · subst hd
        rw [hs] at hs'
        rw [Option.some.inj hs']
      · rw [getElem?_erase_ne hd, hs'] at hnone
        cases hnone
  indexInv := by
    intro h
    have hkey := h.key_of_session d s hs
    rw [if_pos hkey]
    refine ⟨?_, ?_, ?_⟩
    · intro d' s' hs'
      simp only [getElem?_erase_ite] at hs'
      split at hs'
      · cases hs'
      · exact h.deployId_eq d' s' hs'
    · intro d' s' hs'
      simp only [getElem?_erase_ite] at hs' ⊢
      split at hs'
      · cases hs'
      · rename_i hne
        -- another session has another key, so its entry survives
        rw [if_neg fun hk => hne (h.key_injective hs hs' hk)]
        exact h.key_of_session d' s' hs'
    · intro k d' hk
      simp only [getElem?_erase_ite] at hk ⊢
      split at hk
      · cases hk
      · rename_i hne
        obtain ⟨s', hs', rfl⟩ := h.session_of_key k d' hk
        refine ⟨s', ?_, rfl⟩
        rw [if_neg]
        · exact hs'
        · rintro rfl
          rw [hs] at hs'
          exact hne (by rw [Option.some.inj hs'])

theorem removes_foldl_removeSession (ids : List String) (st st₀ : StoreState)
    (plan : CleanupPlan) (h : Removes st₀ st plan) :
    Removes st₀ (ids.foldl removeSession (st, plan)).1
      (ids.foldl removeSession (st, plan)).2 := by
  induction ids generalizing st plan with
  | nil => exact h
  | cons d ds ih =>
    rw [List.foldl_cons]
    rcases e : st.sessions[d]? with - | s
    · have hstep : removeSession (st, plan) d = (st, plan) := by simp [removeSession, e]
      rw [hstep]
      exact ih st plan h
    · simp only [removeSession, e]
      exact ih _ _ (h.trans (removes_erase e))

theorem removes_collectSessionsForRemoval (st : StoreState) (ids : List String) :
    Removes st (collectSessionsForRemoval st ids).1 (collectSessionsForRemoval st ids).2 :=
  removes_foldl_removeSession ids st st [] (Removes.refl st)

/-- The sessions that are gone afterwards are exactly the named ones. -/
theorem sessions_collectSessionsForRemoval (st : StoreState) (ids : List String) (d : String) :
    (collectSessionsForRemoval st ids).1.sessions[d]?
      = if d ∈ ids then none else st.sessions[d]? := by
  have key : ∀ (ids : List String) (st : StoreState) (plan : CleanupPlan),
      (ids.foldl removeSession (st, plan)).1.sessions[d]?
        = if d ∈ ids then none else st.sessions[d]? := by
    intro ids
    induction ids with
    | nil => intro st plan; simp
    | cons d' ds ih =>
      intro st plan
      rw [List.foldl_cons]
      rcases e : st.sessions[d']? with - | s
      · have hstep : removeSession (st, plan) d' = (st, plan) := by simp [removeSession, e]
        rw [hstep, ih]
        by_cases hd : d = d'
        · subst hd; simp [e]
        · simp [hd]
      · simp only [removeSession, e]
        rw [ih]
        by_cases hd : d' = d
        · subst hd; simp
        · simp [TreeMap.getElem?_erase, hd, Ne.symm hd]
  exact key ids st []

/-! ### The selections pick idle sessions -/

/-- A session that no push and no commit is working on. -/
def UploadSession.Idle (s : UploadSession) : Prop :=
  s.inflightWrites = 0 ∧ s.commitInProgress = false

instance (s : UploadSession) : Decidable s.Idle := inferInstanceAs (Decidable (_ ∧ _))

/-- An unfinished upload whose time is up. -/
def UploadSession.Expired (s : UploadSession) (now ttl : Nat) : Prop :=
  s.committed = false ∧ s.Idle ∧ ttl ≤ now - s.updatedAtEpochSecs

variable {ttl now : Nat}

theorem mem_expiredIds :
    d ∈ expiredIds st now ttl ↔ ∃ s, st.sessions[d]? = some s ∧ s.Expired now ttl := by
  simp only [expiredIds, List.mem_filterMap, Prod.exists,
    TreeMap.mem_toList_iff_getElem?_eq_some, UploadSession.Expired, UploadSession.Idle]
  constructor
  · rintro ⟨d', s, hs, hd⟩
    split at hd
    · cases hd
    · rename_i hcond
      split at hd
      · cases hd
        simp only [Bool.or_eq_true, decide_eq_true_eq, not_or, Bool.not_eq_true] at hcond
        exact ⟨s, hs, hcond.1.1, ⟨by omega, hcond.2⟩, by assumption⟩
      · cases hd
  · rintro ⟨s, hs, hc, ⟨hi, hp⟩, hage⟩
    exact ⟨d, s, hs, by simp [hc, hi, hp, hage]⟩

/-- A committed session that eviction may take. -/
def UploadSession.Evictable (s : UploadSession) (prot : List String) (d : String) : Prop :=
  s.committed = true ∧ s.Idle ∧ d ∉ prot

/-- Evictable and unused for too long. -/
def UploadSession.Stale (s : UploadSession) (now ttl : Nat) (prot : List String) (d : String) :
    Prop :=
  s.Evictable prot d ∧ ttl ≤ now - s.updatedAtEpochSecs

/-- Evictable and recent: the session competes for the places there are. -/
def UploadSession.Competes (s : UploadSession) (now ttl : Nat) (prot : List String)
    (d : String) : Prop :=
  s.Evictable prot d ∧ now - s.updatedAtEpochSecs < ttl

instance (s : UploadSession) (prot : List String) (d : String) : Decidable (s.Evictable prot d) :=
  inferInstanceAs (Decidable (_ ∧ _ ∧ _))

instance (s : UploadSession) (now ttl : Nat) (prot : List String) (d : String) :
    Decidable (s.Competes now ttl prot d) :=
  inferInstanceAs (Decidable (_ ∧ _))

/-- How many sessions have a property. -/
def StoreState.count (st : StoreState) (P : String → UploadSession → Prop)
    [∀ d s, Decidable (P d s)] : Nat :=
  st.sessions.toList.countP fun x => decide (P x.1 x.2)

/-- The places that protected sessions leave to the others. -/
def StoreState.places (st : StoreState) (limit : Nat) (prot : List String) : Nat :=
  limit - st.count fun d s => s.committed = true ∧ d ∈ prot

/-- The session competes, and so many competitors are more recently used that
no place is left for it. -/
def StoreState.Evicts (st : StoreState) (now ttl limit : Nat) (prot : List String)
    (d : String) (s : UploadSession) : Prop :=
  s.Competes now ttl prot d ∧
    (st.count fun d' s' => s'.Competes now ttl prot d' ∧
        Before (d', s'.updatedAtEpochSecs) (d, s.updatedAtEpochSecs)) + st.places limit prot
      < st.count fun d' s' => s'.Competes now ttl prot d'

variable {prot : List String}

theorem mem_staleCommittedIds :
    d ∈ staleCommittedIds st now ttl prot ↔
      ∃ s, st.sessions[d]? = some s ∧ s.Stale now ttl prot d := by
  simp only [staleCommittedIds, List.mem_filterMap, Prod.exists,
    TreeMap.mem_toList_iff_getElem?_eq_some, UploadSession.Stale, UploadSession.Evictable,
    UploadSession.Idle]
  constructor
  · rintro ⟨d', s, hs, hd⟩
    split at hd
    · cases hd
    · rename_i hcond
      split at hd
      · cases hd
        simp only [Bool.or_eq_true, decide_eq_true_eq, not_or, Bool.not_eq_true,
          Bool.not_eq_eq_eq_not, Bool.not_true, List.contains_iff_mem] at hcond
        exact ⟨s, hs, ⟨by simpa using hcond.1.1.1, ⟨by omega, hcond.1.2⟩, by simpa using hcond.2⟩,
          by assumption⟩
      · cases hd
  · rintro ⟨s, hs, ⟨hc, ⟨hi, hp⟩, hprot⟩, hage⟩
    exact ⟨d, s, hs, by simp [hc, hi, hp, hprot, hage]⟩

theorem committedSurvivors_eq (st : StoreState) (prot gone : List String) :
    committedSurvivors st prot gone
      = (st.sessions.toList.filter fun x => decide (x.2.Evictable prot x.1 ∧ x.1 ∉ gone)).map
          fun x => (x.1, x.2.updatedAtEpochSecs) := by
  rw [committedSurvivors, ← List.filterMap_eq_map, ← List.filterMap_eq_filter,
    List.filterMap_filterMap]
  refine List.filterMap_congr fun x _ => ?_
  obtain ⟨d, s⟩ := x
  have hguard : (!s.committed || decide (s.inflightWrites > 0) || s.commitInProgress) = true ↔
      ¬(s.committed = true ∧ s.Idle) := by
    simp only [UploadSession.Idle, Bool.or_eq_true, Bool.not_eq_eq_eq_not, Bool.not_true,
      decide_eq_true_eq]
    rcases s.committed <;> rcases s.commitInProgress <;> simp
    omega
  by_cases hc : s.committed = true ∧ s.Idle
  · obtain ⟨hcom, hi, hp⟩ := hc
    by_cases hprot : d ∈ prot <;> by_cases hgone : d ∈ gone <;>
      simp [hcom, hi, hp, hprot, hgone, Option.guard, UploadSession.Evictable, UploadSession.Idle]
  · have hev : ¬s.Evictable prot d := fun h => hc ⟨h.1, h.2.1⟩
    simp [hguard.mpr hc, hev, Option.guard]

/-- The stale sessions are out, so the survivors are the competitors. -/
theorem survivors_eq_competitors (st : StoreState) (now ttl : Nat) (prot : List String) :
    committedSurvivors st prot (staleCommittedIds st now ttl prot)
      = (st.sessions.toList.filter fun x => decide (x.2.Competes now ttl prot x.1)).map
          fun x => (x.1, x.2.updatedAtEpochSecs) := by
  rw [committedSurvivors_eq]
  congr 1
  refine List.filter_congr fun x hx => ?_
  obtain ⟨d, s⟩ := x
  have hs := TreeMap.mem_toList_iff_getElem?_eq_some.mp hx
  refine decide_eq_decide.mpr (and_congr_right fun hev => ?_)
  rw [mem_staleCommittedIds]
  constructor
  · intro hout
    by_contra hage
    exact hout ⟨s, hs, hev, Nat.not_lt.mp hage⟩
  · rintro hage ⟨s', hs', -, hage'⟩
    obtain rfl := Option.mem_unique hs hs'
    exact absurd hage (Nat.not_lt.mpr hage')

theorem places_eq (st : StoreState) (limit : Nat) (prot : List String) :
    limit - protectedCommittedCount st prot = st.places limit prot := by
  rw [protectedCommittedCount, StoreState.places, StoreState.count, List.countP_eq_length_filter]
  congr 2
  refine List.filter_congr fun x _ => ?_
  rw [Bool.eq_iff_iff]
  simp

variable {limit : Nat}

section Survivors

variable {st : StoreState} {now ttl : Nat} {prot : List String}

theorem pairwise_survivors : (committedSurvivors st prot
    (staleCommittedIds st now ttl prot)).Pairwise fun a b => a.1 < b.1 := by
  rw [survivors_eq_competitors, List.pairwise_map]
  exact (TreeMap.ordered_keys_toList.imp fun h => compare_lt_iff_lt.mp h).filter _

theorem length_survivors :
    (committedSurvivors st prot (staleCommittedIds st now ttl prot)).length
      = st.count fun d s => s.Competes now ttl prot d := by
  rw [survivors_eq_competitors, List.length_map, StoreState.count, List.countP_eq_length_filter]

theorem mem_survivors {t : Nat} :
    (d, t) ∈ committedSurvivors st prot (staleCommittedIds st now ttl prot) ↔
      ∃ s, st.sessions[d]? = some s ∧ s.Competes now ttl prot d ∧ s.updatedAtEpochSecs = t := by
  rw [survivors_eq_competitors, List.mem_map]
  constructor
  · rintro ⟨⟨d', s⟩, hx, heq⟩
    obtain ⟨hx, hcomp⟩ := List.mem_filter.mp hx
    simp only [Prod.mk.injEq] at heq
    obtain ⟨rfl, rfl⟩ := heq
    exact ⟨s, TreeMap.mem_toList_iff_getElem?_eq_some.mp hx, by simpa using hcomp, rfl⟩
  · rintro ⟨s, hs, hcomp, rfl⟩
    exact ⟨(d, s), List.mem_filter.mpr
      ⟨TreeMap.mem_toList_iff_getElem?_eq_some.mpr hs, by simpa using hcomp⟩, rfl⟩

theorem countP_before_survivors (x : String × Nat) :
    (committedSurvivors st prot (staleCommittedIds st now ttl prot)).countP (fun y => Before y x)
      = st.count fun d s => s.Competes now ttl prot d ∧ Before (d, s.updatedAtEpochSecs) x := by
  rw [survivors_eq_competitors, List.countP_map, List.countP_filter, StoreState.count]
  refine List.countP_congr fun x _ => ?_
  simp [and_comm]

/-- The selection as one list; without an overflow nothing is taken. -/
theorem orphanIds_eq (limit : Nat) : orphanIds st now ttl limit prot
    = staleCommittedIds st now ttl prot ++
      (((committedSurvivors st prot (staleCommittedIds st now ttl prot)).insertionSort
        fun a b => a.2 ≤ b.2).take
          ((st.count fun d s => s.Competes now ttl prot d) -
            st.places limit prot)).map Prod.fst := by
  simp only [orphanIds]
  rw [places_eq, length_survivors]
  split
  · rfl
  · rename_i hfit
    rw [Nat.sub_eq_zero_of_le (Nat.not_lt.mp hfit), List.take_zero, List.map_nil, List.append_nil]

/-- **Which sessions eviction selects**: the stale ones, and those for which
the more recently used competitors leave no place. -/
theorem mem_orphanIds :
    d ∈ orphanIds st now ttl limit prot ↔ ∃ s, st.sessions[d]? = some s ∧
      (s.Stale now ttl prot d ∨ st.Evicts now ttl limit prot d s) := by
  -- the first `n` of the sorted survivors, where `n` is what exceeds the places
  have hlru : ∀ n, d ∈ (((committedSurvivors st prot
      (staleCommittedIds st now ttl prot)).insertionSort
        fun a b => a.2 ≤ b.2).take n).map Prod.fst ↔
      ∃ s, st.sessions[d]? = some s ∧ s.Competes now ttl prot d ∧
        (st.count fun d' s' => s'.Competes now ttl prot d' ∧
          Before (d', s'.updatedAtEpochSecs) (d, s.updatedAtEpochSecs)) < n := by
    intro n
    simp only [List.mem_map, Prod.exists, exists_and_right, exists_eq_right,
      mem_take_insertionSort pairwise_survivors, mem_survivors, countP_before_survivors]
    constructor
    · rintro ⟨t, ⟨s, hs, hcomp, rfl⟩, hlt⟩
      exact ⟨s, hs, hcomp, hlt⟩
    · rintro ⟨s, hs, hcomp, hlt⟩
      exact ⟨_, ⟨s, hs, hcomp, rfl⟩, hlt⟩
  rw [orphanIds_eq, List.mem_append, hlru, mem_staleCommittedIds]
  simp only [and_or_left, exists_or]
  refine or_congr_right (exists_congr fun s => and_congr_right fun _ => and_congr_right fun _ => ?_)
  omega

end Survivors

/-- Eviction picks only committed, idle sessions that are not protected. -/
theorem of_mem_orphanIds (h : d ∈ orphanIds st now ttl limit prot) :
    ∃ s, st.sessions[d]? = some s ∧ s.Evictable prot d := by
  obtain ⟨s, hs, hstale | hevicts⟩ := mem_orphanIds.mp h
  · exact ⟨s, hs, hstale.1⟩
  · exact ⟨s, hs, hevicts.1.1⟩

section Count

variable {st st' : StoreState} {P Q : String → UploadSession → Prop} [∀ d s, Decidable (P d s)]
  [∀ d s, Decidable (Q d s)]

theorem nodup_ids (st : StoreState) (P : String → UploadSession → Prop) [∀ d s, Decidable (P d s)] :
    ((st.sessions.toList.filter fun x => decide (P x.1 x.2)).map Prod.fst).Nodup := by
  rw [List.Nodup, List.pairwise_map]
  refine List.Pairwise.filter _ (TreeMap.distinct_keys_toList.imp fun hne heq => ?_)
  exact hne (by rw [heq]; exact Std.ReflCmp.compare_self)

/-- A count is no more than the ids there are. -/
theorem StoreState.count_le_length {ids : List String}
    (h : ∀ (d : String) s, st.sessions[d]? = some s → P d s → d ∈ ids) :
    st.count P ≤ ids.length := by
  rw [StoreState.count, List.countP_eq_length_filter, ← List.length_map Prod.fst]
  refine List.Nodup.length_le_of_subset (nodup_ids st P) fun d hd => ?_
  obtain ⟨⟨d', s⟩, hx, rfl⟩ := List.mem_map.mp hd
  obtain ⟨hs, hP⟩ := List.mem_filter.mp hx
  exact h d' s (TreeMap.mem_toList_iff_getElem?_eq_some.mp hs) (by simpa using hP)

/-- What is counted here is counted there under the same id. -/
theorem StoreState.count_le (h : ∀ (d : String) s, st'.sessions[d]? = some s → P d s →
      ∃ s₀, st.sessions[d]? = some s₀ ∧ Q d s₀) : st'.count P ≤ st.count Q := by
  have hlength : st.count Q
      = ((st.sessions.toList.filter fun x => decide (Q x.1 x.2)).map Prod.fst).length := by
    rw [StoreState.count, List.countP_eq_length_filter, List.length_map]
  rw [hlength]
  refine StoreState.count_le_length fun d s hs hP => ?_
  obtain ⟨s₀, hs₀, hQ⟩ := h d s hs hP
  exact List.mem_map.mpr ⟨(d, s₀), List.mem_filter.mpr
    ⟨TreeMap.mem_toList_iff_getElem?_eq_some.mpr hs₀, by simpa using hQ⟩, rfl⟩

/-- Counts see only the sessions they are about. -/
theorem StoreState.count_congr
    (h : ∀ (d : String) s, P d s → (st'.sessions[d]? = some s ↔ st.sessions[d]? = some s)) :
    st'.count P = st.count P := by
  apply Nat.le_antisymm
  · exact StoreState.count_le fun d s hs hP => ⟨s, (h d s hP).mp hs, hP⟩
  · exact StoreState.count_le fun d s hs hP => ⟨s, (h d s hP).mpr hs, hP⟩

end Count

/-- Eviction leaves no more sessions to compete than there are places. -/
theorem count_evictable_le_places {st' : StoreState}
    (h : ∀ (d : String) s, st'.sessions[d]? = some s →
      st.sessions[d]? = some s ∧ d ∉ orphanIds st now ttl limit prot) :
    (st'.count fun d s => s.Evictable prot d) ≤ st.places limit prot := by
  set sorted := (committedSurvivors st prot (staleCommittedIds st now ttl prot)).insertionSort
    fun a b => a.2 ≤ b.2 with hsorted
  set overflow := (st.count fun d s => s.Competes now ttl prot d) - st.places limit prot
    with hoverflow
  have hlength : sorted.length = st.count fun d s => s.Competes now ttl prot d := by
    rw [hsorted, List.length_insertionSort, length_survivors]
  -- what is left is behind the entries that were taken from the front
  have hrest : ∀ (d : String) s, st'.sessions[d]? = some s → s.Evictable prot d →
      d ∈ (sorted.drop overflow).map Prod.fst := by
    intro d s hs hev
    obtain ⟨hs₀, hkept⟩ := h d s hs
    have hage : now - s.updatedAtEpochSecs < ttl := by
      by_contra hage
      exact hkept (mem_orphanIds.mpr ⟨s, hs₀, .inl ⟨hev, Nat.not_lt.mp hage⟩⟩)
    have hmem : (d, s.updatedAtEpochSecs) ∈ sorted :=
      (List.mem_insertionSort _).mpr (mem_survivors.mpr ⟨s, hs₀, ⟨hev, hage⟩, rfl⟩)
    rw [← List.take_append_drop overflow sorted, List.mem_append] at hmem
    rcases hmem with hfront | hback
    · refine absurd ?_ hkept
      rw [orphanIds_eq, List.mem_append]
      exact .inr (List.mem_map.mpr ⟨_, hfront, rfl⟩)
    · exact List.mem_map.mpr ⟨_, hback, rfl⟩
  refine Nat.le_trans (StoreState.count_le_length hrest) ?_
  rw [List.length_map, List.length_drop, hlength]
  omega

/-! ### What eviction leaves -/

/-- Of two competitors the one that is kept is at least as recent. -/
theorem StoreState.Evicts.updatedAt_le {d' : String} {s' : UploadSession}
    (hout : st.Evicts now ttl limit prot d' s') (hcomp : s.Competes now ttl prot d)
    (hin : ¬st.Evicts now ttl limit prot d s) : s'.updatedAtEpochSecs ≤ s.updatedAtEpochSecs := by
  by_contra hlt
  refine hin ⟨hcomp, Nat.lt_of_le_of_lt (Nat.add_le_add_right ?_ _) hout.2⟩
  -- whatever comes before the older one comes before the younger one
  refine StoreState.count_le fun d'' s'' hs'' ⟨hcomp'', hbefore⟩ => ⟨s'', hs'', hcomp'', .inl ?_⟩
  rcases hbefore with h | ⟨h, -⟩ <;> simp only at h ⊢ <;> omega

section Eviction

variable {st st' : StoreState} {now ttl limit : Nat} {prot : List String} {plan : CleanupPlan}
  (h : collectOrphanCommittedSessions st now ttl limit prot = (st', plan))

include h

theorem sessions_of_collect (d : String) :
    st'.sessions[d]? = if d ∈ orphanIds st now ttl limit prot then none else st.sessions[d]? := by
  rw [← sessions_collectSessionsForRemoval]
  exact congrArg (·.1.sessions[d]?) h.symm

/-- A session is kept unless its id is selected. -/
theorem kept_iff : st'.sessions[d]? = some s ↔
    st.sessions[d]? = some s ∧ d ∉ orphanIds st now ttl limit prot := by
  rw [sessions_of_collect h]
  by_cases hd : d ∈ orphanIds st now ttl limit prot <;> simp [hd]

/-- Every competitor is kept or is one of those that exceed the places. -/
theorem count_competes_le :
    (st.count fun d s => s.Competes now ttl prot d) ≤
      (st'.count fun d s => s.Competes now ttl prot d) +
      ((st.count fun d s => s.Competes now ttl prot d) - st.places limit prot) := by
  set overflow := (st.count fun d s => s.Competes now ttl prot d) - st.places limit prot
  set taken := (((committedSurvivors st prot (staleCommittedIds st now ttl prot)).insertionSort
    fun a b => a.2 ≤ b.2).take overflow).map Prod.fst with htaken
  set keptIds := (st'.sessions.toList.filter fun x => decide (x.2.Competes now ttl prot x.1)).map
    Prod.fst with hkeptIds
  have hall : ∀ (d : String) s, st.sessions[d]? = some s → s.Competes now ttl prot d →
      d ∈ keptIds ++ taken := by
    intro d s hs hcomp
    by_cases hd : d ∈ orphanIds st now ttl limit prot
    · rw [orphanIds_eq, List.mem_append] at hd
      rcases hd with hstale | htake
      · -- a competitor is too recent to be stale
        obtain ⟨s', hs', -, hage⟩ := mem_staleCommittedIds.mp hstale
        obtain rfl := Option.mem_unique hs hs'
        exact absurd hcomp.2 (Nat.not_lt.mpr hage)
      · exact List.mem_append_right _ htake
    · refine List.mem_append_left _ (List.mem_map.mpr ⟨(d, s), List.mem_filter.mpr ⟨?_, ?_⟩, rfl⟩)
      · exact TreeMap.mem_toList_iff_getElem?_eq_some.mpr ((kept_iff h).mpr ⟨hs, hd⟩)
      · simpa using hcomp
  have hkept : keptIds.length = st'.count fun d s => s.Competes now ttl prot d := by
    rw [hkeptIds, List.length_map, StoreState.count, List.countP_eq_length_filter]
  have htake : taken.length ≤ overflow := by
    rw [htaken, List.length_map]
    exact List.length_take_le ..
  calc (st.count fun d s => s.Competes now ttl prot d)
      ≤ (keptIds ++ taken).length := StoreState.count_le_length hall
    _ ≤ _ := by rw [List.length_append, hkept]; exact Nat.add_le_add_left htake _

/-- **How many competitors are kept**: as many as there are places for. -/
theorem count_kept : (st'.count fun d s => s.Competes now ttl prot d)
    = min (st.count fun d s => s.Competes now ttl prot d) (st.places limit prot) := by
  have hall := count_competes_le h
  have hfew : (st'.count fun d s => s.Competes now ttl prot d) ≤
      st.count fun d s => s.Competes now ttl prot d :=
    StoreState.count_le fun d s hs hcomp => ⟨s, ((kept_iff h).mp hs).1, hcomp⟩
  have hplaces : (st'.count fun d s => s.Competes now ttl prot d) ≤ st.places limit prot :=
    Nat.le_trans (StoreState.count_le fun d s hs hcomp => ⟨s, hs, hcomp.1⟩)
      (count_evictable_le_places fun d s => (kept_iff h).mp)
  omega

/-- **Eviction takes what it must and no more.**  Sessions that are
uncommitted, busy or protected stay, the stale ones go, and of the others as
many stay as the protected ones leave places for, the most recent first. -/
theorem orphan_cleanup_exact :
    (∀ (d : String) s, st'.sessions[d]? = some s → st.sessions[d]? = some s) ∧
    (∀ (d : String) s, st.sessions[d]? = some s →
      s.committed = false ∨ 0 < s.inflightWrites ∨ s.commitInProgress = true ∨ d ∈ prot →
      st'.sessions[d]? = some s) ∧
    (∀ (d : String) s, st.sessions[d]? = some s → s.Evictable prot d →
      ttl ≤ now - s.updatedAtEpochSecs → st'.sessions[d]? = none) ∧
    (st'.count fun d s => s.Competes now ttl prot d)
      = min (st.count fun d s => s.Competes now ttl prot d)
          (limit - st.count fun d s => s.committed = true ∧ d ∈ prot) ∧
    (∀ (d d' : String) s s', st.sessions[d]? = some s → s.Competes now ttl prot d →
      st.sessions[d']? = some s' → s'.Competes now ttl prot d' →
      st'.sessions[d]? = some s → st'.sessions[d']? = none →
      s'.updatedAtEpochSecs ≤ s.updatedAtEpochSecs) := by
  refine ⟨fun d s hs => ((kept_iff h).mp hs).1, ?_, ?_, count_kept h, ?_⟩
  · intro d s hs hbusy
    refine (kept_iff h).mpr ⟨hs, fun hd => ?_⟩
    obtain ⟨s', hs', hcommitted, ⟨hidle, hcommit⟩, hfree⟩ := of_mem_orphanIds hd
    obtain rfl := Option.mem_unique hs hs'
    rcases hbusy with hno | hwrites | hcommits | hprot
    · exact absurd (hno.symm.trans hcommitted) (by decide)
    · omega
    · exact absurd (hcommit.symm.trans hcommits) (by decide)
    · exact hfree hprot
  · intro d s hs hev hage
    rw [sessions_of_collect h, if_pos (mem_orphanIds.mpr ⟨s, hs, Or.inl ⟨hev, hage⟩⟩)]
  · intro d d' s s' hs hcomp hs' hcomp' hkept hgone
    have hin : d' ∈ orphanIds st now ttl limit prot := by
      by_contra hout
      rw [(kept_iff h).mpr ⟨hs', hout⟩] at hgone
      cases hgone
    obtain ⟨s'', hs'', hstale | hevicts⟩ := mem_orphanIds.mp hin <;>
      obtain rfl := Option.mem_unique hs' hs''
    · exact absurd hcomp'.2 (Nat.not_lt.mpr hstale.2)
    · refine hevicts.updatedAt_le hcomp fun hout => ?_
      exact ((kept_iff h).mp hkept).2 (mem_orphanIds.mpr ⟨s, hs, .inr hout⟩)

end Eviction

/-- Two idle committed sessions and one place: the older one goes. -/
theorem orphan_cleanup_exact_two :
    let session (t : Nat) : UploadSession :=
      ⟨"d", "svc", "key", "fp", "digest", 4, "manifest", "token", "file", [], true, 0, false, t⟩
    let st : StoreState := ⟨.ofList [("a", session 5), ("b", session 7)], ∅⟩
    let st' := (collectOrphanCommittedSessions st 10 8 1 []).1
    st'.sessions["b"]? = some (session 7) ∧ st'.sessions["a"]? = none ∧
      (session 5).updatedAtEpochSecs ≤ (session 7).updatedAtEpochSecs := by
  intro session st st'
  have hb : st'.sessions["b"]? = some (session 7) := by decide +kernel
  have ha : st'.sessions["a"]? = none := by decide +kernel
  have hcomp : ∀ (t : Nat) (d : String), 10 - t < 8 → (session t).Competes 10 8 [] d :=
    fun t d ht => ⟨⟨rfl, ⟨rfl, rfl⟩, List.not_mem_nil⟩, ht⟩
  have heta := (Prod.mk.eta (p := collectOrphanCommittedSessions st 10 8 1 [])).symm
  have horder := (orphan_cleanup_exact heta).2.2.2.2
  exact ⟨hb, ha, horder "b" "a" _ _ (by decide +kernel)
    (hcomp 7 "b" (by decide)) (by decide +kernel) (hcomp 5 "a" (by decide)) hb ha⟩

theorem cleanupOrphanIdempotency_eq (h : IndexInv st) : cleanupOrphanIdempotency st = st := by
  rw [cleanupOrphanIdempotency, h.orphanKeys_eq_nil, List.foldl_nil]

end Imago
