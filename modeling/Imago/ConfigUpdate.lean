/-
Imago/ConfigUpdate.lean

Concurrent updates of `imagod.toml`.  An update reads the file, edits the
parsed document, writes a temporary file and renames it over the configuration
(`write_toml_body_atomic`), then loads the result.  The rename is atomic, the
update is not: nothing keeps two updates from reading the same file, and the
second rename then takes back what the first one added.  The temporary file is
named after the clock, so two updates may even share it.

`Apart` is the run in which neither happens: an update renames over the file
that it has read, and writes a temporary file that is not in use.  Then every
update that succeeded is in the file, whatever the interleaving
(`updates_kept`).
-/
import Imago.DaemonConfig
import Imago.Runs
import Mathlib.Logic.Function.Basic

namespace Imago

namespace ConfigUpdate

/-! ### The updates -/

/-- Where an update is.  `base` is the file as it was read. -/
inductive Pc (Body : Type) where
  | start
  | loaded (base : Body) (root : Table)
  | written (base : Body) (nanos : Nat)
  | renamed
  | succeeded
  | failed

/-- A call that adds a public key, and how far it is. -/
structure Call (Body : Type) where
  kind : UpsertKind
  authority : String
  publicKeyHex : String
  pc : Pc Body

/-- The configuration file, the temporary files by the time in their names,
and the updates. -/
structure World (Body : Type) where
  file : Body
  tmps : Nat → Option Body
  calls : List (Call Body)

/-- What may happen next: a new call, or a step of call `i`. -/
inductive Action where
  | call (kind : UpsertKind) (authority publicKeyHex : String)
  | read (i : Nat)
  | write (i nanos : Nat)
  | rename (i : Nat)
  | reload (i : Nat)
  | fail (i : Nat)

variable {Body : Type}

/-- Call `i` goes on. -/
def World.setPc (w : World Body) (i : Nat) (c : Call Body) (pc : Pc Body) : World Body :=
  { w with calls := w.calls.set i { c with pc := pc } }

/-- `load_toml_root`, behind the checks of the arguments. -/
def readFile (crate : TomlCrate Body) (w : World Body) (c : Call Body) : Pc Body :=
  match checkUpsert c.authority c.publicKeyHex with
  | .error _ => .failed
  | .ok _ =>
    match crate.parse w.file with
    | none => .failed
    | some root => .loaded w.file root

/-- The text of the edited document. -/
def editedBody (crate : TomlCrate Body) (c : Call Body) (root : Table) : Option Body :=
  match c.kind.edit c.authority c.publicKeyHex root with
  | .error _ => none
  | .ok root' => crate.render root'

/-- `ImagodConfig::load`. -/
def loads (crate : TomlCrate Body) (d : BuildDefaults) (body : Body) : Bool :=
  match crate.parse body with
  | none => false
  | some root => (loadRoot d root).toOption.isSome

/-- One step of the world, if it is possible. -/
def step (crate : TomlCrate Body) (d : BuildDefaults) (w : World Body) :
    Action → Option (World Body)
  | .call kind authority publicKeyHex =>
    some { w with calls := w.calls ++ [⟨kind, authority, publicKeyHex, .start⟩] }
  | .read i =>
    match w.calls[i]? with
    | some c =>
      match c.pc with
      | .start => some (w.setPc i c (readFile crate w c))
      | _ => none
    | none => none
  | .write i nanos =>
    match w.calls[i]? with
    | some c =>
      match c.pc with
      | .loaded base root =>
        match editedBody crate c root with
        | none => some (w.setPc i c .failed)
        | some body =>
          some { w.setPc i c (.written base nanos) with
            tmps := Function.update w.tmps nanos (some body) }
      | _ => none
    | none => none
  | .rename i =>
    match w.calls[i]? with
    | some c =>
      match c.pc with
      | .written _ nanos =>
        match w.tmps nanos with
        -- the other update that used the name has renamed it away
        | none => some (w.setPc i c .failed)
        | some body =>
          some { w.setPc i c .renamed with
            file := body
            tmps := Function.update w.tmps nanos none }
      | _ => none
    | none => none
  | .reload i =>
    match w.calls[i]? with
    | some c =>
      match c.pc with
      | .renamed => some (w.setPc i c (if loads crate d w.file then .succeeded else .failed))
      | _ => none
    | none => none
  | .fail i =>
    match w.calls[i]? with
    | some c => some (w.setPc i c .failed)
    | none => none

/-- An update replaces the file that it has read, and no two of them use one
temporary file. -/
def Apart (w : World Body) : Action → Prop
  | .write _ nanos => w.tmps nanos = none
  | .rename i => ∀ c base nanos, w.calls[i]? = some c → c.pc = .written base nanos → w.file = base
  | _ => True

/-! ### What must be in the file -/

/-- The client key is listed, in whatever case. -/
def HasClientKey (config : ImagodConfig) (key : String) : Prop :=
  toAsciiLowercase key ∈ config.tls.clientPublicKeys.map toAsciiLowercase

/-- The update is in the file, as far as this can be said: its key may have
been replaced by that of another update for the same authority. -/
def Registered (calls : List (Call Body)) (config : ImagodConfig) (authority : String) : Prop :=
  ∃ c ∈ calls, trim c.authority = authority ∧
    config.tls.knownPublicKeys.lookup authority = some (toAsciiLowercase c.publicKeyHex)

/-- The configuration `config` is `config₀` with the keys of the updates for
which `done` holds. -/
structure Extends (config₀ config : ImagodConfig) (calls : List (Call Body))
    (done : Pc Body → Prop) : Prop where
  old_clients : ∀ k ∈ config₀.tls.clientPublicKeys, HasClientKey config k
  new_clients : ∀ c ∈ calls, done c.pc → c.kind = .clientKey → HasClientKey config c.publicKeyHex
  authorities : ∀ a, config.tls.knownPublicKeys.lookup a = config₀.tls.knownPublicKeys.lookup a ∨
    Registered calls config a
  new_authorities : ∀ c ∈ calls, done c.pc → Registered calls config (trim c.authority)

/-- The file is valid, keeps what was there before, has every update that
succeeded, and is otherwise unchanged. -/
def Kept (crate : TomlCrate Body) (d : BuildDefaults) (root₀ : Table) (config₀ : ImagodConfig)
    (w : World Body) : Prop :=
  ∃ root config, crate.parse w.file = some root ∧ loadRoot d root = .ok config ∧
    SameOutside root₀ root ∧ Extends config₀ config w.calls (· = .succeeded)

/-! ### What an update adds -/

section Upsert

variable {config : ImagodConfig} {kind : UpsertKind} {authority key k : String}

theorem HasClientKey.upsert (h : HasClientKey config k) :
    HasClientKey (config.upsert kind authority key) k := by
  cases kind with
  | publicKey => exact h
  | clientKey =>
    have hmem : toAsciiLowercase k ∈
        (addClientKey config.tls.clientPublicKeys (toAsciiLowercase key)).map toAsciiLowercase := by
      have hlower : toAsciiLowercase k ∈
          (config.tls.clientPublicKeys.map toAsciiLowercase).map toAsciiLowercase := by
        refine List.mem_map.mpr ⟨_, h, ?_⟩
        rw [toAsciiLowercase_idem]
      rw [addClientKey]
      split
      · exact hlower
      · rw [List.map_append]
        exact List.mem_append_left _ hlower
    exact hmem

theorem hasClientKey_upsert : HasClientKey (config.upsert .clientKey authority key) key := by
  have hmem : toAsciiLowercase key ∈
      (addClientKey config.tls.clientPublicKeys (toAsciiLowercase key)).map toAsciiLowercase := by
    refine List.mem_map.mpr ⟨toAsciiLowercase key, ?_, toAsciiLowercase_idem key⟩
    rw [addClientKey]
    split
    · assumption
    · exact List.mem_append_right _ (List.mem_singleton_self _)
  exact hmem

theorem lookup_upsert (a : String) :
    (config.upsert kind authority key).tls.knownPublicKeys.lookup a =
      if a = trim authority then some (toAsciiLowercase key)
      else config.tls.knownPublicKeys.lookup a :=
  lookup_insertKey _ _ _ _

end Upsert

section Calls

variable {calls : List (Call Body)} {config₀ config : ImagodConfig} {i : Nat} {c : Call Body}
  {pc : Pc Body} {done : Pc Body → Prop}

theorem mem_set_cases {x : Call Body} (h : x ∈ calls.set i { c with pc := pc }) :
    x = { c with pc := pc } ∨ x ∈ calls := by
  rcases List.mem_or_eq_of_mem_set h with h | h
  · exact .inr h
  · exact .inl h

/-- The progress of an update does not matter for who registered what. -/
theorem Registered.setPc {a : String} (h : Registered calls config a) (hi : calls[i]? = some c) :
    Registered (calls.set i { c with pc := pc }) config a := by
  obtain ⟨x, hx, hauthority, hlookup⟩ := h
  obtain ⟨j, hj⟩ := List.mem_iff_getElem?.mp hx
  by_cases hij : i = j
  · subst hij
    obtain rfl : c = x := Option.mem_unique hi hj
    obtain ⟨hlt, -⟩ := List.getElem?_eq_some_iff.mp hi
    exact ⟨{ c with pc := pc }, List.mem_set hlt _, hauthority, hlookup⟩
  · refine ⟨x, List.mem_of_getElem? (i := j) ?_, hauthority, hlookup⟩
    rw [List.getElem?_set_ne hij, hj]

section

variable (h : Extends config₀ config calls done)

include h

/-- A step of an update that leaves the file alone. -/
theorem Extends.setPc (hi : calls[i]? = some c)
    (hpc : done pc → done c.pc) :
    Extends config₀ config (calls.set i { c with pc := pc }) done where
  old_clients := h.old_clients
  new_clients := by
    intro x hx hdone hkind
    rcases mem_set_cases hx with rfl | hx
    · exact h.new_clients c (List.mem_of_getElem? hi) (hpc hdone) hkind
    · exact h.new_clients x hx hdone hkind
  authorities := fun a => (h.authorities a).imp_right fun hr => hr.setPc hi
  new_authorities := by
    intro x hx hdone
    rcases mem_set_cases hx with rfl | hx
    · exact (h.new_authorities c (List.mem_of_getElem? hi) (hpc hdone)).setPc hi
    · exact (h.new_authorities x hx hdone).setPc hi

/-- The file gets the key of an update. -/
theorem Extends.upsert (hi : calls[i]? = some c) :
    Extends config₀ (config.upsert c.kind c.authority c.publicKeyHex)
      (calls.set i { c with pc := pc }) done := by
  obtain ⟨hlt, -⟩ := List.getElem?_eq_some_iff.mp hi
  have hown : Registered (calls.set i { c with pc := pc })
      (config.upsert c.kind c.authority c.publicKeyHex) (trim c.authority) :=
    ⟨{ c with pc := pc }, List.mem_set hlt _, rfl, by rw [lookup_upsert, if_pos rfl]⟩
  have hother : ∀ a, Registered calls config a → Registered (calls.set i { c with pc := pc })
      (config.upsert c.kind c.authority c.publicKeyHex) a := by
    intro a hr
    by_cases ha : a = trim c.authority
    · exact ha ▸ hown
    · obtain ⟨x, hx, hauthority, hlookup⟩ := hr.setPc hi
      exact ⟨x, hx, hauthority, by rw [lookup_upsert, if_neg ha, hlookup]⟩
  refine ⟨fun k hk => (h.old_clients k hk).upsert, ?_, fun a => ?_, ?_⟩
  · intro x hx hdone hkind
    rcases mem_set_cases hx with rfl | hx
    · obtain hkind : c.kind = .clientKey := hkind
      rw [hkind]
      exact hasClientKey_upsert
    · exact (h.new_clients x hx hdone hkind).upsert
  · by_cases ha : a = trim c.authority
    · exact .inr (ha ▸ hown)
    · rcases h.authorities a with hsame | hr
      · exact .inl (by rw [lookup_upsert, if_neg ha, hsame])
      · exact .inr (hother a hr)
  · intro x hx hdone
    rcases mem_set_cases hx with rfl | hx
    · exact hown
    · exact hother _ (h.new_authorities x hx hdone)

theorem Extends.mono {done' : Pc Body → Prop}
    (hmono : ∀ pc, done' pc → done pc) : Extends config₀ config calls done' :=
  ⟨h.old_clients, fun c hc hdone => h.new_clients c hc (hmono _ hdone), h.authorities,
    fun c hc hdone => h.new_authorities c hc (hmono _ hdone)⟩

/-- A call that has not begun adds nothing. -/
theorem Extends.concat (hc : ¬done c.pc) :
    Extends config₀ config (calls ++ [c]) done := by
  have hmore : ∀ a, Registered calls config a → Registered (calls ++ [c]) config a :=
    fun a ⟨x, hx, hr⟩ => ⟨x, List.mem_append_left _ hx, hr⟩
  refine ⟨h.old_clients, fun x hx hdone => ?_, fun a => (h.authorities a).imp_right (hmore a),
    fun x hx hdone => ?_⟩
  · rcases List.mem_append.mp hx with hx | hx
    · exact h.new_clients x hx hdone
    · exact absurd (List.mem_singleton.mp hx ▸ hdone) hc
  · rcases List.mem_append.mp hx with hx | hx
    · exact hmore _ (h.new_authorities x hx hdone)
    · exact absurd (List.mem_singleton.mp hx ▸ hdone) hc

end

end Calls

/-! ### Between two steps -/

/-- The new file is in place. -/
def Pc.Committed : Pc Body → Prop
  | .renamed | .succeeded => True
  | _ => False

/-- What an update in progress knows. -/
def Ready (crate : TomlCrate Body) (tmps : Nat → Option Body) (c : Call Body) : Prop :=
  match c.pc with
  | .loaded base root =>
    checkUpsert c.authority c.publicKeyHex = .ok () ∧ crate.parse base = some root
  | .written base nanos =>
    checkUpsert c.authority c.publicKeyHex = .ok () ∧ ∃ root root' body,
      crate.parse base = some root ∧ c.kind.edit c.authority c.publicKeyHex root = .ok root' ∧
      crate.render root' = some body ∧ tmps nanos = some body
  | _ => True

/-- The file is the first one with what the committed updates add, and each update
in progress has a temporary file of its own. -/
structure Inv (crate : TomlCrate Body) (d : BuildDefaults) (root₀ : Table) (config₀ : ImagodConfig)
    (w : World Body) : Prop where
  current : ∃ root config, crate.parse w.file = some root ∧ loadRoot d root = .ok config ∧
    SameOutside root₀ root ∧ Extends config₀ config w.calls Pc.Committed
  ready : ∀ (i : Nat) c, w.calls[i]? = some c → Ready crate w.tmps c
  distinct : ∀ (i j : Nat) c c' base base' nanos, w.calls[i]? = some c → w.calls[j]? = some c' →
    c.pc = .written base nanos → c'.pc = .written base' nanos → i = j

variable {nanos : Nat}

/-- A call does not depend on the temporary files of the others. -/
theorem Ready.update {crate : TomlCrate Body} {tmps : Nat → Option Body} {c : Call Body}
    (h : Ready crate tmps c) (value : Option Body)
    (hne : ∀ base n, c.pc = .written base n → n ≠ nanos) :
    Ready crate (Function.update tmps nanos value) c := by
  rw [Ready] at h ⊢
  split
  · rename_i hpc
    rw [hpc] at h
    exact h
  · rename_i base n hpc
    rw [hpc] at h
    obtain ⟨hargs, root, root', body, hparse, hedit, hrender, htmp⟩ := h
    refine ⟨hargs, root, root', body, hparse, hedit, hrender, ?_⟩
    rw [Function.update_of_ne (hne base n hpc), htmp]
  · trivial

section Steps

variable {crate : TomlCrate Body} {d : BuildDefaults} {root₀ : Table} {config₀ : ImagodConfig}
  {w w' : World Body} {i : Nat} {c : Call Body}

section

variable (h : Inv crate d root₀ config₀ w)

include h

/-- A step that changes only where one update is, and not to `written`. -/
theorem Inv.setPc (hi : w.calls[i]? = some c) {pc : Pc Body}
    (hdone : pc.Committed → c.pc.Committed) (hready : Ready crate w.tmps { c with pc := pc })
    (hpc : ∀ base nanos, pc ≠ .written base nanos) :
    Inv crate d root₀ config₀ (w.setPc i c pc) := by
  obtain ⟨root, config, hparse, hload, hsame, hext⟩ := h.current
  refine ⟨⟨root, config, hparse, hload, hsame, hext.setPc hi hdone⟩, ?_, ?_⟩
  · exact forall_set h.ready hready
  · intro j j' x x' base base' nanos hj hj' hx hx'
    rcases getElem?_set_cases hj with ⟨-, rfl⟩ | ⟨-, hj⟩
    · exact absurd hx (hpc base nanos)
    · rcases getElem?_set_cases hj' with ⟨-, rfl⟩ | ⟨-, hj'⟩
      · exact absurd hx' (hpc base' nanos)
      · exact h.distinct j j' x x' base base' nanos hj hj' hx hx'

theorem Inv.fail (hi : w.calls[i]? = some c) :
    Inv crate d root₀ config₀ (w.setPc i c .failed) :=
  h.setPc hi (fun hdone => hdone.elim) trivial nofun

theorem Inv.call (kind : UpsertKind)
    (authority publicKeyHex : String) :
    Inv crate d root₀ config₀
      { w with calls := w.calls ++ [⟨kind, authority, publicKeyHex, .start⟩] } := by
  obtain ⟨root, config, hparse, hload, hsame, hext⟩ := h.current
  refine ⟨⟨root, config, hparse, hload, hsame, hext.concat fun hdone => hdone⟩, ?_, ?_⟩
  · exact forall_concat h.ready trivial
  · intro j j' x x' base base' nanos hj hj' hx hx'
    rcases getElem?_concat_cases hj with hj | ⟨-, rfl⟩
    · rcases getElem?_concat_cases hj' with hj' | ⟨-, rfl⟩
      · exact h.distinct j j' x x' base base' nanos hj hj' hx hx'
      · cases hx'
    · cases hx

theorem Inv.read (hi : w.calls[i]? = some c) :
    Inv crate d root₀ config₀ (w.setPc i c (readFile crate w c)) := by
  rw [readFile]
  split
  · exact h.fail hi
  · rename_i hargs
    split
    · exact h.fail hi
    · rename_i root hparse
      exact h.setPc hi (fun hdone => hdone.elim) ⟨hargs, hparse⟩ nofun

theorem Inv.write (hi : w.calls[i]? = some c) {base body : Body} {root : Table}
    (hpc : c.pc = .loaded base root) (hbody : editedBody crate c root = some body)
    (hfree : w.tmps nanos = none) :
    Inv crate d root₀ config₀ { w.setPc i c (.written base nanos) with
      tmps := Function.update w.tmps nanos (some body) } := by
  obtain ⟨root', config, hparse, hload, hsame, hext⟩ := h.current
  -- the temporary files of the other updates are in use, so this is not one of them
  have hused : ∀ (j : Nat) (x : Call Body) base' n, w.calls[j]? = some x → x.pc = .written base' n →
      n ≠ nanos := by
    rintro j x base' n hj hx rfl
    have hready := h.ready j x hj
    rw [Ready, hx] at hready
    obtain ⟨-, _, _, _, _, _, _, htmp⟩ := hready
    rw [hfree] at htmp
    cases htmp
  refine ⟨⟨root', config, hparse, hload, hsame, hext.setPc hi fun hdone => hdone.elim⟩, ?_, ?_⟩
  · intro j x hj
    rcases getElem?_set_cases hj with ⟨-, rfl⟩ | ⟨-, hj⟩
    · have hready := h.ready i c hi
      rw [Ready, hpc] at hready
      rw [editedBody] at hbody
      split at hbody
      · cases hbody
      · rename_i edited hedit
        exact ⟨hready.1, root, edited, body, hready.2, hedit, hbody, Function.update_self ..⟩
    · exact (h.ready j x hj).update _ fun base' n hx => hused j x base' n hj hx
  · intro j j' x x' b b' n hj hj' hx hx'
    rcases getElem?_set_cases hj with ⟨rfl, rfl⟩ | ⟨-, hold⟩ <;>
      rcases getElem?_set_cases hj' with ⟨rfl, rfl⟩ | ⟨-, hold'⟩
    · rfl
    · cases hx
      exact absurd rfl (hused j' x' b' nanos hold' hx')
    · cases hx'
      exact absurd rfl (hused j x b nanos hold hx)
    · exact h.distinct j j' x x' b b' n hold hold' hx hx'

/-- **The rename.**  The file that it replaces is the one that was read, so the
new file has everything that the old one had. -/
theorem Inv.rename (hi : w.calls[i]? = some c) {base body : Body} (hpc : c.pc = .written base nanos)
    (hbody : w.tmps nanos = some body) (hfile : w.file = base) :
    Inv crate d root₀ config₀ { w.setPc i c .renamed with
      file := body, tmps := Function.update w.tmps nanos none } := by
  obtain ⟨root, config, hparse, hload, hsame, hext⟩ := h.current
  have hready := h.ready i c hi
  rw [Ready, hpc] at hready
  obtain ⟨hargs, r, root', b, hr, hedit, hrender, htmp⟩ := hready
  obtain rfl : body = b := Option.mem_unique hbody htmp
  obtain rfl : root = r := Option.some.inj (hparse.symm.trans (hfile ▸ hr))
  obtain ⟨root'', hedit', hload', hsame'⟩ := edit_spec hload hargs c.kind
  obtain rfl : root' = root'' := Except.ok.inj (hedit.symm.trans hedit')
  refine ⟨⟨root', _, crate.parse_render root' body hrender, hload', hsame.trans hsame',
    hext.upsert hi⟩, ?_, ?_⟩
  · intro j x hj
    rcases getElem?_set_cases hj with ⟨-, rfl⟩ | ⟨hne, hj⟩
    · trivial
    · refine (h.ready j x hj).update _ fun base' n hx heq => ?_
      exact hne (h.distinct j i x c base' base n hj hi hx (heq ▸ hpc))
  · intro j j' x x' b b' n hj hj' hx hx'
    rcases getElem?_set_cases hj with ⟨rfl, rfl⟩ | ⟨-, hj⟩
    · cases hx
    · rcases getElem?_set_cases hj' with ⟨rfl, rfl⟩ | ⟨-, hj'⟩
      · cases hx'
      · exact h.distinct j j' x x' b b' n hj hj' hx hx'

end

theorem inv_step {a : Action} (h : Inv crate d root₀ config₀ w) (hok : Apart w a)
    (hstep : step crate d w a = some w') : Inv crate d root₀ config₀ w' := by
  cases a with rw [step] at hstep
  | call kind authority publicKeyHex =>
    cases hstep
    exact h.call kind authority publicKeyHex
  | read i =>
    split at hstep
    · rename_i c hi
      split at hstep
      · cases hstep
        exact h.read hi
      · cases hstep
    · cases hstep
  | write i nanos =>
    split at hstep
    · rename_i c hi
      split at hstep
      · rename_i base root hpc
        split at hstep
        · cases hstep
          exact h.fail hi
        · rename_i body hbody
          cases hstep
          exact h.write hi hpc hbody hok
      · cases hstep
    · cases hstep
  | rename i =>
    split at hstep
    · rename_i c hi
      split at hstep
      · rename_i base nanos hpc
        split at hstep
        · cases hstep
          exact h.fail hi
        · rename_i body hbody
          cases hstep
          exact h.rename hi hpc hbody (hok c base nanos hi hpc)
      · cases hstep
    · cases hstep
  | reload i =>
    split at hstep
    · rename_i c hi
      split at hstep
      · rename_i hpc
        cases hstep
        split
        · exact h.setPc hi (fun _ => by rw [hpc]; trivial) trivial nofun
        · exact h.fail hi
      · cases hstep
    · cases hstep
  | fail i =>
    split at hstep
    · rename_i c hi
      cases hstep
      exact h.fail hi
    · cases hstep

end Steps

/-- **Updates that keep apart are all kept.**  If the file was valid, then in
every run in which each update renames over the file that it has read, with a
temporary file of its own, the file is valid, has every client key and every
authority that it had and the keys of all updates that succeeded, and is
unchanged outside the two lists of keys. -/
theorem updates_kept {Body : Type} (crate : TomlCrate Body) (d : BuildDefaults) {w w' : World Body}
    {root₀ : Table} {config₀ : ImagodConfig} {as : List Action}
    (hparse : crate.parse w.file = some root₀) (hload : loadRoot d root₀ = .ok config₀)
    (hcalls : w.calls = []) (hok : RunMeets (step crate d) Apart w as)
    (h : run (step crate d) w as = some w') : Kept crate d root₀ config₀ w' := by
  have hinit : Inv crate d root₀ config₀ w := by
    refine ⟨⟨root₀, config₀, hparse, hload, .refl root₀,
      ⟨fun k hk => ?_, ?_, fun a => .inl rfl, ?_⟩⟩, ?_, ?_⟩
    · exact List.mem_map_of_mem hk
    all_goals simp [hcalls]
  obtain ⟨root, config, hparse', hload', hsame, hext⟩ :=
    (run_invariant_of_meets (fun _ _ _ => inv_step) hok h hinit).current
  refine ⟨root, config, hparse', hload', hsame, hext.mono fun pc hpc => ?_⟩
  rw [hpc]
  trivial

/-! ### Updates in turn and at once -/

/-- The steps of an update that nobody disturbs. -/
def undisturbed (i : Nat) (kind : UpsertKind) (authority publicKeyHex : String) (nanos : Nat) :
    List Action :=
  [.call kind authority publicKeyHex, .read i, .write i nanos, .rename i, .reload i]

theorem readFile_cases (crate : TomlCrate Body) (w : World Body) (c : Call Body) :
    readFile crate w c = .failed ∨ ∃ root, readFile crate w c = .loaded w.file root := by
  rw [readFile]
  split
  · exact .inl rfl
  · split
    · exact .inl rfl
    · rename_i root _
      exact .inr ⟨root, rfl⟩

/-- An update that nobody disturbs keeps apart from the others. -/
theorem undisturbed_apart {Body : Type} (crate : TomlCrate Body) (d : BuildDefaults)
    {w : World Body} (hfree : w.tmps nanos = none) (kind : UpsertKind)
    (authority publicKeyHex : String) :
    RunMeets (step crate d) Apart w
      (undisturbed w.calls.length kind authority publicKeyHex nanos) := by
  refine ⟨trivial, fun w₁ h₁ => ⟨trivial, fun w₂ h₂ => ?_⟩⟩
  cases h₁
  have hnew :
      (w.calls ++ [(⟨kind, authority, publicKeyHex, .start⟩ : Call Body)])[w.calls.length]? =
      some ⟨kind, authority, publicKeyHex, .start⟩ := by simp
  simp only [step, hnew, Option.some.injEq] at h₂
  subst h₂
  have hcases := readFile_cases crate
    { w with calls := w.calls ++ [⟨kind, authority, publicKeyHex, .start⟩] }
    ⟨kind, authority, publicKeyHex, .start⟩
  generalize readFile crate _ _ = pc at hcases ⊢
  refine ⟨hfree, fun w₃ h₃ => ⟨?_, fun w₄ _ => ⟨trivial, fun _ _ => trivial⟩⟩⟩
  rw [step] at h₃
  split at h₃
  · rename_i c hc
    rcases getElem?_set_cases hc with ⟨-, rfl⟩ | ⟨hne, -⟩
    · rcases hcases with rfl | ⟨root, rfl⟩
      · cases h₃
      · -- the file is still the one that was read
        dsimp only at h₃
        split at h₃
        · cases h₃
          intro c' base n hc' hpc
          rcases getElem?_set_cases hc' with ⟨-, rfl⟩ | ⟨hne, -⟩
          · cases hpc
          · exact absurd rfl hne
        · cases h₃
          intro c' base n hc' hpc
          rcases getElem?_set_cases hc' with ⟨-, rfl⟩ | ⟨hne, -⟩
          · cases hpc
            rfl
          · exact absurd rfl hne
    · exact absurd rfl hne
  · cases h₃

/-- The call has returned without an error. -/
def Pc.isSucceeded : Pc Body → Bool
  | .succeeded => true
  | _ => false

/-- Documents that are their own text. -/
def sampleCrate : TomlCrate Table where
  parse := some
  render := some
  parse_render := fun _ _ h => h ▸ rfl

/-- A key to run the model with. -/
def sampleKey : String := "aaaaaaaaaaaaaaaaaaaaaaaaaaaaaaaaaaaaaaaaaaaaaaaaaaaaaaaaaaaaaaaa"

/-- Another one, in upper case. -/
def otherKey : String := "BBBBBBBBBBBBBBBBBBBBBBBBBBBBBBBBBBBBBBBBBBBBBBBBBBBBBBBBBBBBBBBB"

/-- A configuration with one client key. -/
def sampleRoot : Table :=
  [("tls", .table [("server_key", .str "server.key"),
    ("client_public_keys", .array [.str sampleKey])])]

/-- Only the sample file is there, and nothing has been called. -/
def sampleWorld : World Table := ⟨sampleRoot, fun _ => none, []⟩

/-- A configuration that loads, by its client keys. -/
theorem load_of_clients {root : Table} {keys : List String}
    (h : ((loadRoot sampleDefaults root).toOption.map fun c => c.tls.clientPublicKeys) =
      some keys) :
    ∃ config, loadRoot sampleDefaults root = .ok config ∧ config.tls.clientPublicKeys = keys := by
  obtain ⟨config, hconfig, hkeys⟩ := Option.map_eq_some_iff.mp h
  rcases hload : loadRoot sampleDefaults root with e | c
  · rw [hload] at hconfig
    cases hconfig
  · rw [hload] at hconfig
    exact ⟨c, rfl, Option.some.inj hconfig ▸ hkeys⟩

theorem sampleRoot_loads : ∃ config, loadRoot sampleDefaults sampleRoot = .ok config := by
  have hsample : ((loadRoot sampleDefaults sampleRoot).toOption.map fun c =>
      c.tls.clientPublicKeys) = some [sampleKey] := by decide +kernel
  obtain ⟨config, hload, -⟩ := load_of_clients hsample
  exact ⟨config, hload⟩

/-- Two updates, one after the other. -/
def sampleInTurn : List Action :=
  undisturbed 0 .clientKey "rpc://a:4443" otherKey 7 ++
    undisturbed 1 .publicKey "rpc://b:4443" sampleKey 8

theorem updates_kept_in_turn : ∃ w config₀,
    run (step sampleCrate sampleDefaults) sampleWorld sampleInTurn = some w ∧
    w.calls.map (·.pc.isSucceeded) = [true, true] ∧
    Kept sampleCrate sampleDefaults sampleRoot config₀ w := by
  obtain ⟨config₀, hload⟩ := sampleRoot_loads
  have hrun : ((run (step sampleCrate sampleDefaults) sampleWorld sampleInTurn).map
      fun w => w.calls.map (·.pc.isSucceeded)) = some [true, true] := by decide +kernel
  obtain ⟨w, hw, hcalls⟩ := Option.map_eq_some_iff.mp hrun
  -- the first update leaves a free name for the second
  have hfirst : ((run (step sampleCrate sampleDefaults) sampleWorld
      (undisturbed 0 .clientKey "rpc://a:4443" otherKey 7)).map
        fun w => (w.calls.length, (w.tmps 8).isNone)) = some (1, true) := by decide +kernel
  obtain ⟨w₁, hw₁, heq⟩ := Option.map_eq_some_iff.mp hfirst
  obtain ⟨hlen, hfree⟩ := Prod.mk.inj heq
  refine ⟨w, config₀, hw, hcalls, updates_kept sampleCrate sampleDefaults rfl hload rfl ?_ hw⟩
  refine (runMeets_append hw₁).mpr ⟨?_, ?_⟩
  · exact undisturbed_apart sampleCrate sampleDefaults rfl .clientKey "rpc://a:4443" otherKey
  · rw [← hlen]
    exact undisturbed_apart sampleCrate sampleDefaults (Option.isNone_iff_eq_none.mp hfree)
      .publicKey "rpc://b:4443" sampleKey

/-- Two updates that read the same file. -/
def sampleOverlap : List Action :=
  [.call .clientKey "rpc://a:4443" otherKey, .call .publicKey "rpc://b:4443" sampleKey,
    .read 0, .read 1, .write 0 7, .rename 0, .reload 0, .write 1 8, .rename 1, .reload 1]

/-- **An update that succeeded may be lost**: of two updates that read the same
file, the second takes back the client key that the first has added. -/
theorem update_lost : ∃ w config₀, loadRoot sampleDefaults sampleRoot = .ok config₀ ∧
    run (step sampleCrate sampleDefaults) sampleWorld sampleOverlap = some w ∧
    w.calls.map (·.pc.isSucceeded) = [true, true] ∧
    ¬Kept sampleCrate sampleDefaults sampleRoot config₀ w := by
  obtain ⟨config₀, hload⟩ := sampleRoot_loads
  have hrun : ((run (step sampleCrate sampleDefaults) sampleWorld sampleOverlap).map fun w =>
      (w.calls.map fun c => (c.kind, c.publicKeyHex, c.pc.isSucceeded),
        (loadRoot sampleDefaults w.file).toOption.map fun c => c.tls.clientPublicKeys)) =
      some ([(.clientKey, otherKey, true), (.publicKey, sampleKey, true)], some [sampleKey]) := by
    decide +kernel
  obtain ⟨w, hw, heq⟩ := Option.map_eq_some_iff.mp hrun
  obtain ⟨hcalls, hfile⟩ := Prod.mk.inj heq
  refine ⟨w, config₀, hload, hw, ?_, ?_⟩
  · have := congrArg (List.map fun x => x.2.2) hcalls
    rwa [List.map_map] at this
  · rintro ⟨root, config, hparse, hload', -, hext⟩
    obtain rfl : w.file = root := Option.some.inj hparse
    obtain ⟨config', hconfig', hkeys⟩ := load_of_clients hfile
    obtain rfl : config = config' := Except.ok.inj (hload'.symm.trans hconfig')
    -- the first update succeeded, but its key is not there
    have hfirst : ∃ c ∈ w.calls, (c.kind, c.publicKeyHex, c.pc.isSucceeded) =
        (UpsertKind.clientKey, otherKey, true) := by
      have hmem : (UpsertKind.clientKey, otherKey, true) ∈
          w.calls.map fun c => (c.kind, c.publicKeyHex, c.pc.isSucceeded) := by
        rw [hcalls]
        exact (.head _)
      exact List.mem_map.mp hmem
    obtain ⟨c, hc, hkind⟩ := hfirst
    simp only [Prod.mk.injEq] at hkind
    obtain ⟨hkind, hkey, hdone⟩ := hkind
    have hpc : c.pc = .succeeded := by
      cases hp : c.pc with
      | succeeded => rfl
      | _ =>
        rw [hp] at hdone
        cases hdone
    have hmem := hext.new_clients c hc hpc hkind
    rw [HasClientKey, hkeys, hkey] at hmem
    exact absurd hmem (by decide +kernel)

end ConfigUpdate

end Imago
