/-
Imago/RetainedStore.lean

The logs of stopped services on disk (`RetainedFileLogStore`): one file per
service, an index of the files with their sizes and times, and a running total
that is kept below a capacity by dropping the oldest files.

Index, total and files change one after the other, and a file operation may
fail between them.  The world is the store and its directory; `upsert` is one
step, with the clock and the outcome of every file operation as input.

`upsert_kept`: if no file operation fails, the names are not blank and the
clock moves past every recorded time, then after every successful upsert index,
total and directory agree, the log just written can be read back unless it
alone is too large, only the oldest logs were dropped, and an index rebuilt from
the directory is the same.  `upsert_not_kept` shows what a tie of two clock
readings and what a file that cannot be removed do to that.
-/
import Imago.Errors
import Imago.LogBuffer
import Imago.MapTotals
import Imago.Runs
import Mathlib.Data.List.Infix
import Mathlib.Data.List.MinMax
import Mathlib.Data.Prod.Lex
import Mathlib.Data.String.Basic

namespace Imago

open Std (TreeMap)

/-! ### Files -/

/-- `StoredRetainedLog`, with the events as they are kept in memory. -/
structure StoredRetainedLog where
  version : Nat
  serviceName : String
  events : List ServiceLogEvent

/-- `STORED_RETAINED_LOG_VERSION`. -/
def storedRetainedLogVersion : Nat := 1

/-- The CBOR and the SHA-256 crate, with the type of encoded logs. -/
structure RetainedCrates (Payload : Type) where
  encode : StoredRetainedLog → Except String Payload
  decode : Payload → Except String StoredRetainedLog
  len : Payload → Nat
  /-- What was encoded is decoded. -/
  decode_encode : ∀ log p, encode log = .ok p → decode p = .ok log
  sha256 : List UInt8 → List UInt8

structure RetainedFile (Payload : Type) where
  payload : Payload
  modified : Nat

/-- `retained-logs`, by file name. -/
abbrev RetainedDir (Payload : Type) := TreeMap String (RetainedFile Payload)

/-- The readable part of a file stem. -/
def serviceComponent (serviceName : String) : List Char :=
  let component := serviceName.toList.map fun ch =>
    if ch.isAlphanum || ch == '-' || ch == '_' then ch else '_'
  if component.isEmpty then "service".toList else component.take 48

/-- `file_stem` and `extension` of a file name that has an extension. -/
def splitExtension (name : String) : Option (List Char × List Char) :=
  (rsplitOnceChars '.' name.toList).filter fun parts => !parts.1.isEmpty

/-- `is_retained_store_file`, of a file. -/
def isRetainedStoreFile (name : String) : Bool :=
  (splitExtension name).any fun parts => parts.2 == "cbor".toList

/-- `stored_service_name`. -/
def storedServiceName (stored : StoredRetainedLog) (name : String) : Option String :=
  if !isBlank stored.serviceName then some stored.serviceName
  else
    (splitExtension name).bind fun parts =>
      (rsplitOnceChars '.' parts.1).bind fun legacy =>
        if isBlank (String.ofList legacy.1) then none else some (String.ofList legacy.1)

section Names

variable {Payload : Type} (c : RetainedCrates Payload)

/-- `stable_service_file_stem`. -/
def stableServiceFileStem (serviceName : String) : List Char :=
  serviceComponent serviceName ++ '.' ::
    ((c.sha256 serviceName.toUTF8.data.toList).take 8).flatMap hexByte

/-- The file name of `file_path_for`. -/
def fileNameFor (serviceName : String) : String :=
  String.ofList (stableServiceFileStem c serviceName ++ ".cbor".toList)

/-- The file name of `tmp_path_for`. -/
def tmpNameFor (serviceName uuid : String) : String :=
  String.ofList ('.' :: stableServiceFileStem c serviceName ++ ".tmp-".toList ++ uuid.toList ++
    ".cbor".toList)

end Names

/-! ### The store -/

structure RetainedFileEntry where
  serviceName : String
  fileName : String
  fileSizeBytes : Nat
  updatedAtUnixMs : Nat

/-- `RetainedFileLogStore`. -/
structure RetainedFileLogStore where
  retainedDir : String
  capacityBytes : Nat
  totalBytes : Nat
  entries : TreeMap String RetainedFileEntry

/-- The store and its directory. -/
structure RetainedWorld (Payload : Type) where
  store : RetainedFileLogStore
  files : RetainedDir Payload

def retainedStoreError (message : String) : ImagodError := .new .internal "service.logs" message

/-- The order of `min_by`: by time, then by name. -/
def RetainedFileEntry.Older (a b : RetainedFileEntry) : Prop :=
  a.updatedAtUnixMs < b.updatedAtUnixMs ∨
    (a.updatedAtUnixMs = b.updatedAtUnixMs ∧ a.serviceName < b.serviceName)

instance (a b : RetainedFileEntry) : Decidable (a.Older b) :=
  inferInstanceAs (Decidable (_ ∨ _))

/-- `min_by`: of two, the later one only if it is older. -/
def olderOf (a b : String × RetainedFileEntry) : String × RetainedFileEntry :=
  if b.2.Older a.2 then b else a

def oldestEntry : List (String × RetainedFileEntry) → Option (String × RetainedFileEntry)
  | [] => none
  | e :: es => some (es.foldl olderOf e)

section Store

variable {Payload : Type} (c : RetainedCrates Payload)

/-- `evict_if_needed`; each round takes an entry out, so there are at most as
many rounds as entries.  `removeFails` says which files cannot be removed. -/
def evictIfNeeded (removeFails : String → Option String) :
    Nat → RetainedWorld Payload → Except ImagodError Unit × RetainedWorld Payload
  | 0, w => (.ok (), w)
  | rounds + 1, w =>
    if w.store.totalBytes ≤ w.store.capacityBytes then (.ok (), w)
    else
      match oldestEntry w.store.entries.toList with
      | none => (.ok (), w)
      | some (name, removed) =>
        let store := { w.store with
          entries := w.store.entries.erase name
          totalBytes := w.store.totalBytes - removed.fileSizeBytes }
        match removeFails removed.fileName with
        | some err =>
          -- `NotFound` counts as removed
          if w.files.contains removed.fileName then
            (.error (retainedStoreError ("failed to remove retained logs file " ++
              store.retainedDir ++ "/" ++ removed.fileName ++ ": " ++ err)),
              { w with store := store })
          else evictIfNeeded removeFails rounds { w with store := store }
        | none =>
          evictIfNeeded removeFails rounds
            { store := store, files := w.files.erase removed.fileName }

/-- What an upsert takes from outside: the outcome of its file operations (of a
failed write also what it leaves of the temporary file), the new UUID, the time
stamp of the file and the clock. -/
structure UpsertInput (Payload : Type) where
  dirCreated : Except String Unit
  uuid : String
  written : Except (String × Option Payload) Unit
  modified : Nat
  renamed : Except String Unit
  tmpRemoved : Bool
  now : Nat
  removeFails : String → Option String

/-- The input of an upsert in which nothing fails. -/
def UpsertInput.smooth (now : Nat) : UpsertInput Payload where
  dirCreated := .ok ()
  uuid := ""
  written := .ok ()
  modified := now
  renamed := .ok ()
  tmpRemoved := true
  now := now
  removeFails := fun _ => none

/-- The bookkeeping of `upsert` once the file is in place. -/
def RetainedFileLogStore.record (s : RetainedFileLogStore) (entry : RetainedFileEntry) :
    RetainedFileLogStore :=
  let total := match s.entries[entry.serviceName]? with
    | some previous => s.totalBytes - previous.fileSizeBytes
    | none => s.totalBytes
  { s with
    totalBytes := total + entry.fileSizeBytes
    entries := (s.entries.erase entry.serviceName).insert entry.serviceName entry }

/-- `upsert`. -/
def upsert (w : RetainedWorld Payload) (serviceName : String) (events : List ServiceLogEvent)
    (input : UpsertInput Payload) : Except ImagodError Unit × RetainedWorld Payload :=
  match c.encode ⟨storedRetainedLogVersion, serviceName, events⟩ with
  | .error err =>
    (.error (retainedStoreError ("failed to encode retained logs for service '" ++ serviceName ++
      "': " ++ err)), w)
  | .ok payload =>
    match input.dirCreated with
    | .error err =>
      (.error (retainedStoreError ("failed to create retained logs dir " ++
        w.store.retainedDir ++ ": " ++ err)), w)
    | .ok () =>
      let fileName := fileNameFor c serviceName
      let tmpName := tmpNameFor c serviceName input.uuid
      match input.written with
      | .error (err, left) =>
        (.error (retainedStoreError ("failed to write retained logs temp file " ++
          w.store.retainedDir ++ "/" ++ tmpName ++ ": " ++ err)),
          match left with
          | some part => { w with files := w.files.insert tmpName ⟨part, input.modified⟩ }
          | none => w)
      | .ok () =>
        let files := w.files.insert tmpName ⟨payload, input.modified⟩
        match input.renamed with
        | .error err =>
          (.error (retainedStoreError ("failed to replace retained logs file " ++
            w.store.retainedDir ++ "/" ++ fileName ++ ": " ++ err)),
            { w with files := if input.tmpRemoved then files.erase tmpName else files })
        | .ok () =>
          let w : RetainedWorld Payload :=
            { store := w.store.record ⟨serviceName, fileName, c.len payload, input.now⟩
              files := (files.erase tmpName).insert fileName ⟨payload, input.modified⟩ }
          evictIfNeeded input.removeFails w.store.entries.size w

/-- `snapshot_events`; `unreadable` is the error of the read, if there is one. -/
def snapshotEvents (w : RetainedWorld Payload) (serviceName : String)
    (unreadable : Option String) : Except ImagodError (Option (List ServiceLogEvent)) :=
  match w.store.entries[serviceName]? with
  | none => .ok none
  | some entry =>
    match w.files[entry.fileName]?, unreadable with
    | none, _ => .ok none
    | some _, some err =>
      .error (retainedStoreError ("failed to read retained logs file " ++ w.store.retainedDir ++
        "/" ++ entry.fileName ++ ": " ++ err))
    | some file, none =>
      match c.decode file.payload with
      | .error err =>
        .error (retainedStoreError ("failed to decode retained logs for service '" ++
          serviceName ++ "': " ++ err))
      | .ok stored =>
        if stored.version ≠ storedRetainedLogVersion then
          .error (retainedStoreError ("unsupported retained logs version " ++
            toString stored.version ++ " for service '" ++ serviceName ++ "'"))
        else .ok (some stored.events)

/-- What fails when a store is opened: which files cannot be removed, read or
looked at. -/
structure OpenFailures where
  remove : String → Option String
  read : String → Option String
  stat : String → Option String

/-- Nothing fails. -/
def OpenFailures.none : OpenFailures := ⟨fun _ => .none, fun _ => .none, fun _ => .none⟩

/-- One file of `rebuild_index_from_disk`.  A file that is no log is removed, if
that works. -/
def rebuildFile (fails : OpenFailures) (w : RetainedWorld Payload) (name : String) :
    Except ImagodError (RetainedWorld Payload) :=
  match w.files[name]? with
  | none => .ok w
  | some file =>
    match fails.read name with
    | some err =>
      .error (retainedStoreError ("failed to read retained logs file " ++ w.store.retainedDir ++
        "/" ++ name ++ ": " ++ err))
    | none =>
      let discarded : RetainedWorld Payload :=
        { w with files := if (fails.remove name).isSome then w.files else w.files.erase name }
      match c.decode file.payload with
      | .error _ => .ok discarded
      | .ok stored =>
        if stored.version ≠ storedRetainedLogVersion then .ok discarded
        else
          match storedServiceName stored name with
          | none => .ok discarded
          | some serviceName =>
            match fails.stat name with
            | some err =>
              .error (retainedStoreError ("failed to stat retained logs file " ++
                w.store.retainedDir ++ "/" ++ name ++ ": " ++ err))
            | none =>
              .ok { w with store :=
                w.store.record ⟨serviceName, name, c.len file.payload, file.modified⟩ }

def readDirError (retainedDir err : String) : ImagodError :=
  retainedStoreError ("failed to read retained logs dir " ++ retainedDir ++ ": " ++ err)

/-- `rebuild_index_from_disk`, over the names that `read_dir` lists. -/
def rebuildIndexFromDisk (fails : OpenFailures) (w : RetainedWorld Payload)
    (listed : Except String (List String)) : Except ImagodError (RetainedWorld Payload) :=
  match listed with
  | .error err => .error (readDirError w.store.retainedDir err)
  | .ok names =>
    (names.filter isRetainedStoreFile).foldlM (rebuildFile c fails)
      { w with store := { w.store with entries := ∅, totalBytes := 0 } }

/-- The store that `new` makes of an empty directory. -/
def RetainedWorld.init (retainedDir : String) (capacityBytes : Nat) : RetainedWorld Payload where
  store := ⟨retainedDir, max capacityBytes 1, 0, ∅⟩
  files := ∅

/-- The size of the store's files. -/
def diskTotal (files : RetainedDir Payload) : Nat :=
  totalOf (fun file => c.len file.payload)
    (files.filter fun name _ => isRetainedStoreFile name)

end Store

/-! ### File names -/

section FileNames

variable {Payload : Type} {c : RetainedCrates Payload}

theorem serviceComponent_head (serviceName : String) :
    ∃ ch cs, serviceComponent serviceName = ch :: cs ∧ ch ≠ '.' := by
  unfold serviceComponent
  dsimp only
  rcases serviceName.toList with - | ⟨ch, cs⟩
  · exact ⟨'s', _, rfl, by decide⟩
  · refine ⟨_, _, rfl, ?_⟩
    dsimp only
    split
    · next hch =>
      rintro rfl
      revert hch
      decide
    · decide

theorem fileNameFor_ne_tmpNameFor (m n uuid : String) : fileNameFor c m ≠ tmpNameFor c n uuid := by
  obtain ⟨ch, cs, hcs, hch⟩ := serviceComponent_head m
  intro h
  have hhead := congrArg (fun s : String => s.toList.head?) h
  simp only [fileNameFor, tmpNameFor, stableServiceFileStem, hcs, String.toList_ofList,
    List.cons_append, List.head?_cons, Option.some.injEq] at hhead
  exact hch hhead

theorem fileNameFor_inj {m n : String} (h : fileNameFor c m = fileNameFor c n) :
    stableServiceFileStem c m = stableServiceFileStem c n := by
  have hlist := congrArg String.toList h
  simp only [fileNameFor, String.toList_ofList] at hlist
  exact List.append_cancel_right hlist

theorem splitExtension_fileNameFor (n : String) :
    splitExtension (fileNameFor c n) = some (stableServiceFileStem c n, "cbor".toList) := by
  obtain ⟨ch, cs, hcs, -⟩ := serviceComponent_head n
  have hsplit : rsplitOnceChars '.' (fileNameFor c n).toList =
      some (stableServiceFileStem c n, "cbor".toList) := by
    rw [fileNameFor, String.toList_ofList, rsplitOnceChars, List.reverse_append]
    show (splitOnceChars '.' ('r' :: 'o' :: 'b' :: 'c' :: '.' ::
      (stableServiceFileStem c n).reverse)).map _ = _
    simp [splitOnceChars]
  rw [splitExtension, hsplit, Option.filter_some, if_pos]
  rw [stableServiceFileStem, hcs]
  rfl

theorem isRetainedStoreFile_fileNameFor (n : String) :
    isRetainedStoreFile (fileNameFor c n) = true := by
  rw [isRetainedStoreFile, splitExtension_fileNameFor]
  rfl

end FileNames

/-! ### The order of eviction -/

namespace RetainedFileEntry

/-- The time and the name, in the order in which `min_by` compares them. -/
def age (e : RetainedFileEntry) : ℕ ×ₗ String := toLex (e.updatedAtUnixMs, e.serviceName)

variable {a b : RetainedFileEntry}

theorem older_iff : a.Older b ↔ a.age < b.age := by
  rw [age, age, Prod.Lex.toLex_lt_toLex]
  rfl

/-- Entries of different services are comparable. -/
theorem older_of_age_le (hname : a.serviceName ≠ b.serviceName) (h : a.age ≤ b.age) :
    a.Older b := by
  refine older_iff.mpr (lt_of_le_of_ne h fun heq => hname ?_)
  exact congrArg (fun age => (ofLex age).2) heq

end RetainedFileEntry

theorem oldestEntry_eq_argmin (es : List (String × RetainedFileEntry)) :
    oldestEntry es = es.argmin fun e => e.2.age := by
  have hfold : ∀ (es : List (String × RetainedFileEntry)) e, some (es.foldl olderOf e) =
      es.foldl (List.argAux fun b c => b.2.age < c.2.age) (some e) := by
    intro es
    induction es with
    | nil => exact fun e => rfl
    | cons f es ih =>
      intro e
      rw [List.foldl_cons, List.foldl_cons, ih]
      simp only [olderOf, List.argAux, RetainedFileEntry.older_iff, apply_ite some]
  cases es with
  | nil => rfl
  | cons e es => exact hfold es e

/-! ### Index and directory -/

/-- The service's log is in the directory, as the entry says. -/
structure Stored {Payload : Type} (c : RetainedCrates Payload) (files : RetainedDir Payload)
    (name : String) (entry : RetainedFileEntry) : Prop where
  serviceName : entry.serviceName = name
  fileName : entry.fileName = fileNameFor c name
  visible : isBlank name = false
  file : ∃ events file, files[fileNameFor c name]? = some file ∧
    c.encode ⟨storedRetainedLogVersion, name, events⟩ = .ok file.payload ∧
    entry.fileSizeBytes = c.len file.payload

/-- Different services have different file stems. -/
def DistinctStems {Payload : Type} (c : RetainedCrates Payload) (services : String → Prop) : Prop :=
  ∀ m n, services m → services n → stableServiceFileStem c m = stableServiceFileStem c n → m = n

/-- Index, total and directory agree.  `services` is a set of services with
different file stems. -/
structure Indexed {Payload : Type} (c : RetainedCrates Payload) (services : String → Prop)
    (w : RetainedWorld Payload) : Prop where
  stored : ∀ name entry, w.store.entries[name]? = some entry → Stored c w.files name entry
  known : ∀ name, name ∈ w.store.entries → services name
  owned : ∀ f, f ∈ w.files → ∃ name, name ∈ w.store.entries ∧ fileNameFor c name = f
  total : w.store.totalBytes = totalOf (·.fileSizeBytes) w.store.entries

variable {entry : RetainedFileEntry} {name : String}

section Agreement

variable {Payload : Type} {c : RetainedCrates Payload} {services : String → Prop}
  {w w' : RetainedWorld Payload}

theorem mem_of_lookup {β : Type} {t : TreeMap String β} {k : String} {v : β} (h : t[k]? = some v) :
    k ∈ t :=
  TreeMap.mem_iff_isSome_getElem?.mpr (by rw [h]; rfl)

theorem exists_lookup {β : Type} {t : TreeMap String β} {k : String} (h : k ∈ t) :
    ∃ v, t[k]? = some v :=
  Option.isSome_iff_exists.mp (TreeMap.mem_iff_isSome_getElem?.mp h)

theorem getElem?_record_self (s : RetainedFileLogStore) (entry : RetainedFileEntry) :
    (s.record entry).entries[entry.serviceName]? = some entry :=
  TreeMap.getElem?_insert_self

theorem getElem?_record_ne (s : RetainedFileLogStore) {e : RetainedFileEntry}
    (h : e.serviceName ≠ name) : (s.record e).entries[name]? = s.entries[name]? :=
  (getElem?_insert_ne h).trans (getElem?_erase_ne h)

/-- Another service's log is not touched by a change of one file. -/
theorem Stored.of_getElem?_eq {files files' : RetainedDir Payload} (h : Stored c files name entry)
    (hf : files'[fileNameFor c name]? = files[fileNameFor c name]?) : Stored c files' name entry :=
  ⟨h.serviceName, h.fileName, h.visible, hf ▸ h.file⟩

theorem indexed_init (retainedDir : String) (capacityBytes : Nat) :
    Indexed c services (.init retainedDir capacityBytes) where
  stored name entry h := by
    rw [RetainedWorld.init, TreeMap.getElem?_emptyc] at h
    cases h
  known name h := absurd h TreeMap.not_mem_emptyc
  owned f h := absurd h TreeMap.not_mem_emptyc
  total := rfl

section

variable (h : Indexed c services w) (hstem : DistinctStems c services)

include h hstem

/-- The directory has the size that the index records. -/
theorem Indexed.diskTotal_eq :
    diskTotal c w.files = w.store.totalBytes := by
  -- every file of a service passes the filter
  have hfile : ∀ name entry, w.store.entries[name]? = some entry →
      ∃ file, (w.files.filter fun f _ => isRetainedStoreFile f)[fileNameFor c name]? = some file ∧
        c.len file.payload = entry.fileSizeBytes := by
    intro name entry hentry
    obtain ⟨events, file, hfile, -, hsize⟩ := (h.stored name entry hentry).file
    refine ⟨file, ?_, hsize.symm⟩
    rw [TreeMap.getElem?_filter', hfile, Option.filter_some,
      if_pos (isRetainedStoreFile_fileNameFor name)]
  rw [h.total, diskTotal]
  refine totalOf_eq_of_keys (fileNameFor c) ?_ (fun f => ?_) fun name entry hentry => ?_
  · exact fun m hm n hn heq => hstem m n (h.known m hm) (h.known n hn) (fileNameFor_inj heq)
  · constructor
    · exact fun hf => h.owned f (TreeMap.mem_of_mem_filter hf)
    · rintro ⟨name, hname, rfl⟩
      obtain ⟨entry, hentry⟩ := exists_lookup hname
      obtain ⟨file, hfile, -⟩ := hfile name entry hentry
      exact mem_of_lookup hfile
  · obtain ⟨file, hfile, hsize⟩ := hfile name entry hentry
    rw [hfile]
    exact hsize

/-- An entry is dropped together with its file. -/
theorem Indexed.drop (hentry : w.store.entries[name]? = some entry) :
    Indexed c services
      { store := { w.store with
          entries := w.store.entries.erase name
          totalBytes := w.store.totalBytes - entry.fileSizeBytes }
        files := w.files.erase entry.fileName } := by
  have hname := mem_of_lookup hentry
  rw [(h.stored name entry hentry).fileName]
  constructor
  · intro m f hm
    obtain ⟨hne, hm⟩ := lookup_of_erase hm
    refine (h.stored m f hm).of_getElem?_eq (getElem?_erase_ne fun heq => hne ?_)
    exact hstem name m (h.known name hname) (h.known m (mem_of_lookup hm)) (fileNameFor_inj heq)
  · exact fun m hm => h.known m (TreeMap.mem_erase.mp hm).2
  · intro f hf
    obtain ⟨hne, hf⟩ := TreeMap.mem_erase.mp hf
    obtain ⟨m, hm, rfl⟩ := h.owned f hf
    refine ⟨m, TreeMap.mem_erase.mpr ⟨fun heq => hne ?_, hm⟩, rfl⟩
    rw [Std.LawfulEqCmp.compare_eq_iff_eq.mp heq]
    exact Std.ReflCmp.compare_self
  · have htotal := totalOf_erase RetainedFileEntry.fileSizeBytes hentry
    show w.store.totalBytes - entry.fileSizeBytes = _
    rw [h.total, ← htotal]
    exact Nat.add_sub_cancel _ _

/-- A log is written over whatever the service had. -/
theorem Indexed.put {events : List ServiceLogEvent} {payload : Payload} (uuid : String)
    (now modified : Nat) (hservice : services name) (hvisible : isBlank name = false)
    (henc : c.encode ⟨storedRetainedLogVersion, name, events⟩ = .ok payload) :
    Indexed c services
      { store := w.store.record ⟨name, fileNameFor c name, c.len payload, now⟩
        files := ((w.files.insert (tmpNameFor c name uuid) ⟨payload, modified⟩).erase
          (tmpNameFor c name uuid)).insert (fileNameFor c name) ⟨payload, modified⟩ } := by
  -- the temporary file is no service's file
  have hother : ∀ m, services m → m ≠ name →
      (((w.files.insert (tmpNameFor c name uuid) ⟨payload, modified⟩).erase
          (tmpNameFor c name uuid)).insert (fileNameFor c name)
            ⟨payload, modified⟩)[fileNameFor c m]? = w.files[fileNameFor c m]? := by
    intro m hm hne
    have htmp := (fileNameFor_ne_tmpNameFor (c := c) m name uuid).symm
    rw [getElem?_insert_ne fun heq => hne (hstem m name hm hservice (fileNameFor_inj heq.symm)),
      getElem?_erase_ne htmp, getElem?_insert_ne htmp]
  constructor
  · intro m entry hm
    show Stored c _ m entry
    change ((w.store.entries.erase name).insert name _)[m]? = some entry at hm
    by_cases hne : name = m
    · subst hne
      rw [TreeMap.getElem?_insert_self] at hm
      cases hm
      exact ⟨rfl, rfl, hvisible, events, ⟨payload, modified⟩, TreeMap.getElem?_insert_self, henc,
        rfl⟩
    · rw [getElem?_insert_ne hne, getElem?_erase_ne hne] at hm
      exact (h.stored m entry hm).of_getElem?_eq
        (hother m (h.known m (mem_of_lookup hm)) (Ne.symm hne))
  · intro m hm
    rcases TreeMap.mem_insert.mp hm with heq | hm
    · rwa [← Std.LawfulEqCmp.compare_eq_iff_eq.mp heq]
    · exact h.known m (TreeMap.mem_erase.mp hm).2
  · intro f hf
    rcases TreeMap.mem_insert.mp hf with heq | hf
    · exact ⟨name, TreeMap.mem_insert_self, Std.LawfulEqCmp.compare_eq_iff_eq.mp heq⟩
    · obtain ⟨hne, hf⟩ := TreeMap.mem_erase.mp hf
      rcases TreeMap.mem_insert.mp hf with heq | hf
      · exact absurd heq hne
      · obtain ⟨m, hm, rfl⟩ := h.owned f hf
        by_cases hmn : name = m
        · subst hmn
          exact ⟨name, TreeMap.mem_insert_self, rfl⟩
        · refine ⟨m, TreeMap.mem_insert.mpr (.inr (TreeMap.mem_erase.mpr ⟨fun heq => hmn ?_, hm⟩)),
            rfl⟩
          exact Std.LawfulEqCmp.compare_eq_iff_eq.mp heq
  · show (w.store.record _).totalBytes = totalOf _ ((w.store.entries.erase name).insert name _)
    rw [totalOf_insert TreeMap.getElem?_erase_self, RetainedFileLogStore.record]
    dsimp only
    rcases hprev : w.store.entries[name]? with - | previous
    · dsimp only
      rw [h.total, totalOf_erase_of_none hprev]
    · dsimp only
      rw [h.total, ← totalOf_erase RetainedFileEntry.fileSizeBytes hprev,
        Nat.add_sub_cancel]

end

/-! ### Eviction -/

/-- What an eviction may do: only entries go, with their files, the older ones
before the newer ones, and the newest one only if it alone is too large. -/
structure Evicted (c : RetainedCrates Payload) (w w' : RetainedWorld Payload) : Prop where
  subset : ∀ (n : String) e, w'.store.entries[n]? = some e → w.store.entries[n]? = some e
  files : ∀ n, n ∈ w'.store.entries → w'.files[fileNameFor c n]? = w.files[fileNameFor c n]?
  older : ∀ (n : String) e (m : String) f, w.store.entries[n]? = some e → n ∉ w'.store.entries →
    w'.store.entries[m]? = some f → e.Older f
  newest : ∀ (n : String) e, w.store.entries[n]? = some e →
    (∀ (m : String) f, m ≠ n → w.store.entries[m]? = some f → f.Older e) →
    e.fileSizeBytes ≤ w.store.capacityBytes → w'.store.entries[n]? = some e

theorem Evicted.refl (w : RetainedWorld Payload) : Evicted c w w where
  subset _ _ h := h
  files _ _ := rfl
  older _ _ _ _ hn hnot _ := absurd (mem_of_lookup hn) hnot
  newest _ _ hn _ _ := hn

/-- The entry that goes first is older than all others. -/
theorem oldestEntry_spec (h : Indexed c services w)
    (hold : oldestEntry w.store.entries.toList = some (name, entry)) :
    w.store.entries[name]? = some entry ∧
      ∀ (m : String) f, m ≠ name → w.store.entries[m]? = some f → entry.Older f := by
  rw [oldestEntry_eq_argmin] at hold
  have hentry := TreeMap.mem_toList_iff_getElem?_eq_some.mp (List.argmin_mem hold)
  refine ⟨hentry, fun m f hne hm => RetainedFileEntry.older_of_age_le ?_ ?_⟩
  · rw [(h.stored name entry hentry).serviceName, (h.stored m f hm).serviceName]
    exact Ne.symm hne
  · exact List.le_of_mem_argmin (f := fun e : String × RetainedFileEntry => e.2.age)
      (TreeMap.mem_toList_iff_getElem?_eq_some.mpr hm) hold

theorem evictIfNeeded_spec (hstem : DistinctStems c services)
    {removeFails : String → Option String} (hremove : ∀ f, removeFails f = none) {rounds : Nat}
    (h : Indexed c services w) (hrounds : w.store.entries.size ≤ rounds) :
    ∃ w', evictIfNeeded removeFails rounds w = (.ok (), w') ∧ Indexed c services w' ∧
      w'.store.totalBytes ≤ w'.store.capacityBytes ∧ Evicted c w w' := by
  induction rounds generalizing w with
  | zero =>
    refine ⟨w, rfl, h, ?_, .refl w⟩
    have hempty : w.store.entries.toList = [] := by
      rw [← List.length_eq_zero_iff, TreeMap.length_toList]
      exact Nat.le_zero.mp hrounds
    rw [h.total, totalOf_empty hempty]
    exact Nat.zero_le _
  | succ rounds ih =>
    rw [evictIfNeeded]
    split
    · next hle => exact ⟨w, rfl, h, hle, .refl w⟩
    · next hover =>
      rcases hold : oldestEntry w.store.entries.toList with - | ⟨name, entry⟩
      · refine ⟨w, rfl, h, ?_, .refl w⟩
        rw [oldestEntry_eq_argmin, List.argmin_eq_none] at hold
        rw [h.total, totalOf_empty hold]
        exact Nat.zero_le _
      obtain ⟨hentry, holdest⟩ := oldestEntry_spec h hold
      dsimp only
      rw [hremove]
      obtain ⟨w', heq, hix, hle, hev⟩ := ih (h.drop hstem hentry) (by
        show (w.store.entries.erase name).size ≤ rounds
        rw [TreeMap.size_erase, if_pos (TreeMap.contains_iff_mem.mpr (mem_of_lookup hentry))]
        omega)
      refine ⟨w', heq, hix, hle, ?_⟩
      have hleft : ∀ {n e}, w'.store.entries[n]? = some e →
          name ≠ n ∧ w.store.entries[n]? = some e := fun hn => lookup_of_erase (hev.subset _ _ hn)
      constructor
      · exact fun n e hn => (hleft hn).2
      · intro n hn
        obtain ⟨e, hn⟩ := exists_lookup hn
        obtain ⟨hne, hn'⟩ := hleft hn
        refine (hev.files n (mem_of_lookup hn)).trans ?_
        rw [(h.stored name entry hentry).fileName]
        refine getElem?_erase_ne fun heq => hne ?_
        exact hstem name n (h.known _ (mem_of_lookup hentry)) (h.known _ (mem_of_lookup hn'))
          (fileNameFor_inj heq)
      · intro n e m f hn hnot hm
        by_cases hne : name = n
        · subst hne
          obtain rfl := Option.mem_unique hentry hn
          obtain ⟨hother, hm'⟩ := hleft hm
          exact holdest m f (Ne.symm hother) hm'
        · exact hev.older n e m f (by rw [getElem?_erase_ne hne, hn]) hnot hm
      · intro n e hn hnewest hsize
        -- were it the oldest too, it would be the only one, and it fits
        have hne : name ≠ n := by
          rintro rfl
          obtain rfl := Option.mem_unique hentry hn
          refine hover ?_
          have hothers : (w.store.entries.erase name).toList = [] := by
            refine List.eq_nil_iff_forall_not_mem.mpr fun ⟨m, f⟩ hm => ?_
            obtain ⟨hmn, hm⟩ := lookup_of_erase (TreeMap.mem_toList_iff_getElem?_eq_some.mp hm)
            exact lt_asymm (RetainedFileEntry.older_iff.mp (holdest m f (Ne.symm hmn) hm))
              (RetainedFileEntry.older_iff.mp (hnewest m f (Ne.symm hmn) hm))
          rw [h.total, ← totalOf_erase _ hn, totalOf_empty hothers, Nat.zero_add]
          exact hsize
        exact hev.newest n e (by rw [getElem?_erase_ne hne, hn])
          (fun m f hmn hm => hnewest m f hmn (lookup_of_erase hm).2) hsize

/-! ### Rebuilding the index -/

/-- A service's file leads back to its entry. -/
theorem rebuildFile_fileNameFor {v : RetainedWorld Payload} (h : Stored c v.files name entry) :
    ∃ modified, rebuildFile c .none v (fileNameFor c name) =
      .ok { v with store :=
        v.store.record ⟨name, fileNameFor c name, entry.fileSizeBytes, modified⟩ } := by
  obtain ⟨events, file, hfile, henc, hsize⟩ := h.file
  refine ⟨file.modified, ?_⟩
  rw [rebuildFile, hfile]
  dsimp only [OpenFailures.none]
  rw [c.decode_encode _ _ henc]
  dsimp only
  rw [if_neg (fun hno => hno rfl), storedServiceName, if_pos (by rw [h.visible]; rfl), hsize]

/-- The index of the files that are listed is what is recorded for them. -/
theorem foldlM_rebuildFile (h : Indexed c services w) (hstem : DistinctStems c services)
    {names : List String} (hnames : ∀ f ∈ names, f ∈ w.files) {v : RetainedWorld Payload}
    (hv : v.files = w.files) :
    ∃ v', names.foldlM (rebuildFile c .none) v = .ok v' ∧
      ∀ n : String, (v'.store.entries[n]?).map (·.fileSizeBytes) =
        if n ∈ w.store.entries ∧ fileNameFor c n ∈ names then
          (w.store.entries[n]?).map (·.fileSizeBytes)
        else (v.store.entries[n]?).map (·.fileSizeBytes) := by
  induction names generalizing v with
  | nil => exact ⟨v, rfl, fun n => by simp⟩
  | cons f names ih =>
    obtain ⟨m, hm, rfl⟩ := h.owned f (hnames f (.head _))
    obtain ⟨entry, hentry⟩ := exists_lookup hm
    obtain ⟨modified, hfile⟩ := rebuildFile_fileNameFor (hv ▸ h.stored m entry hentry)
    obtain ⟨v', hfold, hsizes⟩ := ih (fun f hf => hnames f (.tail _ hf))
      (v := { v with store :=
        v.store.record ⟨m, fileNameFor c m, entry.fileSizeBytes, modified⟩ }) hv
    refine ⟨v', ?_, fun n => ?_⟩
    · rw [List.foldlM_cons, hfile]
      exact hfold
    · rw [hsizes n]
      by_cases hnm : m = n
      · subst hnm
        rw [if_pos (c := m ∈ w.store.entries ∧ _ ∈ fileNameFor c m :: names)
          ⟨hm, .head _⟩, hentry]
        split
        · rfl
        · rw [getElem?_record_self v.store ⟨m, fileNameFor c m, entry.fileSizeBytes, modified⟩]
          rfl
      · have hother := getElem?_record_ne v.store
          (e := ⟨m, fileNameFor c m, entry.fileSizeBytes, modified⟩) hnm
        have hlisted : n ∈ w.store.entries →
            (fileNameFor c n ∈ fileNameFor c m :: names ↔ fileNameFor c n ∈ names) := by
          intro hn
          rw [List.mem_cons, or_iff_right]
          exact fun heq => hnm (hstem m n (h.known m hm) (h.known n hn) (fileNameFor_inj heq.symm))
        dsimp only
        rw [hother]
        simp only [and_congr_right_iff.mpr hlisted]

theorem rebuildIndexFromDisk_spec (h : Indexed c services w) (hstem : DistinctStems c services)
    {names : List String} (hnames : names.Perm w.files.keys) :
    ∃ v, rebuildIndexFromDisk c .none w (.ok names) = .ok v ∧
      ∀ n : String, (v.store.entries[n]?).map (·.fileSizeBytes) =
        (w.store.entries[n]?).map (·.fileSizeBytes) := by
  have hmem : ∀ f, f ∈ names.filter isRetainedStoreFile ↔ f ∈ w.files := by
    intro f
    rw [List.mem_filter, hnames.mem_iff, TreeMap.mem_keys, and_iff_left_iff_imp]
    intro hf
    obtain ⟨n, -, rfl⟩ := h.owned f hf
    exact isRetainedStoreFile_fileNameFor n
  obtain ⟨v, hfold, hsizes⟩ := foldlM_rebuildFile h hstem (fun f hf => (hmem f).mp hf)
    (v := { w with store := { w.store with entries := ∅, totalBytes := 0 } }) rfl
  refine ⟨v, hfold, fun n => ?_⟩
  rw [hsizes n]
  split
  · rfl
  · next hnot =>
    rcases hn : w.store.entries[n]? with - | entry
    · exact congrArg _ TreeMap.getElem?_emptyc
    · obtain ⟨events, file, hfile, -⟩ := (h.stored n entry hn).file
      exact absurd ⟨mem_of_lookup hn, (hmem _).mpr (mem_of_lookup hfile)⟩ hnot

end Agreement

/-! ### Upserts -/

structure UpsertCall (Payload : Type) where
  serviceName : String
  events : List ServiceLogEvent
  input : UpsertInput Payload

section Upserts

variable {Payload : Type} {c : RetainedCrates Payload} {services : String → Prop}
  {w w' : RetainedWorld Payload} {a : UpsertCall Payload}

def retainedStep (c : RetainedCrates Payload) (w : RetainedWorld Payload)
    (a : UpsertCall Payload) : Option (RetainedWorld Payload) :=
  some (upsert c w a.serviceName a.events a.input).2

/-- The name is visible, no file operation fails, and the clock has moved past
the time of every other entry (a tie is broken by the name). -/
structure Smooth (w : RetainedWorld Payload) (a : UpsertCall Payload) : Prop where
  visible : isBlank a.serviceName = false
  dirCreated : a.input.dirCreated = .ok ()
  written : a.input.written = .ok ()
  renamed : a.input.renamed = .ok ()
  remove : ∀ f, a.input.removeFails f = none
  later : ∀ (n : String) e, n ≠ a.serviceName → w.store.entries[n]? = some e →
    e.updatedAtUnixMs < a.input.now ∨ (e.updatedAtUnixMs = a.input.now ∧ n < a.serviceName)

/-- What a successful upsert owes. -/
structure Kept (c : RetainedCrates Payload) (w : RetainedWorld Payload) (a : UpsertCall Payload)
    (w' : RetainedWorld Payload) : Prop where
  total_eq : w'.store.totalBytes = totalOf (·.fileSizeBytes) w'.store.entries
  disk_eq : w'.store.totalBytes = diskTotal c w'.files
  total_le : w'.store.totalBytes ≤ w'.store.capacityBytes
  /-- the log can be read back, unless it alone is too large -/
  readable : snapshotEvents c w' a.serviceName none = .ok (some a.events) ∨
    ∃ payload, c.encode ⟨storedRetainedLogVersion, a.serviceName, a.events⟩ = .ok payload ∧
      w.store.capacityBytes < c.len payload
  /-- what another service had is dropped before anything newer -/
  oldest_first : ∀ (n : String) e, n ≠ a.serviceName → w.store.entries[n]? = some e →
    n ∉ w'.store.entries → ∀ (m : String) f, w'.store.entries[m]? = some f → e.Older f
  /-- in whatever order the directory is listed -/
  rebuilt : ∀ names : List String, names.Perm w'.files.keys →
    ∃ v, rebuildIndexFromDisk c .none w' (.ok names) = .ok v ∧
      ∀ n : String, (v.store.entries[n]?).map (·.fileSizeBytes) =
        (w'.store.entries[n]?).map (·.fileSizeBytes)

section

variable (hstem : DistinctStems c services) (h : Indexed c services w)
  (ha : services a.serviceName) (hsmooth : Smooth w a)

include hstem h ha hsmooth

/-- An upsert of which nothing fails puts the log in place and evicts. -/
theorem upsert_spec :
    (∃ err e, c.encode ⟨storedRetainedLogVersion, a.serviceName, a.events⟩ = .error err ∧
      upsert c w a.serviceName a.events a.input = (.error e, w)) ∨
    ∃ payload w₁ w',
      c.encode ⟨storedRetainedLogVersion, a.serviceName, a.events⟩ = .ok payload ∧
      upsert c w a.serviceName a.events a.input = (.ok (), w') ∧
      w₁.store = w.store.record
        ⟨a.serviceName, fileNameFor c a.serviceName, c.len payload, a.input.now⟩ ∧
      (w₁.files[fileNameFor c a.serviceName]?).map (·.payload) = some payload ∧
      Indexed c services w' ∧ w'.store.totalBytes ≤ w'.store.capacityBytes ∧ Evicted c w₁ w' := by
  rcases henc : c.encode ⟨storedRetainedLogVersion, a.serviceName, a.events⟩ with err | payload
  · refine .inl ⟨err, ?_⟩
    rw [upsert, henc]
    exact ⟨_, rfl, rfl⟩
  · have hput := h.put hstem a.input.uuid a.input.now a.input.modified ha hsmooth.visible henc
    obtain ⟨w', hevict, hix, hle, hev⟩ :=
      evictIfNeeded_spec hstem hsmooth.remove hput (Nat.le_refl _)
    refine .inr ⟨payload, _, w', rfl, ?_, rfl, ?_, hix, hle, hev⟩
    · rw [upsert, henc]
      dsimp only
      rw [hsmooth.dirCreated, hsmooth.written, hsmooth.renamed]
      exact hevict
    · exact congrArg _ TreeMap.getElem?_insert_self

theorem Indexed.step (hstep : retainedStep c w a = some w') :
    Indexed c services w' := by
  cases hstep
  rcases upsert_spec hstem h ha hsmooth with
    ⟨err, e, -, heq⟩ | ⟨payload, w₁, w', -, heq, -, -, hix, -⟩
  · rw [heq]
    exact h
  · rw [heq]
    exact hix

/-- One successful upsert from a state in which index and directory agree. -/
theorem Indexed.kept (hupsert : upsert c w a.serviceName a.events a.input = (.ok (), w')) :
    Kept c w a w' := by
  rcases upsert_spec hstem h ha hsmooth with
    ⟨err, e, -, heq⟩ | ⟨payload, w₁, w₂, henc, heq, hstore, hfile, hix, hle, hev⟩
  · rw [heq] at hupsert
    cases hupsert
  obtain rfl : w₂ = w' := congrArg Prod.snd (heq.symm.trans hupsert)
  have hself := getElem?_record_self w.store
    ⟨a.serviceName, fileNameFor c a.serviceName, c.len payload, a.input.now⟩
  rw [← hstore] at hself
  have hother : ∀ n : String, n ≠ a.serviceName →
      w₁.store.entries[n]? = w.store.entries[n]? := by
    intro n hne
    rw [hstore]
    exact getElem?_record_ne w.store (Ne.symm hne)
  constructor
  · exact hix.total
  · exact (hix.diskTotal_eq hstem).symm
  · exact hle
  · rcases Nat.lt_or_ge w.store.capacityBytes (c.len payload) with hlt | hge
    · exact .inr ⟨payload, henc, hlt⟩
    -- the entry just written is the newest, so it stays, and with it its file
    have hkept := hev.newest _ _ hself (fun m f hne hm => ?_) (by rw [hstore]; exact hge)
    · left
      have hsame : w₂.files[fileNameFor c a.serviceName]? =
          w₁.files[fileNameFor c a.serviceName]? := hev.files _ (mem_of_lookup hkept)
      obtain ⟨file, hstored, rfl⟩ := Option.map_eq_some_iff.mp hfile
      rw [snapshotEvents, hkept]
      dsimp only
      rw [hsame, hstored]
      dsimp only
      rw [c.decode_encode _ _ henc]
      rfl
    · rw [hother m hne] at hm
      have hname := (h.stored m f hm).serviceName
      rcases hsmooth.later m f hne hm with hlt | ⟨heq, hlt⟩
      · exact .inl hlt
      · exact .inr ⟨heq, hname ▸ hlt⟩
  · intro n e hne hn hnot m f hm
    exact hev.older n e m f (by rw [hother n hne, hn]) hnot hm
  · exact fun names hnames => rebuildIndexFromDisk_spec hix hstem hnames

end

end Upserts

/-- **The retained logs are what the index says**: for every sequence of upserts
of services with different file stems, with visible names, no failing file
operation and a clock that moves on, after every successful upsert total, index
and directory agree and are within the capacity, the log just written can be
read back unless it alone is too large, other logs went oldest first, and a
rebuilt index is the same. -/
theorem upsert_kept {Payload : Type} (c : RetainedCrates Payload) (retainedDir : String)
    (capacityBytes : Nat) (services : String → Prop) (hstem : DistinctStems c services)
    (as : List (UpsertCall Payload)) (hservices : ∀ a ∈ as, services a.serviceName)
    (hok : RunMeets (retainedStep c) Smooth (.init retainedDir capacityBytes) as)
    (w : RetainedWorld Payload)
    (hrun : run (retainedStep c) (.init retainedDir capacityBytes) as = some w)
    (a : UpsertCall Payload) (ha : services a.serviceName) (hsmooth : Smooth w a)
    (w' : RetainedWorld Payload)
    (hupsert : upsert c w a.serviceName a.events a.input = (.ok (), w')) : Kept c w a w' := by
  have hix : Indexed c services w := by
    have hinit : Indexed c services (.init retainedDir capacityBytes) :=
      indexed_init retainedDir capacityBytes
    generalize RetainedWorld.init retainedDir capacityBytes = w₀ at hok hrun hinit
    induction as generalizing w₀ with
    | nil =>
      cases hrun
      exact hinit
    | cons b as ih =>
      obtain ⟨w₁, hstep, hrun⟩ := run_cons_eq_some.mp hrun
      exact ih (fun a ha => hservices a (.tail _ ha)) w₁ (hok.2 w₁ hstep) hrun
        (hinit.step hstem (hservices b (.head _)) hok.1 hstep)
  exact hix.kept hstem ha hsmooth hupsert

/-! ### Runs -/

section Sample

/-- A stand-in for the crates, to run the model with: a log encodes as itself. -/
def sampleCrates : RetainedCrates StoredRetainedLog where
  encode := .ok
  decode := .ok
  len log := 1 + (bytesOf log.events).length
  decode_encode log p h := by
    cases h
    rfl
  sha256 bytes := bytes

/-- A log of one byte, which takes two bytes on disk. -/
def sampleLog : List ServiceLogEvent := [⟨.stdout, [7], 0⟩]

def smoothCall (serviceName : String) (now : Nat) : UpsertCall StoredRetainedLog :=
  ⟨serviceName, sampleLog, .smooth now⟩

theorem smooth_of_all {w : RetainedWorld StoredRetainedLog} {serviceName : String}
    {events : List ServiceLogEvent} {now : Nat} (hvisible : isBlank serviceName = false)
    (hlater : w.store.entries.toList.all (fun e => decide (e.2.updatedAtUnixMs < now)) = true) :
    Smooth w ⟨serviceName, events, .smooth now⟩ where
  visible := hvisible
  dirCreated := rfl
  written := rfl
  renamed := rfl
  remove _ := rfl
  later n e _ hn := by
    have := List.all_eq_true.mp hlater (n, e) (TreeMap.mem_toList_iff_getElem?_eq_some.mpr hn)
    exact .inl (of_decide_eq_true this)

/-- The store with room for one log and a half. -/
def sampleStore : RetainedWorld StoredRetainedLog := .init "/var/retained-logs" 3

theorem distinctStems_sample : DistinctStems sampleCrates fun n => n = "a" ∨ n = "b" := by
  have hne : stableServiceFileStem sampleCrates "a" ≠ stableServiceFileStem sampleCrates "b" := by
    decide +kernel
  rintro m n (rfl | rfl) (rfl | rfl) heq
  · rfl
  · exact absurd heq hne
  · exact absurd heq.symm hne
  · rfl

/-- The log of `a` replaces the older one of `b`. -/
theorem upsert_kept_second :
    ∃ w w', run (retainedStep sampleCrates) sampleStore [smoothCall "b" 5] = some w ∧
      upsert sampleCrates w "a" sampleLog (.smooth 6) = (.ok (), w') ∧
      Kept sampleCrates w (smoothCall "a" 6) w' ∧ w'.store.totalBytes = 2 := by
  have hrun : (run (retainedStep sampleCrates) sampleStore [smoothCall "b" 5]).map (fun w =>
      (w.store.entries.toList.all (fun e => decide (e.2.updatedAtUnixMs < 6)),
        (upsert sampleCrates w "a" sampleLog (.smooth 6)).1.isOk,
        (upsert sampleCrates w "a" sampleLog (.smooth 6)).2.store.totalBytes)) =
      some (true, true, 2) := by
    decide +kernel
  obtain ⟨w, hrun, hw⟩ := Option.map_eq_some_iff.mp hrun
  simp only [Prod.mk.injEq] at hw
  obtain ⟨hlater, hok, htotal⟩ := hw
  rcases hupsert : upsert sampleCrates w "a" sampleLog (.smooth 6) with ⟨e | u, w'⟩ <;>
    rw [hupsert] at hok htotal
  · cases hok
  · refine ⟨w, w', hrun, hupsert, ?_, htotal⟩
    have hfirst : RunMeets (retainedStep sampleCrates) Smooth sampleStore [smoothCall "b" 5] :=
      ⟨smooth_of_all (by decide +kernel) (by decide +kernel), fun _ _ => trivial⟩
    exact upsert_kept sampleCrates "/var/retained-logs" 3 _ distinctStems_sample
      [smoothCall "b" 5] (by simp [smoothCall]) hfirst w hrun (smoothCall "a" 6) (.inl rfl)
      (smooth_of_all (by decide +kernel) hlater) w' hupsert

/-- The upsert in which the file of `b` cannot be removed. -/
def stuckCall (serviceName : String) (now : Nat) : UpsertCall StoredRetainedLog :=
  ⟨serviceName, sampleLog, { UpsertInput.smooth now with
    removeFails := fun f => if f = fileNameFor sampleCrates "b" then some "busy" else none }⟩

/-- The log of `a` is written in the same millisecond as that of `b` and is
evicted at once, although it would fit.  A file that could not be removed is
forgotten, and from then on the directory is larger than the total. -/
theorem upsert_not_kept :
    (∃ w w', run (retainedStep sampleCrates) sampleStore [smoothCall "b" 5] = some w ∧
      upsert sampleCrates w "a" sampleLog (.smooth 5) = (.ok (), w') ∧
      ¬ Kept sampleCrates w (smoothCall "a" 5) w') ∧
    ∃ w w', run (retainedStep sampleCrates) sampleStore [smoothCall "b" 5, stuckCall "a" 6] =
        some w ∧
      upsert sampleCrates w "a" sampleLog (.smooth 7) = (.ok (), w') ∧
      ¬ Kept sampleCrates w (smoothCall "a" 7) w' := by
  constructor
  · have hrun : (run (retainedStep sampleCrates) sampleStore [smoothCall "b" 5]).map (fun w =>
        ((upsert sampleCrates w "a" sampleLog (.smooth 5)).1.isOk,
          (upsert sampleCrates w "a" sampleLog (.smooth 5)).2.store.entries.contains "a",
          w.store.capacityBytes)) = some (true, false, 3) := by
      decide +kernel
    obtain ⟨w, hrun, hw⟩ := Option.map_eq_some_iff.mp hrun
    simp only [Prod.mk.injEq] at hw
    obtain ⟨hok, hgone, hcap⟩ := hw
    rcases hupsert : upsert sampleCrates w "a" sampleLog (.smooth 5) with ⟨e | u, w'⟩ <;>
      rw [hupsert] at hok hgone
    · cases hok
    refine ⟨w, w', hrun, hupsert, fun hkept => ?_⟩
    rcases hkept.readable with hread | ⟨payload, henc, hlt⟩
    · have hnone : w'.store.entries["a"]? = none :=
        TreeMap.getElem?_eq_none_of_contains_eq_false hgone
      rw [snapshotEvents, show (smoothCall "a" 5).serviceName = "a" from rfl, hnone] at hread
      cases hread
    · cases henc
      rw [hcap] at hlt
      exact absurd hlt (by decide)
  · have hrun : (run (retainedStep sampleCrates) sampleStore
        [smoothCall "b" 5, stuckCall "a" 6]).map (fun w =>
        ((upsert sampleCrates w "a" sampleLog (.smooth 7)).1.isOk,
          decide ((upsert sampleCrates w "a" sampleLog (.smooth 7)).2.store.totalBytes =
            diskTotal sampleCrates (upsert sampleCrates w "a" sampleLog (.smooth 7)).2.files))) =
        some (true, false) := by
      decide +kernel
    obtain ⟨w, hrun, hw⟩ := Option.map_eq_some_iff.mp hrun
    simp only [Prod.mk.injEq] at hw
    obtain ⟨hok, hdisk⟩ := hw
    rcases hupsert : upsert sampleCrates w "a" sampleLog (.smooth 7) with ⟨e | u, w'⟩ <;>
      rw [hupsert] at hok hdisk
    · cases hok
    exact ⟨w, w', hrun, hupsert, fun hkept => of_decide_eq_false hdisk hkept.disk_eq⟩

end Sample

end Imago
