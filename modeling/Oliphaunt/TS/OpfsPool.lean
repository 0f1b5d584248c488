import Mathlib.Data.List.Perm.Basic
import Oliphaunt.Model.Bytes
import Oliphaunt.Model.FileTree
import Oliphaunt.TS.SqlScan

/-!
# What an OPFS pool keeps on disk

A database of the pool is a directory with `state.json` and the flat directory
`data` of backing files. `state.json` maps logical paths to backings;
`readPoolState` is what every open makes of it.

The content of `state.json` is the `PoolState` it is the JSON text of: the pool
writes nothing else to it. `readPoolState_serialized` says when the reader accepts
what `serializePoolState` wrote.
-/

namespace Oliphaunt.OpfsPool

open FileTree List Option

/-- The bytes of a file. -/
abbrev Contents := List UInt8

def controlPath : Path := ["global", "pg_control"]

def maxParallelIo : Nat := 16

inductive StorageError where
  | corrupt (message : String)
  | incompatible (message : String)
deriving DecidableEq, Repr

/-- One character in a text of `JSON.stringify`. -/
def stringifyChar (c : Char) : String :=
  if c = '"' then "\\\""
  else if c = '\\' then "\\\\"
  else if c = '\n' then "\\n"
  else if c = '\r' then "\\r"
  else if c = '\t' then "\\t"
  else if c.toNat = 8 then "\\b"
  else if c.toNat = 12 then "\\f"
  else if c.toNat < 0x20 then
    "\\u00" ++ String.ofList (Nat.toDigits 16 (c.toNat / 16) ++ Nat.toDigits 16 (c.toNat % 16))
  else String.ofList [c]

/-- `JSON.stringify` of a text. -/
def stringify (text : String) : String :=
  "\"" ++ String.join (text.toList.map stringifyChar) ++ "\""

def poolLabel (name : String) : String := s!"OPFS storage " ++ stringify name

def corrupt (name detail : String) : StorageError := .corrupt (poolLabel name ++ " " ++ detail)

structure PhysicalIdentity where
  schema : String
  engineFamily : String
  postgresMajor : Nat
  physicalFormat : String
deriving DecidableEq, Repr

def wasixPhysicalIdentity : PhysicalIdentity where
  schema := "oliphaunt-physical-format-v1"
  engineFamily := "wasix"
  postgresMajor := 18
  physicalFormat := "wasix-pg18-v1"

def assertWasixPhysicalIdentity (identity : PhysicalIdentity) : Except String PhysicalIdentity :=
  if identity ≠ wasixPhysicalIdentity then
    .error "WASIX storage has an unsupported physical identity"
  else .ok identity

/-- `parseWasixPhysicalIdentity`, of a value with the four keys. -/
def parseWasixPhysicalIdentity (value : PhysicalIdentity) : Option PhysicalIdentity :=
  if value.schema ≠ "oliphaunt-physical-format-v1" ∨ value.engineFamily ≠ "wasix" ∨
      value.postgresMajor ≤ 0 ∨ value.physicalFormat.length = 0 then none
  else some value

def physicalIdentityMatches (stored selected : PhysicalIdentity) : Except String Bool :=
  match parseWasixPhysicalIdentity stored with
  | none => .error "WASIX storage has malformed physical identity metadata"
  | some storedKey => (assertWasixPhysicalIdentity selected).map fun selectedKey =>
    storedKey = selectedKey

inductive PoolPhase where
  | initializing
  | ready
deriving DecidableEq, Repr

/-- The entries map paths to directories and to the files' backings. -/
structure PoolState where
  name : String
  phase : PoolPhase
  physicalIdentity : PhysicalIdentity
  entries : PathTree Nat
deriving DecidableEq, Repr

/-- `state.json`: not there, created and never closed, or with the text of a state. -/
inductive StateFile where
  | absent
  | empty
  | content (state : PoolState)
deriving DecidableEq, Repr

/-- A backing on disk is the list of contents that a crash may leave of it, the one
that a read returns first. -/
structure Disk where
  state : StateFile
  /-- the directory holds an entry other than `state.json` and `data` -/
  foreign : Bool
  files : Nat → Option (List Contents)
  /-- every backing name so far is below it -/
  next : Nat

namespace Disk

/-- The content that a read of the backing returns. -/
def read (disk : Disk) (backing : Nat) : Option Contents := (disk.files backing).bind List.head?

/-- An unflushed change of a backing. -/
def write (disk : Disk) (backing : Nat) (contents : Contents) : Disk :=
  let versions := (disk.files backing).map (contents :: ·)
  { disk with files := Function.update disk.files backing versions }

/-- `flush()`: only the content of the last change can be found after a crash. -/
def flush (disk : Disk) (backing : Nat) : Disk :=
  let versions := (disk.files backing).map (·.take 1)
  { disk with files := Function.update disk.files backing versions }

/-- `getFileHandle(newBackingName(), { create: true })` -/
def create (disk : Disk) : Disk :=
  { disk with files := Function.update disk.files disk.next (some [[]]), next := disk.next + 1 }

/-- `removeEntry(backing)` -/
def remove (disk : Disk) (backing : Nat) : Disk :=
  { disk with files := Function.update disk.files backing none }

end Disk

/-- `validateDirectoryEntryName` accepts the segment. -/
def isEntryName (part : String) : Bool :=
  part ≠ "" && part ≠ "." && part ≠ ".." &&
    part.toList.all fun c => c ≠ '/' && c ≠ '\\' && c ≠ Char.ofNat 0

/-- `validatePath` and `validateStoredPath`: the root is not a stored path. -/
def isStoredPath (path : Path) : Bool := path ≠ [] && path.all isEntryName

def pathText (path : Path) : String := "/".intercalate path

/-- The text of a backing name, `f-` and a UUID. -/
def backingText (backing : Nat) : String := "f-" ++ toString backing

/-- The entries one after the other, with the paths and backings before them. -/
def readEntries (name : String) : PathTree Nat → List Path → List Nat → Except StorageError Unit
  | [], _, _ => .ok ()
  | (path, node) :: rest, paths, backings =>
    if ¬ isStoredPath path then
      .error (corrupt name ("contains invalid path " ++ stringify (pathText path)))
    else if path ∈ paths then
      .error (corrupt name ("repeats path " ++ stringify (pathText path)))
    else
      match node with
      | .directory => readEntries name rest (path :: paths) backings
      | .file backing =>
        if backing ∈ backings then
          .error (corrupt name ("aliases backing file " ++ stringify (backingText backing)))
        else readEntries name rest (path :: paths) (backing :: backings)

/-- The parent of every entry is the root or an entry of type directory. -/
def validateEntryRelationships (entries : PathTree Nat) (name : String) :
    Except StorageError Unit :=
  match entries.find? fun e => e.1.dropLast ≠ [] ∧ entries.get e.1.dropLast ≠ some .directory with
  | some e =>
    .error (corrupt name ("is missing parent directory " ++ stringify (pathText e.1.dropLast)))
  | none => .ok ()

def readPoolState (disk : Disk) (name : String) (physicalIdentity : PhysicalIdentity) :
    Except StorageError (Option PoolState) :=
  match disk.state with
  | .absent =>
    if disk.foreign then .error (corrupt name "contains storage without state metadata")
    else .ok none
  | .empty => .error (corrupt name "has unsupported or mismatched state metadata")
  | .content parsed =>
    if parsed.name ≠ name then
      .error (corrupt name "has unsupported or mismatched state metadata")
    else
      match physicalIdentityMatches parsed.physicalIdentity physicalIdentity with
      | .error e => .error (corrupt name ("has malformed physical identity: " ++ e))
      | .ok false =>
        .error (.incompatible
          (poolLabel name ++ " is incompatible with the selected WASIX runtime"))
      | .ok true =>
        match readEntries name parsed.entries [] [] with
        | .error e => .error e
        | .ok () =>
          match validateEntryRelationships parsed.entries name with
          | .error e => .error e
          | .ok () => .ok (some parsed)

def backings (entries : PathTree Nat) : List Nat :=
  entries.filterMap fun e => match e.2 with
    | .directory => none
    | .file backing => some backing

variable {entries : PathTree Nat} {b : Nat} {name : String} {α β : Type} {as : List α} {a : α}
  {f : α → Option β} {bs : List β} {backing : Nat → Option Nat} {p : Path}

theorem mem_backings : b ∈ backings entries ↔ ∃ p, (p, Node.file b) ∈ entries := by
  rw [backings, mem_filterMap]
  constructor
  · rintro ⟨⟨p, n⟩, hmem, hn⟩
    cases n with
    | directory => cases hn
    | file c =>
      obtain rfl : c = b := Option.some.inj hn
      exact ⟨p, hmem⟩
  · rintro ⟨p, hmem⟩
    exact ⟨_, hmem, rfl⟩

/-- The entries of a state that can be read back. -/
structure Readable (entries : PathTree Nat) : Prop where
  nodup : entries.paths.Nodup
  valid : ∀ p ∈ entries.paths, isStoredPath p = true
  distinct : (backings entries).Nodup
  parent : ∀ p ∈ entries.paths, p.dropLast ≠ [] → (p.dropLast, Node.directory) ∈ entries

/-- Distinct valid paths with distinct backings are read back. -/
theorem readEntries_ok {bs : List Nat} (hnodup : entries.paths.Nodup)
    (hvalid : ∀ p ∈ entries.paths, isStoredPath p = true) (hdistinct : (backings entries).Nodup)
    (hpaths : ∀ p ∈ entries.paths, p ∉ paths) (hbs : ∀ b ∈ backings entries, b ∉ bs) :
    readEntries name entries paths bs = .ok () := by
  induction entries generalizing paths bs with
  | nil => rfl
  | cons e entries ih =>
    obtain ⟨path, node⟩ := e
    simp only [PathTree.paths, map_cons, nodup_cons, mem_cons, forall_eq_or_imp]
      at hnodup hvalid hpaths
    have hrest : ∀ p ∈ PathTree.paths entries, p ∉ path :: paths := by
      intro p hp hmem
      rcases mem_cons.mp hmem with rfl | hmem
      · exact hnodup.1 hp
      · exact hpaths.2 p hp hmem
    cases node with
    | directory =>
      rw [readEntries, if_neg (by simp [hvalid.1]), if_neg hpaths.1]
      exact ih hnodup.2 hvalid.2 hdistinct hrest hbs
    | file b =>
      have hcons : backings ((path, Node.file b) :: entries) = b :: backings entries := rfl
      rw [hcons, nodup_cons] at hdistinct
      have hb : b ∉ bs := hbs b (.head _)
      rw [readEntries, if_neg (by simp [hvalid.1]), if_neg hpaths.1, if_neg hb]
      refine ih hnodup.2 hvalid.2 hdistinct.2 hrest ?_
      intro c hc hmem
      rcases mem_cons.mp hmem with rfl | hmem
      · exact hdistinct.1 hc
      · exact hbs c (.tail _ hc) hmem

/-- Entries that form a tree pass the check of their parents. -/
theorem validateEntryRelationships_ok (h : Readable entries) :
    validateEntryRelationships entries name = .ok () := by
  have hnone : (entries.find? fun e =>
      decide (e.1.dropLast ≠ [] ∧ entries.get e.1.dropLast ≠ some .directory)) = none := by
    rw [List.find?_eq_none]
    intro e he hbad
    obtain ⟨hne, hget⟩ := of_decide_eq_true hbad
    have hpath : e.1 ∈ entries.paths := mem_map.mpr ⟨e, he, rfl⟩
    exact hget (PathTree.get_of_mem h.nodup (h.parent e.1 hpath hne))
  rw [validateEntryRelationships, hnone]

theorem physicalIdentityMatches_self (h : assertWasixPhysicalIdentity identity = .ok identity) :
    physicalIdentityMatches identity identity = .ok true := by
  have heq : identity = wasixPhysicalIdentity := by
    by_contra hne
    rw [assertWasixPhysicalIdentity, if_pos hne] at h
    cases h
  rw [heq]
  decide

/-- A readable state of the right identity is accepted. -/
theorem readPoolState_content (hstate : disk.state = .content state)
    (hidentity : state.physicalIdentity = identity)
    (hasserted : assertWasixPhysicalIdentity identity = .ok identity)
    (h : Readable state.entries) : readPoolState disk state.name identity = .ok (some state) := by
  rw [readPoolState, hstate]
  simp only [ne_eq, not_true_eq_false, if_false, hidentity, physicalIdentityMatches_self hasserted]
  rw [readEntries_ok h.nodup h.valid h.distinct (fun _ _ => not_mem_nil)
    (fun _ _ => not_mem_nil)]
  simp only [validateEntryRelationships_ok h]

/-- The stored form of a live entry, given the backings of the records. The root is
not stored, a file without a backing makes the whole serialisation throw. -/
def storedEntry (backing : Nat → Option Nat) (e : Path × Node Nat) :
    Option (Path × Node Nat) :=
  match e.2 with
  | .directory => some (e.1, .directory)
  | .file record => (backing record).map fun b => (e.1, .file b)

/-- The `entries` of `serializePoolState`, up to their order. -/
def serializeEntries (backing : Nat → Option Nat) (live : PathTree Nat) : Option (PathTree Nat) :=
  (live.filter fun e => e.1 ≠ []).mapM (storedEntry backing)

theorem perm_eraseIdx (h : as[i]? = some a) : (a :: as.eraseIdx i).Perm as := by
  obtain ⟨hi, rfl⟩ := List.getElem?_eq_some_iff.mp h
  exact getElem_cons_eraseIdx_perm hi

theorem mem_of_mapM (h : as.mapM f = some bs) {b : β} : b ∈ bs ↔ ∃ a ∈ as, f a = some b := by
  induction as generalizing bs with
  | nil =>
    obtain rfl : bs = [] := (Option.some.inj h).symm
    simp
  | cons a as ih =>
    rw [mapM_cons] at h
    obtain ⟨c, hc, h⟩ := bind_eq_some_iff.mp h
    obtain ⟨cs, hcs, h⟩ := bind_eq_some_iff.mp h
    obtain rfl : c :: cs = bs := Option.some.inj h
    rw [mem_cons, ih hcs]
    constructor
    · rintro (rfl | ⟨a', ha', hb⟩)
      · exact ⟨a, .head _, hc⟩
      · exact ⟨a', .tail _ ha', hb⟩
    · rintro ⟨a', ha', hb⟩
      rcases mem_cons.mp ha' with rfl | ha'
      · rw [hc] at hb
        exact .inl (Option.some.inj hb).symm
      · exact .inr ⟨a', ha', hb⟩

theorem exists_of_mapM (h : as.mapM f = some bs) (ha : a ∈ as) : ∃ b, f a = some b := by
  induction as generalizing bs with
  | nil => cases ha
  | cons c as ih =>
    rw [mapM_cons] at h
    obtain ⟨b, hb, h⟩ := bind_eq_some_iff.mp h
    obtain ⟨cs, hcs, -⟩ := bind_eq_some_iff.mp h
    rcases mem_cons.mp ha with rfl | ha
    · exact ⟨b, hb⟩
    · exact ih hcs ha

theorem mapM_congr (h : ∀ a ∈ as, f a = g a) : as.mapM f = as.mapM g := by
  induction as with
  | nil => rfl
  | cons a as ih =>
    rw [mapM_cons, mapM_cons, h a (.head _),
      ih fun b hb => h b (.tail a hb)]

theorem map_of_mapM {γ : Type} {g : α → γ} {k : β → γ} (hkey : ∀ a b, f a = some b → k b = g a)
    (h : as.mapM f = some bs) : bs.map k = as.map g := by
  induction as generalizing bs with
  | nil =>
    obtain rfl : bs = [] := (Option.some.inj h).symm
    rfl
  | cons a as ih =>
    rw [mapM_cons] at h
    obtain ⟨c, hc, h⟩ := bind_eq_some_iff.mp h
    obtain ⟨cs, hcs, h⟩ := bind_eq_some_iff.mp h
    obtain rfl : c :: cs = bs := Option.some.inj h
    rw [map_cons, map_cons, ih hcs, hkey a c hc]

/-! ## What is written can be read -/

/-- What the pool writes to the state: every live entry but the root, with its backing. -/
theorem mem_serializeEntries (h : serializeEntries backing live = some entries) :
    (p, n) ∈ entries ↔ ∃ m, (p, m) ∈ live ∧ p ≠ [] ∧ storedEntry backing (p, m) = some (p, n) := by
  rw [mem_of_mapM h]
  constructor
  · rintro ⟨⟨q, m⟩, hmem, hstored⟩
    obtain ⟨hmem, hne⟩ := mem_filter.mp hmem
    obtain rfl : q = p := by
      cases m with
      | directory => exact (Prod.mk.inj (Option.some.inj hstored)).1
      | file r =>
        obtain ⟨b, -, hb⟩ := map_eq_some_iff.mp hstored
        exact (Prod.mk.inj hb).1
    exact ⟨m, hmem, of_decide_eq_true hne, hstored⟩
  · rintro ⟨m, hmem, hne, hstored⟩
    exact ⟨(p, m), mem_filter.mpr ⟨hmem, decide_eq_true hne⟩, hstored⟩

theorem directory_mem_serializeEntries (h : serializeEntries backing live = some entries) :
    (p, Node.directory) ∈ entries ↔ (p, Node.directory) ∈ live ∧ p ≠ [] := by
  rw [mem_serializeEntries h]
  constructor
  · rintro ⟨m, hmem, hne, hstored⟩
    cases m with
    | directory => exact ⟨hmem, hne⟩
    | file r =>
      obtain ⟨b, -, hb⟩ := map_eq_some_iff.mp hstored
      cases (Prod.mk.inj hb).2
  · rintro ⟨hmem, hne⟩
    exact ⟨_, hmem, hne, rfl⟩

theorem file_mem_serializeEntries (h : serializeEntries backing live = some entries) :
    (p, Node.file b) ∈ entries ↔
      ∃ r, (p, Node.file r) ∈ live ∧ p ≠ [] ∧ backing r = some b := by
  rw [mem_serializeEntries h]
  constructor
  · rintro ⟨m, hmem, hne, hstored⟩
    cases m with
    | directory => cases (Prod.mk.inj (Option.some.inj hstored)).2
    | file r =>
      obtain ⟨c, hc, hb⟩ := map_eq_some_iff.mp hstored
      obtain rfl : c = b := by
        have := (Prod.mk.inj hb).2
        exact Node.file.inj this
      exact ⟨r, hmem, hne, hc⟩
  · rintro ⟨r, hmem, hne, hr⟩
    refine ⟨_, hmem, hne, ?_⟩
    simp only [storedEntry, hr, map_some]

theorem backings_nodup (hnodup : entries.paths.Nodup)
    (hinj : ∀ p q b, (p, Node.file b) ∈ entries → (q, Node.file b) ∈ entries → p = q) :
    (backings entries).Nodup := by
  induction entries with
  | nil => exact nodup_nil
  | cons e entries ih =>
    obtain ⟨path, node⟩ := e
    simp only [PathTree.paths, map_cons, nodup_cons] at hnodup
    have hrest := ih hnodup.2 fun p q b hp hq =>
      hinj p q b (.tail _ hp) (.tail _ hq)
    cases node with
    | directory => exact hrest
    | file b =>
      refine nodup_cons.mpr ⟨fun hb => ?_, hrest⟩
      obtain ⟨q, hq⟩ := mem_backings.mp hb
      obtain rfl := hinj path q b (.head _) (.tail _ hq)
      exact hnodup.1 (PathTree.mem_paths.mpr ⟨_, hq⟩)

/-- What is written of a directory tree whose files have backings of their own can be
read back. -/
theorem readable_serialized {live : PathTree Nat} (hformed : live.WellFormed)
    (hvalid : ∀ p ∈ live.paths, p ≠ [] → isStoredPath p = true)
    (hown : ∀ p q r r' b, (p, Node.file r) ∈ live → (q, Node.file r') ∈ live →
      backing r = some b → backing r' = some b → p = q)
    (h : serializeEntries backing live = some entries) : Readable entries := by
  have hpaths : entries.paths = (live.filter fun e => e.1 ≠ []).map Prod.fst := by
    refine map_of_mapM (g := Prod.fst) ?_ h
    rintro ⟨p, n⟩ ⟨q, m⟩ hstored
    cases n with
    | directory => exact ((Prod.mk.inj (Option.some.inj hstored)).1).symm
    | file r =>
      obtain ⟨b, -, hb⟩ := map_eq_some_iff.mp hstored
      exact ((Prod.mk.inj hb).1).symm
  have hmem : ∀ p ∈ entries.paths, p ∈ live.paths ∧ p ≠ [] := by
    intro p hp
    obtain ⟨n, hn⟩ := PathTree.mem_paths.mp hp
    obtain ⟨m, hm, hne, -⟩ := (mem_serializeEntries h).mp hn
    exact ⟨PathTree.mem_paths.mpr ⟨m, hm⟩, hne⟩
  have hnodup : entries.paths.Nodup := by
    rw [hpaths]
    exact hformed.nodup.sublist (filter_sublist.map _)
  refine ⟨hnodup, fun p hp => hvalid p (hmem p hp).1 (hmem p hp).2, ?_, ?_⟩
  · refine backings_nodup hnodup ?_
    intro p q b hp hq
    obtain ⟨r, hr, -, hb⟩ := (file_mem_serializeEntries h).mp hp
    obtain ⟨r', hr', -, hb'⟩ := (file_mem_serializeEntries h).mp hq
    exact hown p q r r' b hr hr' hb hb'
  · intro p hp hne
    obtain ⟨hlive, hroot⟩ := hmem p hp
    obtain ⟨n, hn⟩ := PathTree.mem_paths.mp hlive
    exact (directory_mem_serializeEntries h).mpr ⟨hformed.parent p n hn hroot, hne⟩

end Oliphaunt.OpfsPool
