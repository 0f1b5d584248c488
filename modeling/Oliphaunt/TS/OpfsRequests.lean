import Oliphaunt.TS.OpfsPool

/-!
# The requests of the OPFS pool

`DirectOpfsPool` between two syncs: the live entries, the file records with their
backings, and what each bridge request does to them. A `FileRecord` is a number, and
its fields are functions of it. A record without a backing keeps its bytes in memory
(`staged`) until a sync materialises it.

Requests are answered synchronously. The only storage effects among them are the
calls of access handles; `Effects` says how these end. Requests that only read
(`metadata`, `readDirectory`, `read`, `fileSize`) are left out.

Three fields are not in the source: `generation` counts how often a record was taken
from the spares, `published` is the namespace of the last publication, and `history`
holds the contents each file has had since then.
-/

namespace Oliphaunt.OpfsPool

open FileTree
open Function (update)

/-- The codes of `RESULT` other than `ok`, as far as the modelled requests return them. -/
inductive Failure where
  | notFound
  | alreadyExists
  | notDirectory
  | notFile
  | directoryNotEmpty
  | permission
  | invalid
  | storageFull
  | io
deriving DecidableEq, Repr

abbrev Result := Except Failure Unit

structure OpenFlags where
  write : Bool
  createNew : Bool
  create : Bool
  append : Bool
  truncate : Bool
deriving DecidableEq, Repr

inductive Request where
  | createDirectory (path : Path)
  | removeDirectory (path : Path)
  | rename (src dst : Path)
  | removeFile (path : Path)
  | open (path : Path) (flags : OpenFlags)
  | close (descriptor : Nat)
  | write (descriptor offset : Nat) (bytes : Contents)
  | flush (descriptor : Nat)
  | truncate (descriptor size : Nat)
  | unlink (descriptor : Nat)
deriving DecidableEq, Repr

/-- How the calls of access handles in a request end: the error that the first and the
second one throw, and how many bytes a `write` takes. -/
structure Effects where
  first : Option Failure
  second : Option Failure
  written : Nat
deriving DecidableEq, Repr

structure Descriptor where
  record : Nat
  append : Bool
deriving DecidableEq, Repr

structure Pool where
  entries : PathTree Nat
  path : Nat → Option Path
  backing : Nat → Option Nat
  staged : Nat → Option Contents
  references : Nat → Nat
  nextRecord : Nat
  dirty : List Nat
  spares : List Nat
  pendingReclaims : List Nat
  descriptors : List (Nat × Descriptor)
  nextDescriptor : Nat
  namespaceDirty : Bool
  initializationComplete : Bool
  disk : Disk
  generation : Nat → Nat
  published : PathTree Nat
  publishedGeneration : Nat → Nat
  history : Nat → List Contents

/-- `segments`, `validatePath` and `validateDirectoryEntryName`: the first throws a
`DataError`, the last a plain `Error`. -/
def validatePath (path : Path) (allowRoot : Bool) : Except Failure Unit :=
  if path.any fun part => part = "" || part = "." || part = ".." ||
      part.toList.contains (Char.ofNat 0) then .error .invalid
  else if path = [] ∧ allowRoot = false then .error .invalid
  else if path.any fun part => part.toList.contains '/' || part.toList.contains '\\' then .error .io
  else .ok ()

/-- `size` bytes: the first ones of the content, then zeros. -/
def resize (contents : Contents) (size : Nat) : Contents :=
  contents.take size ++ List.replicate (size - contents.length) 0

def overwrite (contents : Contents) (offset : Nat) (bytes : Contents) : Contents :=
  resize contents offset ++ bytes ++ contents.drop (offset + bytes.length)

/-- `#children`: the entries in each directory, by base name. -/
abbrev ChildIndex := Path → List (String × Node Nat)

def rebuildChildren (entries : PathTree Nat) : ChildIndex := fun parent =>
  (entries.children parent).map fun e => (e.1.getLastD "", e.2)

theorem length_rebuildChildren (entries : PathTree Nat) (p : Path) :
    0 < (rebuildChildren entries p).length ↔ entries.hasChildren p = true := by
  rw [rebuildChildren, List.length_map, PathTree.children, PathTree.hasChildren,
    List.length_pos_iff_exists_mem, List.any_eq_true]
  simp only [List.mem_filter]

namespace Pool

def contents (s : Pool) (r : Nat) : Option Contents :=
  match s.staged r with
  | some bytes => some bytes
  | none => (s.backing r).bind s.disk.read

def markDirty (s : Pool) (r : Nat) : Pool :=
  { s with dirty := if r ∈ s.dirty then s.dirty else s.dirty ++ [r] }

def clearDirty (s : Pool) (r : Nat) : Pool := { s with dirty := s.dirty.filter (· ≠ r) }

/-- The file gets a new content, in memory or through its access handle. -/
def setContents (s : Pool) (r : Nat) (bytes : Contents) : Pool :=
  let s := { s with history := update s.history r (bytes :: s.history r) }
  match s.staged r with
  | some _ => { s with staged := update s.staged r (some bytes) }
  | none =>
    match s.backing r with
    | some b => { s with disk := s.disk.write b bytes }
    | none => s

def setRecordSize (s : Pool) (r size : Nat) (effect : Option Failure) : Pool × Result :=
  let s := s.markDirty r
  match s.contents r with
  | none => (s, .error .io)
  | some bytes =>
    match effect with
    | some e => (s, .error e)
    | none => (s.setContents r (resize bytes size), .ok ())

def flushRecord (s : Pool) (r : Nat) (effect : Option Failure) : Pool × Result :=
  if r ∉ s.dirty ∨ (s.staged r).isSome then (s, .ok ())
  else
    match s.backing r with
    | none => (s, .error .io)
    | some b =>
      match effect with
      | some e => (s, .error e)
      | none => ({ s with disk := s.disk.flush b }.clearDirty r, .ok ())

def descriptor (s : Pool) (value : Nat) : Option Descriptor :=
  (s.descriptors.find? fun d => d.1 = value).map Prod.snd

def requireDirectory (s : Pool) (path : Path) (allowRoot : Bool) : Except Failure Unit :=
  match validatePath path allowRoot with
  | .error e => .error e
  | .ok () =>
    match s.entries.get path with
    | none => .error .notFound
    | some (.file _) => .error .notDirectory
    | some .directory => .ok ()

/-- A record for a new file: the last of the spares, emptied, or one in memory. -/
def takeSpare (s : Pool) (path : Path) (effect : Option Failure) : Pool × Except Failure Nat :=
  match s.spares.getLast? with
  | some r =>
    let s := { s with spares := s.spares.dropLast }
    match s.backing r, effect with
    | none, _ => (s, .error .io)
    | some _, some e => (s, .error e)
    | some b, none =>
      ({ s with
          disk := s.disk.write b []
          path := update s.path r (some path)
          references := update s.references r 0
          generation := update s.generation r (s.generation r + 1) }.markDirty r, .ok r)
  | none =>
    ({ s with
        path := update s.path s.nextRecord (some path)
        staged := update s.staged s.nextRecord (some [])
        nextRecord := s.nextRecord + 1 }, .ok s.nextRecord)

def queueReclaim (s : Pool) (r : Nat) : Pool :=
  if (s.staged r).isSome then s.clearDirty r
  else if r ∈ s.pendingReclaims then s
  else { s with pendingReclaims := s.pendingReclaims ++ [r] }

def detach (s : Pool) (r : Nat) : Pool :=
  let s := { s with path := update s.path r none }
  if s.references r = 0 then s.queueReclaim r else s

def createDirectory (s : Pool) (path : Path) : Pool × Result :=
  match validatePath path false with
  | .error e => (s, .error e)
  | .ok () =>
    match s.entries.get path with
    | some _ => (s, .error .alreadyExists)
    | none =>
      match s.requireDirectory path.dropLast true with
      | .error e => (s, .error e)
      | .ok () =>
        ({ s with entries := s.entries.set path .directory, namespaceDirty := true }, .ok ())

def removeDirectoryIn (s : Pool) (children : ChildIndex) (path : Path) : Pool × Result :=
  match s.requireDirectory path false with
  | .error e => (s, .error e)
  | .ok () =>
    if 0 < (children path).length then (s, .error .directoryNotEmpty)
    else ({ s with entries := s.entries.delete path, namespaceDirty := true }, .ok ())

/-- `#removeDirectory`, with the index that the last rebuild left. -/
def removeDirectory (s : Pool) (path : Path) : Pool × Result :=
  s.removeDirectoryIn (rebuildChildren s.entries) path

/-- The file at `path`, out of the namespace. -/
def unlinkFile (s : Pool) (path : Path) (r : Nat) : Pool :=
  { s with entries := s.entries.delete path, namespaceDirty := true }.detach r

def removeFile (s : Pool) (path : Path) : Pool × Result :=
  match validatePath path false with
  | .error e => (s, .error e)
  | .ok () =>
    match s.entries.get path with
    | none => (s, .error .notFound)
    | some .directory => (s, .error .notFile)
    | some (.file r) => (s.unlinkFile path r, .ok ())

/-- The entries at and under `src`, and the paths of their records, under `dst`. -/
def moveEntries (s : Pool) (src dst : Path) : Pool :=
  { s with
    entries := s.entries.move src dst
    path := fun r => (s.path r).map fun p => if src <+: p then PathTree.rebase src dst p else p
    namespaceDirty := true }

def renameIn (s : Pool) (children : ChildIndex) (src dst : Path) : Pool × Result :=
  match validatePath src false, validatePath dst false with
  | .error e, _ => (s, .error e)
  | .ok (), .error e => (s, .error e)
  | .ok (), .ok () =>
    if src = dst then (s, .ok ())
    else
      match s.entries.get src with
      | none => (s, .error .notFound)
      | some source =>
        match s.requireDirectory dst.dropLast true with
        | .error e => (s, .error e)
        | .ok () =>
          if source = .directory ∧ src <+: dst then (s, .error .invalid)
          else
            match source, s.entries.get dst with
            | _, none => (s.moveEntries src dst, .ok ())
            | .directory, some (.file _) => (s, .error .notDirectory)
            | .file _, some .directory => (s, .error .notFile)
            | .directory, some .directory =>
              if 0 < (children dst).length then (s, .error .directoryNotEmpty)
              else ({ s with entries := s.entries.delete dst }.moveEntries src dst, .ok ())
            | .file _, some (.file r) => ((s.unlinkFile dst r).moveEntries src dst, .ok ())

/-- `#rename`, with the index that the last rebuild left. -/
def rename (s : Pool) (src dst : Path) : Pool × Result :=
  s.renameIn (rebuildChildren s.entries) src dst

/-- The truncation that the flags of `#open` ask for. -/
def openTruncate (s : Pool) (r : Nat) (flags : OpenFlags) (effect : Option Failure) :
    Pool × Result :=
  if flags.truncate then
    if flags.write || flags.append then s.setRecordSize r 0 effect else (s, .error .invalid)
  else (s, .ok ())

def addDescriptor (s : Pool) (r : Nat) (append : Bool) : Pool :=
  { s with
    nextDescriptor := s.nextDescriptor + 1
    references := update s.references r (s.references r + 1)
    descriptors := s.descriptors ++ [(s.nextDescriptor, ⟨r, append⟩)] }

/-- The end of `#open`, with the entry found or made. -/
def openRecord (s : Pool) (r : Nat) (flags : OpenFlags) (effect : Option Failure) : Pool × Result :=
  match s.openTruncate r flags effect with
  | (s, .ok ()) => (s.addDescriptor r flags.append, .ok ())
  | (s, .error e) => (s, .error e)

def openFile (s : Pool) (path : Path) (flags : OpenFlags) (effects : Effects) : Pool × Result :=
  match validatePath path false with
  | .error e => (s, .error e)
  | .ok () =>
    match s.entries.get path with
    | some existing =>
      if flags.createNew then (s, .error .alreadyExists)
      else
        match existing with
        | .directory => (s, .error .notFile)
        | .file r => s.openRecord r flags effects.second
    | none =>
      if ¬ (flags.create ∨ flags.createNew) then (s, .error .notFound)
      else
        match s.requireDirectory path.dropLast true with
        | .error e => (s, .error e)
        | .ok () =>
          match s.takeSpare path effects.first with
          | (s, .error e) => (s, .error e)
          | (s, .ok r) =>
            { s with entries := s.entries.set path (.file r), namespaceDirty := true }.openRecord r
              flags effects.second

def closeDescriptor (s : Pool) (value : Nat) : Pool × Result :=
  match s.descriptor value with
  | none => (s, .error .invalid)
  | some d =>
    let s := { s with
      descriptors := s.descriptors.filter fun e => e.1 ≠ value
      references := update s.references d.record (s.references d.record - 1) }
    if s.references d.record = 0 ∧ s.path d.record = none then (s.queueReclaim d.record, .ok ())
    else (s, .ok ())

def writeFile (s : Pool) (value offset : Nat) (bytes : Contents) (effects : Effects) :
    Pool × Result :=
  match s.descriptor value with
  | none => (s, .error .invalid)
  | some d =>
    let s := s.markDirty d.record
    match s.contents d.record with
    | none => (s, .error .io)
    | some old =>
      let writeOffset := if d.append then old.length else offset
      match effects.first with
      | some e => (s, .error e)
      | none =>
        if (s.staged d.record).isSome then
          (s.setContents d.record (overwrite old writeOffset bytes), .ok ())
        else
          -- `validateProgress`: a write that takes nothing of a nonempty buffer
          let s := s.setContents d.record (overwrite old writeOffset (bytes.take effects.written))
          if effects.written = 0 ∧ bytes ≠ [] then (s, .error .io) else (s, .ok ())

def truncateFile (s : Pool) (value size : Nat) (effects : Effects) : Pool × Result :=
  match s.descriptor value with
  | none => (s, .error .invalid)
  | some d => s.setRecordSize d.record size effects.first

def flushFile (s : Pool) (value : Nat) (effects : Effects) : Pool × Result :=
  match s.descriptor value with
  | none => (s, .error .invalid)
  | some d => s.flushRecord d.record effects.first

def unlinkDescriptor (s : Pool) (value : Nat) : Pool × Result :=
  match s.descriptor value with
  | none => (s, .error .invalid)
  | some d =>
    match s.path d.record with
    | none => (s, .ok ())
    | some path => (s.unlinkFile path d.record, .ok ())

def dispatch (s : Pool) (request : Request) (effects : Effects) : Pool × Result :=
  match request with
  | .createDirectory path => s.createDirectory path
  | .removeDirectory path => s.removeDirectory path
  | .rename src dst => s.rename src dst
  | .removeFile path => s.removeFile path
  | .open path flags => s.openFile path flags effects
  | .close value => s.closeDescriptor value
  | .write value offset bytes => s.writeFile value offset bytes effects
  | .flush value => s.flushFile value effects
  | .truncate value size => s.truncateFile value size effects
  | .unlink value => s.unlinkDescriptor value

end Pool

end Oliphaunt.OpfsPool
