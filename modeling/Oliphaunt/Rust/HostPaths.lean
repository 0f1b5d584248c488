import Mathlib.Data.List.Basic

/-!
# Oliphaunt — guest paths below the host root

`prepare_path`, `reject_symlink_components` and `normalize_path` of `sync_host_fs.rs`, for
the paths of Unix, which have no prefix component. A guest path is a text, and a host path
the list of its components. The host is a tree of nodes, some of them symbolic links, that
does not change during the call; `Resolves` says where a path leads through the links.

* `prepared_path_contained` — a prepared path is below the root and leads there.
-/

namespace Oliphaunt.Rust.HostPaths

open List

/-- What `Component::Normal` holds. -/
structure Name where
  text : List Char
  normal : text ≠ [] ∧ text ≠ ['.'] ∧ text ≠ ['.', '.'] ∧ '/' ∉ text
deriving DecidableEq

inductive Component where
  | rootDir
  | curDir
  | parentDir
  | normal (name : Name)
deriving DecidableEq

/-- The component of a text between two slashes. -/
def component (text : List Char) : Option Component :=
  if text = ['.'] then some .curDir
  else if text = ['.', '.'] then some .parentDir
  else if h : text ≠ [] ∧ text ≠ ['.'] ∧ text ≠ ['.', '.'] ∧ '/' ∉ text then
    some (.normal ⟨text, h⟩)
  else none

/-- `Path::components`, which leaves out a `.` that is not at the start; `normalize_path`
passes over every `.`. -/
def components (path : List Char) : List Component :=
  (if path.head? = some '/' then [.rootDir] else []) ++ (path.splitOn '/').filterMap component

/-- A `PathBuf` of normal components. -/
structure PathBuf where
  absolute : Bool := false
  names : List Name := []
deriving DecidableEq

/-- One turn of the loop of `normalize_path`; `pop` stops at the root. -/
def PathBuf.push (path : PathBuf) : Component → PathBuf
  | .rootDir => { absolute := true }
  | .curDir => path
  | .parentDir => { path with names := path.names.dropLast }
  | .normal name => { path with names := path.names ++ [name] }

def normalizePath (path : List Char) : PathBuf := (components path).foldl .push {}

inductive Node where
  | directory
  | file
  | symlink (target : List Component)
deriving DecidableEq

inductive FsError where
  | invalidInput
  | permissionDenied
  | entryNotFound
  /-- any other error of the host -/
  | other
deriving DecidableEq

/-- The host: only a directory has something below it, and `symlink_metadata` of something
that is there tells what it is, or fails with another error than that it is missing. -/
structure HostFs where
  node : List Name → Option Node
  symlinkMetadata : List Name → Except FsError Node
  parent : ∀ path name, node (path ++ [name]) ≠ none → node path = some .directory
  metadata : ∀ path found, node path = some found → symlinkMetadata path = .ok found ∨
    ∃ e, symlinkMetadata path = .error e ∧ e ≠ .entryNotFound

/-- The canonical root. -/
structure Root (fs : HostFs) where
  path : List Name
  exists_ : fs.node path ≠ none
  plain : ∀ target, fs.node path ≠ some (.symlink target)

/-- The loop of `reject_symlink_components`. -/
def rejectSymlinkComponents (fs : HostFs) (current : List Name) :
    List Name → Except FsError Unit
  | [] => .ok ()
  | part :: rest =>
    match fs.symlinkMetadata (current ++ [part]) with
    | .ok (.symlink _) => .error .permissionDenied
    | .ok _ => rejectSymlinkComponents fs (current ++ [part]) rest
    | .error .entryNotFound => .ok ()
    | .error e => .error e

def preparePath (fs : HostFs) (root : List Name) (path : List Char) : Except FsError (List Name) :=
  let path := normalizePath path
  if root ≠ [] ∧ path.absolute ∧ root <+: path.names then .error .invalidInput
  else
    match rejectSymlinkComponents fs root path.names with
    | .error e => .error e
    | .ok () => .ok (root ++ path.names)

/-- From `current` the components lead to `last`. -/
inductive Resolves (fs : HostFs) : List Name → List Component → List Name → Prop
  | nil : Resolves fs current [] current
  | rootDir (h : Resolves fs [] rest last) : Resolves fs current (.rootDir :: rest) last
  | curDir (h : Resolves fs current rest last) : Resolves fs current (.curDir :: rest) last
  | parentDir (h : Resolves fs current.dropLast rest last) :
    Resolves fs current (.parentDir :: rest) last
  | name (hnode : fs.node (current ++ [name]) = some node)
    (hplain : ∀ target, node ≠ .symlink target)
    (h : Resolves fs (current ++ [name]) rest last) :
      Resolves fs current (.normal name :: rest) last
  | link (hnode : fs.node (current ++ [name]) = some (.symlink target))
    (h : Resolves fs current (target ++ rest) last) :
      Resolves fs current (.normal name :: rest) last

variable {fs : HostFs} {path current names : List Name}

/-- Nothing is below a missing node or a file. -/
theorem HostFs.node_eq_none (h : fs.node path ≠ some .directory) (hne : names ≠ []) :
    fs.node (path ++ names) = none := by
  induction names generalizing path with
  | nil => exact absurd rfl hne
  | cons name rest ih =>
    have hnone : fs.node (path ++ [name]) = none := by
      by_contra hnode
      exact h (fs.parent _ name hnode)
    rw [append_cons]
    by_cases hrest : rest = []
    · rw [hrest, append_nil, hnone]
    · exact ih (by simp [hnone]) hrest

/-- No link is at `path` or on the way to it. -/
def Unlinked (fs : HostFs) (path : List Name) : Prop :=
  ∀ p, p <+: path → ∀ target, fs.node p ≠ some (.symlink target)

theorem Root.unlinked (root : Root fs) : Unlinked fs root.path := by
  rintro p ⟨rest, hrest⟩ target hlink
  by_cases hempty : rest = []
  · rw [hempty, append_nil] at hrest
    exact root.plain target (hrest ▸ hlink)
  · refine root.exists_ ?_
    rw [← hrest]
    exact fs.node_eq_none (by rw [hlink]; simp) hempty

theorem Unlinked.below (h : Unlinked fs current) (hnode : fs.node current ≠ some .directory) :
    Unlinked fs (current ++ names) := by
  intro p hp target hlink
  rcases prefix_or_prefix_of_prefix hp (prefix_append current names) with hp | ⟨q, rfl⟩
  · exact h p hp target hlink
  · by_cases hempty : q = []
    · rw [hempty, append_nil] at hlink
      exact h _ prefix_rfl target hlink
    · rw [fs.node_eq_none hnode hempty] at hlink
      cases hlink

theorem rejectSymlinkComponents_ok (h : Unlinked fs current)
    (hok : rejectSymlinkComponents fs current names = .ok ()) : Unlinked fs (current ++ names) := by
  induction names generalizing current with
  | nil => rwa [append_nil]
  | cons part rest ih =>
    rw [rejectSymlinkComponents] at hok
    have hpart : Unlinked fs (current ++ [part]) := by
      intro p hp target hlink
      rcases prefix_concat_iff.mp hp with rfl | hp
      · rcases fs.metadata _ _ hlink with hfound | ⟨e, hfails, he⟩
        · rw [hfound] at hok
          cases hok
        · rw [hfails] at hok
          cases e <;> first | exact he rfl | cases hok
      · exact h p hp target hlink
    rw [append_cons]
    split at hok
    · cases hok
    · exact ih hpart hok
    · rename_i hmissing
      refine hpart.below fun hdirectory => ?_
      rcases fs.metadata _ _ hdirectory with hfound | ⟨e, hfails, he⟩
      · cases hfound.symm.trans hmissing
      · exact he (Except.error.inj (hfails.symm.trans hmissing))
    · cases hok

theorem Resolves.eq_of_unlinked (h : Unlinked fs (current ++ names))
    (hresolves : Resolves fs current (names.map .normal) last) : last = current ++ names := by
  induction names generalizing current with
  | nil =>
    cases hresolves
    rw [append_nil]
  | cons name rest ih =>
    rw [append_cons] at h ⊢
    cases hresolves with
    | name hnode hplain hrest => exact ih h hrest
    | link hnode hrest => exact absurd hnode (h _ (prefix_append _ _) _)

/-- A prepared path is below the root, no link is on the way to it, and so it leads to
itself. -/
theorem prepared_path_contained (root : Root fs) (path : List Char) {prepared : List Name}
    (h : preparePath fs root.path path = .ok prepared) :
    (∃ names, prepared = root.path ++ names) ∧
      (∀ p, p <+: prepared → ∀ target, fs.node p ≠ some (.symlink target)) ∧
      ∀ last, Resolves fs [] (prepared.map .normal) last → last = prepared := by
  rw [preparePath] at h
  split at h
  · cases h
  · split at h
    · cases h
    · rename_i hok
      obtain rfl := Except.ok.inj h
      have hunlinked := rejectSymlinkComponents_ok root.unlinked hok
      exact ⟨⟨_, rfl⟩, hunlinked, fun last => @Resolves.eq_of_unlinked fs [] _ last hunlinked⟩

/-! ## A host with a file below the root and a link out of it -/

def srv : Name := ⟨['s', 'r', 'v'], by decide⟩

def base : Name := ⟨['b', 'a', 's', 'e'], by decide⟩

def one : Name := ⟨['1'], by decide⟩

def out : Name := ⟨['o', 'u', 't'], by decide⟩

def srvNodes : List (List Name × Node) :=
  [([], .directory), ([srv], .directory), ([srv, base], .directory), ([srv, base, one], .file),
    ([srv, out], .symlink [.rootDir])]

def srvNode (path : List Name) : Option Node := (srvNodes.find? (·.1 = path)).map (·.2)

def srvFs : HostFs where
  node := srvNode
  symlinkMetadata path := (srvNode path).elim (.error .entryNotFound) .ok
  parent path name h := by
    have hparents : ∀ e ∈ srvNodes, e.1 ≠ [] → srvNode e.1.dropLast = some .directory := by decide
    obtain ⟨e, hfind⟩ : ∃ e, srvNodes.find? (·.1 = path ++ [name]) = some e := by
      rw [← Option.isSome_iff_exists]
      simpa [srvNode] using h
    have heq : e.1 = path ++ [name] := by simpa using find?_some hfind
    have hdirectory := hparents e (mem_of_find?_eq_some hfind) (by simp [heq])
    rwa [heq, dropLast_concat] at hdirectory
  metadata path found h := by
    rw [h]
    exact .inl rfl

/-- A path that climbs above the root is prepared below it and leads to the file there; a
path over the link that leads out of the root is refused. -/
theorem prepared_path_contained_climbing :
    preparePath srvFs [srv] "out/1".toList = .error .permissionDenied ∧
      preparePath srvFs [srv] "/../base/./../../base/1".toList = .ok [srv, base, one] ∧
        srvFs.node [srv, base, one] = some .file ∧
          ∀ last, Resolves srvFs [] ([srv, base, one].map .normal) last →
            last = [srv, base, one] :=
  have h : preparePath srvFs [srv] "/../base/./../../base/1".toList =
    .ok [srv, base, one] := by decide
  have hroot : srvFs.node [srv] = some .directory := by decide
  ⟨by decide, h, by decide,
    (prepared_path_contained ⟨[srv], by simp [hroot], by simp [hroot]⟩ _ h).2.2⟩

end Oliphaunt.Rust.HostPaths
