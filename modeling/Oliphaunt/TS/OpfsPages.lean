import Oliphaunt.TS.OpfsNamespace

/-!
# The pages of a directory

`#readDirectory` sorts the children of a directory and packs as many of them into a page
as the buffer of the request takes. A reader asks again at the returned `next` until it is
told of the end. `directory_paging` says that it then has every child once.
-/

namespace Oliphaunt.OpfsPool

open Bytes FileTree List

/-- `sort` with `localeCompare`: some order of the children. -/
structure Collation where
  sort : List (String × Node Nat) → List (String × Node Nat)
  perm : ∀ entries, (sort entries).Perm entries

/-- `TYPE_DIRECTORY` and `TYPE_FILE`. -/
def entryType : Node Nat → UInt8
  | .directory => 2
  | .file _ => 1

/-- `setUint32`, little endian. -/
def setUint32 (n : Nat) : List UInt8 :=
  [UInt8.ofNat n, UInt8.ofNat (n / 256), UInt8.ofNat (n / 65536), UInt8.ofNat (n / 16777216)]

def encodeEntry (e : String × UInt8) : List UInt8 :=
  e.2 :: (setUint32 (utf8 e.1).length ++ utf8 e.1)

/-- The `while` of `encodeDirectoryPage`, behind `length` bytes. -/
def selectEntries (capacity : Nat) : Nat → List (String × UInt8) → List (String × UInt8)
  | _, [] => []
  | length, e :: rest =>
    if capacity < length + 5 + (utf8 e.1).length then []
    else e :: selectEntries capacity (length + 5 + (utf8 e.1).length) rest

def encodeDirectoryPage (entries : List (String × UInt8)) (start capacity : Nat) :
    Except Failure (List UInt8 × Nat) :=
  let selected := selectEntries capacity 4 (entries.drop start)
  let next := start + selected.length
  if next < entries.length ∧ selected = [] then .error .storageFull
  else .ok (setUint32 selected.length ++ selected.flatMap encodeEntry, next)

/-- The result of the request: the bytes in the buffer, the cursor and the end flag. -/
structure Page where
  bytes : List UInt8
  next : Nat
  last : Bool

def listing (order : Collation) (children : List (String × Node Nat)) : List (String × UInt8) :=
  (order.sort children).map fun e => (e.1, entryType e.2)

def Pool.readDirectory (s : Pool) (order : Collation) (children : ChildIndex) (path : Path)
    (capacity start : Nat) : Except Failure Page :=
  match s.requireDirectory path true with
  | .error e => .error e
  | .ok () =>
    let entries := listing order (children path)
    if entries.length < start then .error .invalid
    else
      match encodeDirectoryPage entries start capacity with
      | .error e => .error e
      | .ok (bytes, next) =>
        -- `output.set` throws a RangeError
        if capacity < bytes.length then .error .io
        else .ok ⟨bytes, next, next == entries.length⟩

/-- The pages from `start` up to the one with the end flag. -/
def followPages (request : Nat → Except Failure Page) : Nat → Nat → Except Failure (List Page)
  | 0, _ => .error .io
  | fuel + 1, start =>
    match request start with
    | .error e => .error e
    | .ok page =>
      if page.last then .ok [page] else (followPages request fuel page.next).map (page :: ·)

def getUint32 (a b c d : UInt8) : Nat :=
  a.toNat + b.toNat * 256 + c.toNat * 65536 + d.toNat * 16777216

def decodeEntries : Nat → List UInt8 → Option (List (String × UInt8))
  | 0, bytes => if bytes = [] then some [] else none
  | count + 1, type :: a :: b :: c :: d :: bytes => do
    let name ← utf8Decode (bytes.take (getUint32 a b c d))
    let rest ← decodeEntries count (bytes.drop (getUint32 a b c d))
    pure ((name, type) :: rest)
  | _, _ => none

def decodePage : List UInt8 → Option (List (String × UInt8))
  | a :: b :: c :: d :: bytes => decodeEntries (getUint32 a b c d) bytes
  | _ => none

theorem getUint32_setUint32 {n : Nat} (h : n < 2 ^ 32) :
    getUint32 (.ofNat n) (.ofNat (n / 256)) (.ofNat (n / 65536)) (.ofNat (n / 16777216)) = n := by
  simp only [getUint32, UInt8.toNat_ofNat']
  omega

variable {entries selected : List (String × UInt8)} {capacity length start : Nat}

theorem decodeEntries_encode (h : ∀ e ∈ selected, (utf8 e.1).length < 2 ^ 32) :
    decodeEntries selected.length (selected.flatMap encodeEntry) = some selected := by
  induction selected with
  | nil => rfl
  | cons e rest ih =>
    have hrest := ih fun e he => h e (.tail _ he)
    simp only [length_cons, flatMap_cons, encodeEntry, setUint32, cons_append, nil_append,
      decodeEntries, getUint32_setUint32 (h e (.head _)), take_left', drop_left', utf8Decode_utf8,
      hrest]
    rfl

theorem selectEntries_spec (hlength : length ≤ capacity) :
    selectEntries capacity length entries <+: entries ∧
      length + ((selectEntries capacity length entries).flatMap encodeEntry).length ≤ capacity := by
  induction entries generalizing length with
  | nil => exact ⟨prefix_rfl, by simpa [selectEntries] using hlength⟩
  | cons e rest ih =>
    rw [selectEntries]
    split
    · refine ⟨?_, by simpa using hlength⟩
      exact nil_prefix
    · rename_i hfits
      obtain ⟨hlead, hsize⟩ := ih (Nat.le_of_not_lt hfits)
      refine ⟨cons_prefix_cons.mpr ⟨rfl, hlead⟩, ?_⟩
      rw [flatMap_cons, length_append, encodeEntry, length_cons, length_append]
      simp only [setUint32, length_cons, length_nil]
      omega

theorem selectEntries_ne_nil (hne : entries ≠ [])
    (hfits : ∀ e ∈ entries, 9 + (utf8 e.1).length ≤ capacity) :
    selectEntries capacity 4 entries ≠ [] := by
  cases entries with
  | nil => exact absurd rfl hne
  | cons e rest =>
    have := hfits e (.head _)
    rw [selectEntries, if_neg (by omega)]
    exact cons_ne_nil _ _

section
variable (hcapacity : 4 ≤ capacity) (hfits : ∀ e ∈ entries, 9 + (utf8 e.1).length ≤ capacity)
  (hnames : ∀ e ∈ entries, (utf8 e.1).length < 2 ^ 32) (hcount : entries.length < 2 ^ 32)
include hcapacity hfits hnames hcount

/-- A page holds the entries up to its cursor, and one of them where one is left. -/
theorem encodeDirectoryPage_spec (hstart : start ≤ entries.length) :
    ∃ selected bytes, encodeDirectoryPage entries start capacity =
        .ok (bytes, start + selected.length) ∧ bytes.length ≤ capacity ∧
      decodePage bytes = some selected ∧
      entries.drop start = selected ++ entries.drop (start + selected.length) ∧
      (selected = [] → start = entries.length) := by
  obtain ⟨⟨rest, hrest⟩, hsize⟩ := @selectEntries_spec (entries.drop start) _ _ hcapacity
  have hne : selectEntries capacity 4 (entries.drop start) = [] → start = entries.length := by
    intro hempty
    by_contra hlt
    refine selectEntries_ne_nil (fun hnil => hlt ?_)
      (fun e he => hfits e (mem_of_mem_drop he)) hempty
    exact Nat.le_antisymm hstart (drop_eq_nil_iff.mp hnil)
  generalize hselected : selectEntries capacity 4 (entries.drop start) = selected at *
  have hshort : selected.length ≤ entries.length := by
    have hlength := congrArg List.length hrest
    rw [length_append, length_drop] at hlength
    omega
  refine ⟨selected, setUint32 selected.length ++ selected.flatMap encodeEntry, ?_, ?_, ?_, ?_, hne⟩
  · rw [encodeDirectoryPage, hselected, if_neg]
    rintro ⟨hnext, hempty⟩
    have := hne hempty
    omega
  · rw [length_append]
    exact hsize
  · simp only [setUint32, cons_append, nil_append, decodePage,
      getUint32_setUint32 (Nat.lt_of_le_of_lt hshort hcount)]
    refine decodeEntries_encode fun e he => hnames e (mem_of_mem_drop (i := start) ?_)
    rw [← hrest]
    exact mem_append_left _ he
  · rw [← drop_drop, ← hrest, drop_left]

end

variable {request : Nat → Except Failure Page}

/-- The pages from `start` hold what is left there, and only the last has the end flag. -/
theorem followPages_spec
    (h : ∀ start ≤ entries.length, ∃ selected bytes, request start =
        .ok ⟨bytes, start + selected.length, start + selected.length == entries.length⟩ ∧
      decodePage bytes = some selected ∧
      entries.drop start = selected ++ entries.drop (start + selected.length) ∧
      (selected = [] → start = entries.length))
    {fuel : Nat} (hstart : start ≤ entries.length) (hfuel : entries.length - start < fuel) :
    ∃ pages decoded n, followPages request fuel start = .ok pages ∧
      pages.mapM (decodePage ·.bytes) = some decoded ∧ decoded.flatten = entries.drop start ∧
      pages.map (·.last) = replicate n false ++ [true] := by
  induction fuel generalizing start with
  | zero => omega
  | succ fuel ih =>
    obtain ⟨selected, bytes, hrequest, hdecode, hdrop, hne⟩ := h start hstart
    by_cases hlast : start + selected.length = entries.length
    · refine ⟨[⟨bytes, start + selected.length, true⟩], [selected], 0, ?_, ?_, ?_, rfl⟩
      · simp only [followPages, hrequest, hlast, beq_self_eq_true, if_true]
      · simp [hdecode]
      · rw [hdrop, hlast, drop_length, append_nil, flatten_singleton]
    · have hpos : 0 < selected.length := by
        refine length_pos_of_ne_nil fun hempty => hlast ?_
        rw [hempty, hne hempty]
        rfl
      have hle : start + selected.length ≤ entries.length := by
        have hlength := congrArg List.length hdrop
        rw [length_append, length_drop, length_drop] at hlength
        omega
      obtain ⟨pages, decoded, n, hfollow, hdecoded, hflatten, hflags⟩ := ih hle (by omega)
      refine ⟨⟨bytes, start + selected.length, false⟩ :: pages, selected :: decoded, n + 1, ?_, ?_,
        ?_, congrArg (false :: ·) hflags⟩
      · simp only [followPages, hrequest, beq_eq_false_iff_ne.mpr hlast, hfollow]
        rfl
      · simp [hdecode, hdecoded]
      · rw [flatten_cons, hflatten, ← hdrop]

/-- Every child of a directory is on one of its pages, once and with its type, and the end
flag is on the last page only. A JavaScript text or map has fewer than 2^32 elements. -/
theorem directory_paging (s : Pool) (order : Collation) (children : ChildIndex) (path : Path)
    (capacity : Nat) (hdirectory : s.requireDirectory path true = .ok ())
    (hcapacity : 4 ≤ capacity) (hfits : ∀ e ∈ children path, 9 + (utf8 e.1).length ≤ capacity)
    (hnames : ∀ e ∈ children path, (utf8 e.1).length < 2 ^ 32)
    (hcount : (children path).length < 2 ^ 32) :
    ∃ pages decoded n, followPages (s.readDirectory order children path capacity)
        ((children path).length + 1) 0 = .ok pages ∧
      pages.mapM (decodePage ·.bytes) = some decoded ∧
      decoded.flatten.Perm ((children path).map fun e => (e.1, entryType e.2)) ∧
      pages.map (·.last) = replicate n false ++ [true] := by
  have hperm : (listing order (children path)).Perm _ := (order.perm (children path)).map _
  have hlisted : ∀ {P : String → Prop}, (∀ e ∈ children path, P e.1) →
      ∀ e ∈ listing order (children path), P e.1 := by
    intro P hP e he
    obtain ⟨child, hchild, rfl⟩ := mem_map.mp (hperm.mem_iff.mp he)
    exact hP child hchild
  rw [← length_map (f := fun e => (e.1, entryType e.2)), ← hperm.length_eq] at hcount ⊢
  have hpages := @followPages_spec (listing order (children path)) 0
    (s.readDirectory order children path capacity) (fun start hstart => ?request) _ (Nat.zero_le _)
    (Nat.lt_succ_self _)
  case request =>
    obtain ⟨selected, bytes, hpage, hbytes, hrest⟩ := encodeDirectoryPage_spec hcapacity
      (hlisted (P := fun name => 9 + (utf8 name).length ≤ capacity) hfits)
      (hlisted (P := fun name => (utf8 name).length < 2 ^ 32) hnames) hcount hstart
    refine ⟨selected, bytes, ?_, hrest⟩
    simp only [Pool.readDirectory, hdirectory, hpage, if_neg (Nat.not_lt.mpr hstart),
      if_neg (Nat.not_lt.mpr hbytes)]
  obtain ⟨pages, decoded, n, hfollow, hdecoded, hflatten, hflags⟩ := hpages
  exact ⟨pages, decoded, n, hfollow, hdecoded, hflatten ▸ hperm, hflags⟩

/-- The two children of a directory do not fit on one page. -/
theorem directory_paging_two : ∃ pages decoded n,
    followPages ((hydrated smallDisk smallState [1]).pool.readDirectory ⟨id, fun _ => .refl _⟩
      (fun _ => [("a", .directory), ("bc", .file 0)]) [] 12) 3 0 = .ok pages ∧
    pages.mapM (decodePage ·.bytes) = some decoded ∧
    decoded.flatten.Perm [("a", 2), ("bc", 1)] ∧
    pages.map (·.last) = replicate n false ++ [true] :=
  directory_paging _ _ _ [] 12 (by decide +kernel) (by decide) (by decide +kernel)
    (by decide +kernel) (by decide)

end Oliphaunt.OpfsPool
