import Oliphaunt.TS.OpfsNamespace

/-!
# Refused bridge requests

A bridge request carries plain numbers and a payload; what is not a safe non-negative
integer, or not UTF-8, is refused before the request proper. `request_refused_iff` says
when a request that is refused for its arguments leaves the namespace, the contents and the
descriptors as they are: always, except that `#open` checks the flags of a truncation only
after it has made the entry.

* `refused_open_creates_file` — the exception.
-/

namespace Oliphaunt.OpfsPool

open FileTree Transition

/-! ## Requests with their raw arguments -/

/-- A number argument that is not a safe non-negative integer is `none`. -/
inductive BridgeRequest where
  /-- `metadata`, `readDirectory`, `read`, `fileSize` and unknown opcodes assign nothing -/
  | inspect (result : Result)
  | createDirectory (path : Path)
  | removeDirectory (path : Path)
  /-- the payload is `none` when it is not UTF-8 -/
  | rename (path : Path) (payload : Option Path)
  | removeFile (path : Path)
  | open (path : Path) (flags : OpenFlags)
  | close (descriptor : Option Nat)
  | write (descriptor offset : Option Nat) (bytes : Contents)
  | flush (descriptor : Option Nat)
  | truncate (descriptor size : Option Nat)
  | unlink (descriptor : Option Nat)
deriving DecidableEq, Repr

def maxSafeInteger : Nat := 9007199254740991

namespace Pool

/-- The end of a write to a staged file is no safe integer. -/
def writesTooFar (s : Pool) (value offset : Nat) (bytes : Contents) : Option Nat :=
  (s.descriptor value).bind fun d =>
    (s.staged d.record).bind fun old =>
      let writeOffset := if d.append then old.length else offset
      if maxSafeInteger < writeOffset + bytes.length then some d.record else none

def bridge (s : Pool) (effects : Effects) : BridgeRequest → Pool × Result
  | .inspect result => (s, result)
  | .createDirectory path => s.dispatch (.createDirectory path) effects
  | .removeDirectory path => s.dispatch (.removeDirectory path) effects
  | .rename _ none => (s, .error .io)
  | .rename src (some dst) => s.dispatch (.rename src dst) effects
  | .removeFile path => s.dispatch (.removeFile path) effects
  | .open path flags => s.dispatch (.open path flags) effects
  | .close (some value) => s.dispatch (.close value) effects
  | .write (some value) (some offset) bytes =>
    match s.writesTooFar value offset bytes with
    | some r => (s.markDirty r, .error .invalid)
    | none => s.dispatch (.write value offset bytes) effects
  | .flush (some value) => s.dispatch (.flush value) effects
  | .truncate (some value) (some size) => s.dispatch (.truncate value size) effects
  | .unlink (some value) => s.dispatch (.unlink value) effects
  | _ => (s, .error .invalid)

/-- A file that is truncated without a right to write, at a path where `#open` first makes
an entry for it. -/
def truncatesUnwritable (s : Pool) : BridgeRequest → Bool
  | .open path flags =>
    (validatePath path false).isOk && (s.entries.get path).isNone &&
      (flags.create || flags.createNew) && (s.requireDirectory path.dropLast true).isOk &&
        (s.spares.getLast?.all fun r => (s.backing r).isSome) &&
          flags.truncate && !flags.write && !flags.append
  | _ => false

end Pool

/-- No call of an access handle fails. -/
def Effects.succeed (effects : Effects) : Bool :=
  effects.first.isNone && effects.second.isNone && effects.written ≠ 0

/-- The namespace, the contents and sizes of all files, and the descriptors. -/
structure SameFiles (s t : Pool) : Prop where
  entries : t.entries = s.entries
  contents : t.contents = s.contents
  descriptors : t.descriptors = s.descriptors

variable {s : Pool} {effects : Effects}

theorem SameFiles.refl (s : Pool) : SameFiles s s := ⟨rfl, rfl, rfl⟩

theorem SameFiles.markDirty (s : Pool) (r : Nat) : SameFiles s (s.markDirty r) := ⟨rfl, rfl, rfl⟩

variable {request : Request} {r : Nat} {flags : OpenFlags}

theorem SameFiles.of_refused (hrequest : request.checksFirst = true)
    (hrefused : (s.dispatch request effects).2.isOk = false) :
    SameFiles s (s.dispatch request effects).1 := by
  rw [dispatch_refused hrequest hrefused]
  exact .refl s

theorem setRecordSize_refused (h : (s.setRecordSize r size none).2.isOk = false) :
    SameFiles s (s.setRecordSize r size none).1 := by
  simp only [Pool.setRecordSize] at h ⊢
  split at h <;> try cases h
  exact .markDirty s r

/-- The requests on descriptors, when no call of an access handle fails. -/
theorem descriptor_refused (heffects : effects.succeed = true)
    (hrequest : ∀ path flags, request ≠ .open path flags)
    (hrefused : (s.dispatch request effects).2.isOk = false) :
    SameFiles s (s.dispatch request effects).1 := by
  obtain ⟨⟨hfirst, -⟩, hwritten⟩ := by simpa [Effects.succeed] using heffects
  cases request with
  | createDirectory | removeDirectory | rename | removeFile => exact .of_refused rfl hrefused
  | «open» path flags => exact absurd rfl (hrequest path flags)
  | close value =>
    simp only [Pool.dispatch, Pool.closeDescriptor] at hrefused ⊢
    split at hrefused
    · exact .refl s
    · split at hrefused <;> cases hrefused
  | write value offset bytes =>
    simp only [Pool.dispatch, Pool.writeFile, hfirst] at hrefused ⊢
    split at hrefused
    · exact .refl s
    · split at hrefused
      · exact .markDirty s _
      · split at hrefused <;> try cases hrefused
        split at hrefused <;> try cases hrefused
        rename_i hnone
        exact absurd hnone.1 hwritten
  | flush value =>
    simp only [Pool.dispatch, Pool.flushFile, Pool.flushRecord, hfirst] at hrefused ⊢
    split at hrefused
    · exact .refl s
    · split at hrefused <;> try cases hrefused
      rename_i hflush
      rw [if_neg hflush]
      split at hrefused <;> try cases hrefused
      exact .refl s
  | truncate value size =>
    simp only [Pool.dispatch, Pool.truncateFile, hfirst] at hrefused ⊢
    split at hrefused
    · exact .refl s
    · exact setRecordSize_refused hrefused
  | unlink value =>
    simp only [Pool.dispatch, Pool.unlinkDescriptor] at hrefused ⊢
    split at hrefused
    · exact .refl s
    · split at hrefused <;> cases hrefused

/-- The end of `#open` refuses a truncation that the flags do not allow; for a file with a
content that is the only reason. -/
theorem openRecord_refused (h : (s.openRecord r flags none).2.isOk = false) :
    SameFiles s (s.openRecord r flags none).1 ∧
      ((s.contents r).isSome → (flags.truncate && !flags.write && !flags.append) = true) := by
  rw [Pool.openRecord] at h ⊢
  cases hcall : s.openTruncate r flags none with
  | mk t result =>
    cases result with
    | ok _ =>
      rw [hcall] at h
      cases h
    | error e =>
      simp only [Pool.openTruncate] at hcall
      repeat' split at hcall
      · have hsize : (s.setRecordSize r 0 none).2.isOk = false := by rw [hcall]; rfl
        have hsame := setRecordSize_refused hsize
        rw [hcall] at hsame
        refine ⟨hsame, fun hsome => ?_⟩
        obtain ⟨bytes, hbytes⟩ := Option.isSome_iff_exists.mp hsome
        have hmarked : (s.markDirty r).contents r = some bytes := hbytes
        simp only [Pool.setRecordSize, hmarked] at hsize
        cases hsize
      · cases hcall
        exact ⟨.refl s, fun _ => by simp_all⟩
      · cases hcall

/-- A spare is taken only when its backing file exists; otherwise nothing changes. -/
theorem takeSpare_spec (path : Path) (hbacked : Backed s.backing s.staged s.disk s.nextRecord) :
    match s.takeSpare path none with
    | (t, .ok r) => (t.contents r).isSome ∧
        (s.spares.getLast?.all fun r => (s.backing r).isSome) = true
    | (t, .error _) => SameFiles s t ∧
        (s.spares.getLast?.all fun r => (s.backing r).isSome) = false := by
  simp only [Pool.takeSpare]
  cases hlast : s.spares.getLast? with
  | none => simp [Pool.contents]
  | some r =>
    cases hb : s.backing r with
    | none => simp only [Option.all_some, hb]; exact ⟨⟨rfl, rfl, rfl⟩, rfl⟩
    | some b =>
      obtain ⟨-, v, vs, hvs⟩ := hbacked.onDisk r b hb
      cases hstaged : s.staged r <;>
        simp [Pool.markDirty, Pool.contents, hstaged, hb, Disk.read, hvs]

/-- A refused `#open` leaves everything as it was exactly if it does not truncate a new file
without a right to write. -/
theorem open_refused_iff (hbacked : Backed s.backing s.staged s.disk s.nextRecord)
    (heffects : effects.succeed = true)
    (hrefused : (s.openFile path flags effects).2.isOk = false) :
    SameFiles s (s.openFile path flags effects).1 ↔
      s.truncatesUnwritable (.open path flags) = false := by
  obtain ⟨⟨hfirst, hsecond⟩, -⟩ := by simpa [Effects.succeed] using heffects
  simp only [Pool.openFile, hfirst, hsecond, Pool.truncatesUnwritable] at hrefused ⊢
  cases hpath : validatePath path false with
  | error e => simpa [Except.isOk, Except.toBool] using SameFiles.refl s
  | ok _ =>
    cases hget : s.entries.get path with
    | some existing =>
      simp only [hpath, hget] at hrefused ⊢
      refine iff_of_true ?_ (by simp)
      split at hrefused <;> rename_i hnew
      · rw [if_pos hnew]
        exact .refl s
      · rw [if_neg hnew]
        cases existing with
        | directory => exact .refl s
        | file r => exact (openRecord_refused hrefused).1
    | none =>
      simp only [hpath, hget] at hrefused ⊢
      split at hrefused <;> rename_i hcreate
      · rw [if_pos hcreate]
        refine iff_of_true (.refl s) (by simp_all)
      · rw [if_neg hcreate]
        cases hparent : s.requireDirectory path.dropLast true with
        | error e => simpa [Except.isOk, Except.toBool] using SameFiles.refl s
        | ok _ =>
          have hspec := takeSpare_spec path hbacked
          simp only [hparent] at hrefused ⊢
          cases hspare : s.takeSpare path none with
          | mk t result =>
            rw [hspare] at hspec
            simp only [hspare] at hrefused
            cases result with
            | error e => exact iff_of_true hspec.1 (by simp [hspec.2])
            | ok r =>
              -- the entry is there before the flags are checked
              have hflags := (openRecord_refused hrefused).2 hspec.1
              refine iff_of_false (fun hsame => ?_) (by simp_all [Except.isOk, Except.toBool])
              have hentries : t.entries.set path (.file r) = s.entries :=
                (openRecord_entries _ r flags none).symm.trans hsame.entries
              rw [← hentries, PathTree.get_set, if_pos rfl] at hget
              cases hget

/-- The same for any bridge request, from any backed pool. -/
theorem bridge_refused_iff {request : BridgeRequest}
    (hbacked : Backed s.backing s.staged s.disk s.nextRecord) (heffects : effects.succeed = true)
    (hrefused : (s.bridge effects request).2.isOk = false) :
    SameFiles s (s.bridge effects request).1 ↔ s.truncatesUnwritable request = false := by
  by_cases hopen : ∃ path flags, request = .open path flags
  · obtain ⟨path, flags, rfl⟩ := hopen
    exact open_refused_iff hbacked heffects hrefused
  · have hnot : s.truncatesUnwritable request = false := by
      cases request <;> first | rfl | exact absurd ⟨_, _, rfl⟩ hopen
    refine iff_of_true ?_ hnot
    unfold Pool.bridge at hrefused ⊢
    split at hrefused
    all_goals first
      | exact .refl s
      | exact absurd ⟨_, _, rfl⟩ hopen
      | exact descriptor_refused heffects nofun hrefused
      | skip
    split at hrefused
    · exact .markDirty s _
    · exact descriptor_refused heffects nofun hrefused

/-- A request that is refused in a state that requests and syncs reach, while no call of an
access handle fails, changes neither the namespace nor a file nor a descriptor, unless it
truncates a new file without a right to write. -/
theorem request_refused_iff {name : String} {physicalIdentity : PhysicalIdentity} {disk : Disk}
    {state : PoolState} {spares : List Nat}
    (hopen : Openable name physicalIdentity disk state spares) {as : List Action} {s : State}
    (hrun : run (step name physicalIdentity) (hydrated disk state spares) as = some s)
    {request : BridgeRequest} {effects : Effects} (heffects : effects.succeed = true)
    (hrefused : (s.pool.bridge effects request).2.isOk = false) :
    SameFiles s.pool (s.pool.bridge effects request).1 ↔
      s.pool.truncatesUnwritable request = false := by
  exact bridge_refused_iff (hopen.run_ok hrun).1.backed heffects hrefused

/-- A directory cannot be created where a file is. -/
theorem request_refused_existing :
    SameFiles (hydrated smallDisk smallState [1]).pool
      ((hydrated smallDisk smallState [1]).pool.bridge noFailure
        (.createDirectory ["PG_VERSION"])).1 := by
  have hrun : run (step "db" wasixPhysicalIdentity) (hydrated smallDisk smallState [1]) [] =
      some _ := rfl
  exact (request_refused_iff smallDisk_openable hrun (by decide) (by decide +kernel)).mpr
    (by decide +kernel)

/-- `open` with CREATE and TRUNCATE, but neither WRITE nor APPEND: the request is refused,
and there is a new file. -/
theorem refused_open_creates_file :
    let s := (hydrated smallDisk smallState [1]).pool
    let out := s.bridge noFailure (.open ["a"] ⟨false, false, true, false, true⟩)
    out.2 = .error .invalid ∧ s.entries.get ["a"] = none ∧
      out.1.entries.get ["a"] = some (.file 1) := by
  decide +kernel

end Oliphaunt.OpfsPool
