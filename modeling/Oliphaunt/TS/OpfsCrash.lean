import Oliphaunt.TS.OpfsInvariant
import Oliphaunt.TS.OpfsSync

/-!
# Every crash point leaves the last publication

The phases of a sync add to the invariant of the pool: a worker's backing belongs to no
record, every staged file with a path is on some worker's list until it is
materialised, and before the state is written every dirty file with a path is still in
the flush queue (`PhaseOk`).

`crash_consistent` is the result for whole runs, `publication_exact` what a
publication adds to it.
-/

namespace Oliphaunt.OpfsPool

open FileTree Transition Function List Option

section Pool

variable {name : String} {identity : PhysicalIdentity} {s : Pool}

/-! ## Backings that belong to no record -/

section

variable (h : Invariant name identity s)

include h

/-- A change of the disk that no record's backing takes part in. -/
theorem Invariant.ofDisk (hstate : disk.state = s.disk.state) (hnext : s.disk.next ≤ disk.next)
    (hfiles : ∀ r b, s.backing r = some b → disk.files b = s.disk.files b) :
    Invariant name identity { s with disk := disk } :=
  { h with
    backed := by
      refine ⟨h.backed.distinct, ?_, h.backed.memory, h.backed.fresh⟩
      intro r b hb
      obtain ⟨hlt, hversions⟩ := h.backed.onDisk r b hb
      refine ⟨Nat.lt_of_lt_of_le hlt hnext, ?_⟩
      show ∃ v vs, disk.files b = some (v :: vs)
      rw [hfiles r b hb]
      exact hversions
    flushed := by
      intro r p b hpath hb hclean
      show ∃ v, disk.files b = some [v]
      rw [hfiles r b hb]
      exact h.flushed r p b hpath hb hclean
    published := h.published.ofFiles hstate fun r b vs hb hvs hmem =>
      ⟨vs, (hfiles r b hb).trans hvs, hmem⟩ }

/-- A backing that is created is unknown to the pool. -/
theorem Invariant.create : Invariant name identity { s with disk := s.disk.create } := by
  refine h.ofDisk rfl (Nat.le_succ _) ?_
  intro r b hb
  exact Disk.create_files_ne _ (Nat.ne_of_lt (h.backed.onDisk r b hb).1)

variable {b : Nat}

/-- Writing to a backing that no record owns touches no file of the pool. -/
theorem Invariant.writeFree (hfree : ∀ r, s.backing r ≠ some b) (bytes : Contents) :
    Invariant name identity { s with disk := s.disk.write b bytes } := by
  refine h.ofDisk rfl (Nat.le_refl _) ?_
  intro r c hc
  refine Disk.write_files_ne _ _ ?_
  rintro rfl
  exact hfree r hc

theorem Invariant.removeFree (hfree : ∀ r, s.backing r ≠ some b) :
    Invariant name identity { s with disk := s.disk.remove b } := by
  refine h.ofDisk rfl (Nat.le_refl _) ?_
  intro r c hc
  refine Disk.remove_files_ne _ ?_
  rintro rfl
  exact hfree r hc

end

section Backed

variable {backing : Nat → Option Nat} {staged : Nat → Option Contents} {disk : Disk}
  {nextRecord : Nat} {r b : Nat}

/-- A record takes over a backing that nobody owns, and with it is no longer staged. -/
theorem Backed.give (h : Backed backing staged disk nextRecord) (hr : r < nextRecord)
    (hfree : ∀ r, backing r ≠ some b) (hlt : b < disk.next)
    (hversions : ∃ v vs, disk.files b = some (v :: vs)) :
    Backed (update backing r (some b)) (update staged r none) disk
      nextRecord where
  distinct := by
    intro r₁ r₂ c h₁ h₂
    have hold := h.distinct r₁ r₂ c
    grind
  onDisk := by
    intro r' c hc
    by_cases hr' : r' = r
    · rw [hr', update_self] at hc
      cases hc
      exact ⟨hlt, hversions⟩
    · rw [update_of_ne hr'] at hc
      exact h.onDisk r' c hc
  memory := by
    intro r' bytes hbytes
    by_cases hr' : r' = r
    · rw [hr', update_self] at hbytes
      cases hbytes
    · rw [update_of_ne hr'] at hbytes ⊢
      exact h.memory r' bytes hbytes
  fresh := by
    intro r' hr'
    have hne : r' ≠ r := by omega
    rw [update_of_ne hne, update_of_ne hne]
    exact h.fresh r' hr'

/-- A backing that is a record's after it was given to one. -/
theorem update_backing (h : update backing r (some b) r' = some c) :
    c = b ∨ backing r' = some c := by
  by_cases hr : r' = r
  · rw [hr, update_self] at h
    exact .inl (Option.some.inj h).symm
  · rw [update_of_ne hr] at h
    exact .inr h

theorem Backed.lt_of_staged (h : Backed backing staged disk nextRecord)
    (hr : staged r = some bytes) :
    r < nextRecord := by
  by_contra hge
  rw [(h.fresh r (Nat.le_of_not_lt hge)).2] at hr
  cases hr

end Backed

variable {b : Nat}

/-- A staged file gets its bytes on disk under a backing of its own. -/
theorem Invariant.materialize (h : Invariant name identity s) (hstaged : s.staged r = some bytes)
    (hfree : ∀ r, s.backing r ≠ some b) (hlt : b < s.disk.next)
    (hversions : ∃ v vs, s.disk.files b = some (v :: vs)) :
    Invariant name identity (s.materialize r b) := by
  have hr := h.backed.lt_of_staged hstaged
  have hnone := h.backed.memory r bytes hstaged
  obtain ⟨v, vs, hvs⟩ := hversions
  have hflush : (s.disk.flush b).files b = some [v] := by
    rw [Disk.flush_files_self, hvs]
    rfl
  refine ⟨h.names, (h.backed.flush b).give hr hfree hlt ⟨v, [], hflush⟩, h.counted, h.reclaims,
    ?_, ?_, h.current⟩
  · intro r' p c hpath hc hclean
    by_cases hr' : r' = r
    · have hc' : update s.backing r (some b) r' = some c := hc
      rw [hr', update_self] at hc'
      cases hc'
      exact ⟨v, hflush⟩
    · have hc' : s.backing r' = some c := (update_of_ne hr' _ _).symm.trans hc
      have hcb : c ≠ b := by
        rintro rfl
        exact hfree r' hc'
      have hclean' : r' ∉ s.dirty := fun hmem =>
        hclean (mem_filter.mpr ⟨hmem, decide_eq_true hr'⟩)
      obtain ⟨u, hu⟩ := h.flushed r' p c hpath hc' hclean'
      exact ⟨u, (Disk.flush_files_ne _ hcb).trans hu⟩
  · refine h.published.transport rfl rfl ?_
    intro p r' _ hkept hspare
    have hr' : r' ≠ r := by
      rintro rfl
      obtain ⟨-, c, -, hc, -⟩ := hkept
      cases hnone.symm.trans hc
    have hsame : (s.materialize r b).backing r' = s.backing r' := update_of_ne hr' _ _
    refine ⟨hsame, hkept.of_history rfl rfl hsame ?_, hspare⟩
    intro c vs' hc hvs' hmem
    refine ⟨vs', (Disk.flush_files_ne _ ?_).trans hvs', hmem⟩
    rintro rfl
    exact hfree r' hc

theorem Counted.unknown (h : Counted descriptors nextDescriptor references nextRecord) :
    references nextRecord = 0 := by
  rw [h.count, countP_eq_zero]
  intro d hd hrecord
  have := (h.below d hd).2
  have := of_decide_eq_true hrecord
  omega

/-- A backing that nobody owns becomes a spare. -/
theorem Invariant.addSpare (h : Invariant name identity s) (hfree : ∀ r, s.backing r ≠ some b)
    (hlt : b < s.disk.next) (hversions : ∃ v vs, s.disk.files b = some (v :: vs)) :
    Invariant name identity (s.addSpare b) := by
  have hnew := h.backed.fresh s.nextRecord (Nat.le_refl _)
  have hpath := h.names.fresh s.nextRecord (Nat.le_refl _)
  have hstaged : update s.staged s.nextRecord none = s.staged := by
    rw [← hnew.2]
    exact update_eq_self s.nextRecord s.staged
  have hbacked := (h.backed.mono (Nat.le_succ s.nextRecord)).give (Nat.lt_succ_self _) hfree hlt
    hversions
  rw [hstaged] at hbacked
  refine ⟨⟨h.names.formed, h.names.valid, h.names.owner, ?_⟩, hbacked,
    ⟨h.counted.nodup, ?_, h.counted.count⟩, ⟨?_, ?_⟩, ?_, ?_, h.current⟩
  · intro r hr
    exact h.names.fresh r (Nat.le_of_succ_le hr)
  · intro d hd
    have := h.counted.below d hd
    exact ⟨this.1, Nat.lt_succ_of_lt this.2⟩
  · show (s.pendingReclaims ++ (s.spares ++ [s.nextRecord])).Nodup
    rw [← append_assoc, nodup_append]
    refine ⟨h.reclaims.nodup, nodup_singleton _, ?_⟩
    intro r hr r' hr'
    rw [mem_singleton.mp hr']
    exact Nat.ne_of_lt (h.reclaims.free r hr).2.2
  · intro r hr
    have hr' : r ∈ s.pendingReclaims ++ s.spares ∨ r = s.nextRecord := by
      rw [← mem_singleton, ← mem_append, append_assoc]
      exact hr
    rcases hr' with hr' | rfl
    · obtain ⟨hnone, hzero, hlt'⟩ := h.reclaims.free r hr'
      exact ⟨hnone, hzero, Nat.lt_succ_of_lt hlt'⟩
    · exact ⟨hpath, h.counted.unknown, Nat.lt_succ_self _⟩
  · intro r p c hr hc hclean
    have hne : r ≠ s.nextRecord := by
      rintro rfl
      cases hpath.symm.trans hr
    exact h.flushed r p c hr ((update_of_ne hne _ _).symm.trans hc) hclean
  · refine h.published.transport rfl rfl ?_
    intro p r _ hkept hspare
    have hne : r ≠ s.nextRecord := by
      rintro rfl
      obtain ⟨-, c, -, hc, -⟩ := hkept
      cases hnew.1.symm.trans hc
    have hsame : (s.addSpare b).backing r = s.backing r := update_of_ne hne _ _
    refine ⟨hsame, hkept.of_history rfl rfl hsame fun c vs _ hvs hmem => ⟨vs, hvs, hmem⟩, ?_⟩
    intro hmem
    rcases mem_append.mp hmem with hmem | hmem
    · exact hspare hmem
    · exact hne (mem_singleton.mp hmem)

/-- Every file of the namespace is in a backing of its own and flushed. -/
structure Durable (s : Pool) : Prop where
  backed : ∀ r p, s.path r = some p → s.staged r = none
  clean : ∀ r p, s.path r = some p → r ∉ s.dirty

/-- Writing `state.json` keeps the invariant if the files that it names are durable. -/
theorem Invariant.publish (h : Invariant name identity s) (hdurable : Durable s)
    (hentries : serializeEntries s.backing s.entries = some entries) :
    Invariant name identity (s.publish ⟨name, phase, identity, entries⟩) := by
  refine ⟨h.names, ⟨h.backed.distinct, h.backed.onDisk, h.backed.memory, h.backed.fresh⟩, h.counted,
    h.reclaims, fun r p b => h.flushed r p b, ?_, fun _ _ _ hr => hr⟩
  refine ⟨h.names.formed, h.names.valid, ?_, ⟨phase, entries, rfl, hentries⟩, ?_⟩
  · intro p q r hp hq
    exact Option.some.inj (((h.names.owner p r).mp hp).symm.trans ((h.names.owner q r).mp hq))
  · intro p r hr
    have hpath := (h.names.owner p r).mp hr
    obtain ⟨b, hb⟩ : ∃ b, s.backing r = some b := by
      have hmem : (p, Node.file r) ∈ s.entries.filter fun e => e.1 ≠ [] :=
        mem_filter.mpr ⟨hr, decide_eq_true (h.names.root_not_file hr)⟩
      obtain ⟨e, he⟩ := exists_of_mapM hentries hmem
      obtain ⟨b, hb, -⟩ := map_eq_some_iff.mp he
      exact ⟨b, hb⟩
    obtain ⟨v, hv⟩ := h.flushed r p b hpath hb (hdurable.clean r p hpath)
    have hcontents : s.contents r = some v := by
      simp only [Pool.contents, hdurable.backed r p hpath, hb, bind_some, Disk.read, hv]
      rfl
    refine ⟨⟨rfl, b, [v], hb, hv, ?_⟩, ?_⟩
    · intro u hu
      show u ∈ (s.contents r).toList
      rw [hcontents]
      exact hu
    · intro hspare
      exact h.reclaims.not_mem_of_path hpath (mem_append_right _ hspare)

/-- Once the state is written, the reclaimed backings are spares: no published entry names
them. -/
theorem Invariant.publishReclaims (h : Invariant name identity s)
    (hclean : s.namespaceDirty = false) :
    Invariant name identity s.publishReclaims := by
  have hperm : (s.spares ++ s.pendingReclaims).Perm (s.pendingReclaims ++ s.spares) :=
    perm_append_comm
  refine ⟨h.names, h.backed, h.counted, ⟨?_, ?_⟩, ?_, ?_, h.current⟩
  · exact hperm.nodup_iff.mpr h.reclaims.nodup
  · intro r hr
    exact h.reclaims.free r (hperm.mem_iff.mp hr)
  · refine h.flushed.mono (fun r p hr => ⟨p, hr⟩) ?_
    intro r p hr hmem
    refine mem_filter.mpr ⟨hmem, decide_eq_true fun hpending => ?_⟩
    exact h.reclaims.not_mem_of_path hr (mem_append_left _ hpending)
  · refine h.published.transport rfl rfl ?_
    intro p r hr hkept hspare
    refine ⟨rfl, hkept, fun hmem => ?_⟩
    have hpath := (h.names.owner p r).mp (h.current hclean p r hr)
    exact h.reclaims.not_mem_of_path hpath (hperm.mem_iff.mp hmem)

end Pool

/-- The backings of the workers exist and belong to nobody else. -/
structure Held (s : Pool) (backings : List Nat) : Prop where
  distinct : backings.Nodup
  free : ∀ b ∈ backings, ∀ r, s.backing r ≠ some b
  onDisk : ∀ b ∈ backings, b < s.disk.next ∧ ∃ v vs, s.disk.files b = some (v :: vs)

/-- The records that still wait for a backing, and, while nothing has failed, all of
them. -/
structure Waiting (s : Pool) (records : List Nat) (failed : Bool) : Prop where
  nodup : records.Nodup
  staged : ∀ r ∈ records, (s.staged r).isSome
  complete : failed = false → ∀ r p, s.path r = some p → (s.staged r).isSome → r ∈ records

def workBackings (work : List Worker) : List Nat := work.map Worker.backing

def workRecords (work : List Worker) : List Nat := work.filterMap Worker.record

def PhaseOk (s : State) : Prop :=
  match s.phase with
  | .idle | .flushing _ _ => True
  | .materializing _ todo work failed =>
    Held s.pool (workBackings work) ∧ Waiting s.pool (todo ++ workRecords work) failed
  | .publishing _ queue =>
    (∀ r p, s.pool.path r = some p → s.pool.staged r = none) ∧
      ∀ r p, s.pool.path r = some p → r ∈ s.pool.dirty → r ∈ queue
  | .sparing _ work _ =>
    Held s.pool (workBackings work) ∧ Waiting s.pool (workRecords work) true

theorem map_set_of_eq {α β : Type} {f : α → β} {as : List α} {a a' : α} (ha : as[i]? = some a)
    (hsame : f a' = f a) : (as.set i a').map f = as.map f := by
  induction as generalizing i with
  | nil => rfl
  | cons c as ih =>
    cases i with
    | zero =>
      obtain rfl : c = a := Option.some.inj ha
      simp [hsame]
    | succ i =>
      have := ih (i := i) ha
      simp [this]

theorem workRecords_eq (work : List Worker) :
    workRecords work = (work.map Worker.record).filterMap id := by
  rw [filterMap_map]
  rfl

section Held

variable {s t : Pool} {bs : List Nat} {b : Nat} {cs : List Nat}

theorem Held.mono (h : Held s bs) (hsub : cs.Sublist bs) : Held s cs :=
  ⟨h.distinct.sublist hsub, fun c hc => h.free c (hsub.subset hc),
    fun c hc => h.onDisk c (hsub.subset hc)⟩

theorem Held.perm (h : Held s bs) (hperm : cs.Perm bs) : Held s cs :=
  ⟨hperm.nodup_iff.mpr h.distinct, fun c hc => h.free c (hperm.mem_iff.mp hc),
    fun c hc => h.onDisk c (hperm.mem_iff.mp hc)⟩

/-- A step that gives away no backing of the list and removes none from the disk. -/
theorem Held.transport (h : Held s bs) (hnext : s.disk.next ≤ t.disk.next)
    (hfree : ∀ b ∈ bs, ∀ r, t.backing r = some b → s.backing r = some b)
    (hfiles : ∀ b ∈ bs, ∀ v vs, s.disk.files b = some (v :: vs) →
      ∃ u us, t.disk.files b = some (u :: us)) : Held t bs := by
  refine ⟨h.distinct, ?_, ?_⟩
  · intro b hb r hr
    exact h.free b hb r (hfree b hb r hr)
  · intro b hb
    obtain ⟨hlt, v, vs, hvs⟩ := h.onDisk b hb
    exact ⟨Nat.lt_of_lt_of_le hlt hnext, hfiles b hb v vs hvs⟩

theorem Held.create (h : Held s bs) (hbacked : Backed s.backing s.staged s.disk s.nextRecord) :
    Held { s with disk := s.disk.create } (bs ++ [s.disk.next]) := by
  have hold : Held { s with disk := s.disk.create } bs := by
    refine h.transport (Nat.le_succ _) (fun _ _ _ hr => hr) ?_
    intro b hb v vs hvs
    exact ⟨v, vs, (Disk.create_files_ne _ (Nat.ne_of_lt (h.onDisk b hb).1)).trans hvs⟩
  refine ⟨?_, ?_, ?_⟩
  · refine nodup_append.mpr ⟨h.distinct, nodup_singleton _, ?_⟩
    intro b hb c hc
    rw [mem_singleton.mp hc]
    exact Nat.ne_of_lt (h.onDisk b hb).1
  · intro b hb r hr
    rcases mem_append.mp hb with hb | hb
    · exact h.free b hb r hr
    · rw [mem_singleton.mp hb] at hr
      exact Nat.lt_irrefl _ (hbacked.onDisk r _ hr).1
  · intro b hb
    rcases mem_append.mp hb with hb | hb
    · exact hold.onDisk b hb
    · rw [mem_singleton.mp hb]
      exact ⟨Nat.lt_succ_self _, [], [], update_self ..⟩

theorem Held.write (h : Held s bs) (bytes : Contents) :
    Held { s with disk := s.disk.write b bytes } bs := by
  exact h.transport (Nat.le_refl _) (fun _ _ _ hr => hr) fun _ _ _ _ hvs =>
    Disk.write_files_some bytes hvs

theorem Held.remove (h : Held s (b :: bs)) : Held { s with disk := s.disk.remove b } bs := by
  refine (h.mono (sublist_cons_self b bs)).transport (Nat.le_refl _) (fun _ _ _ hr => hr) ?_
  intro c hc v vs hvs
  refine ⟨v, vs, (Disk.remove_files_ne _ ?_).trans hvs⟩
  rintro rfl
  exact (nodup_cons.mp h.distinct).1 hc

/-- A worker gives its backing to one record; the other workers keep theirs. -/
theorem Held.materialize (h : Held s (b :: bs)) (r : Nat) : Held (s.materialize r b) bs := by
  refine (h.mono (sublist_cons_self b bs)).transport (Nat.le_refl _) ?_ ?_
  · intro c hc r' hr'
    refine (update_backing hr').resolve_left ?_
    rintro rfl
    exact (nodup_cons.mp h.distinct).1 hc
  · intro c _ v vs hvs
    exact ⟨v, Disk.flush_files_some hvs⟩

theorem Held.addSpare (h : Held s (b :: bs)) : Held (s.addSpare b) bs := by
  refine (h.mono (sublist_cons_self b bs)).transport (Nat.le_refl _) ?_
    fun c _ v vs hvs => ⟨v, vs, hvs⟩
  intro c hc r hr
  refine (update_backing hr).resolve_left ?_
  rintro rfl
  exact (nodup_cons.mp h.distinct).1 hc

theorem Held.nil (s : Pool) : Held s [] :=
  ⟨nodup_nil, fun _ hb => absurd hb not_mem_nil, fun _ hb => absurd hb not_mem_nil⟩

end Held

section Waiting

variable {s : Pool} {rs : List Nat} {failed : Bool} {qs : List Nat}

theorem Waiting.perm (h : Waiting s rs failed) (hperm : qs.Perm rs) : Waiting s qs failed :=
  ⟨hperm.nodup_iff.mpr h.nodup, fun r hr => h.staged r (hperm.mem_iff.mp hr),
    fun hfailed r p hp hr => hperm.mem_iff.mpr (h.complete hfailed r p hp hr)⟩

theorem Waiting.fail (h : Waiting s rs failed) (hsub : qs.Sublist rs) : Waiting s qs true :=
  ⟨h.nodup.sublist hsub, fun r hr => h.staged r (hsub.subset hr), nofun⟩

theorem Waiting.materialize (h : Waiting s (r :: rs) failed) :
    Waiting (s.materialize r b) rs failed := by
  have hnodup := nodup_cons.mp h.nodup
  have hother : ∀ r' ≠ r, (s.materialize r b).staged r' = s.staged r' := by
    intro r' hr'
    exact update_of_ne hr' _ _
  refine ⟨hnodup.2, ?_, ?_⟩
  · intro r' hr'
    rw [hother r' (by rintro rfl; exact hnodup.1 hr')]
    exact h.staged r' (.tail _ hr')
  · intro hfailed r' p hp hstaged
    have hr' : r' ≠ r := by
      rintro rfl
      have hnone : (s.materialize r' b).staged r' = none := update_self ..
      rw [hnone] at hstaged
      cases hstaged
    rw [hother r' hr'] at hstaged
    exact mem_of_ne_of_mem hr' (h.complete hfailed r' p hp hstaged)

end Waiting

section Steps

variable {name : String} {identity : PhysicalIdentity} {s t : State}

/-- What is left of a worker next to the backings and records of the other ones. -/
def Remains (pool : Pool) (w : Worker) (bs rs : List Nat) (failed : Bool) : Option Worker → Prop
  | none => Held pool bs ∧ Waiting pool rs failed
  | some w' => (w'.backing = w.backing ∧ w'.record = w.record) ∧
      Held pool (w.backing :: bs) ∧ Waiting pool (w.record.toList ++ rs) failed

section

variable (h : Invariant name identity s.pool)

include h

variable {left : Contents}

/-- **One step of a worker keeps the invariant.** Its record stays on the list until it is
materialised, and its backing belongs to it until it is given away or removed. -/
theorem advance_ok (hheld : Held s.pool (w.backing :: bs))
    (hwait : Waiting s.pool (w.record.toList ++ rs) failed)
    (hadvance : s.advance w ok left = some out) : Invariant name identity out.1.pool ∧
      Remains out.1.pool w bs rs (failed || out.2.2) out.2.1 := by
  have hfree := hheld.free w.backing (.head _)
  obtain ⟨hlt, hversions⟩ := hheld.onDisk w.backing (.head _)
  have hrest := hheld.mono (sublist_cons_self w.backing bs)
  have hfail : Waiting s.pool rs (failed || true) := by
    rw [Bool.or_true]
    exact hwait.fail (sublist_append_right _ _)
  have hkeep : Waiting s.pool (w.record.toList ++ rs) (failed || false) := by
    rw [Bool.or_false]
    exact hwait
  simp only [State.advance] at hadvance
  split at hadvance <;> cases hadvance
  case h_1 | h_6 | h_7 => exact ⟨h, ⟨rfl, rfl⟩, hheld, hkeep⟩
  case h_2 hrecord =>
    rw [hrecord] at hkeep
    exact ⟨h.addSpare hfree hlt hversions, hheld.addSpare, { hkeep with }⟩
  case h_3 | h_4 =>
    exact ⟨h.writeFree hfree _, ⟨rfl, rfl⟩, hheld.write _, { hkeep with }⟩
  case h_5 r _ hrecord =>
    rw [hrecord] at hkeep
    obtain ⟨bytes, hbytes⟩ := isSome_iff_exists.mp (hkeep.staged r (.head _))
    exact ⟨h.materialize hbytes hfree hlt hversions, hheld.materialize r, Waiting.materialize hkeep⟩
  case h_8 => exact ⟨h.removeFree hfree, hheld.remove, { hfail with }⟩
  case h_9 => exact ⟨h, hrest, hfail⟩

/-- The same for the worker at one place of the list of workers. -/
theorem advanceAt_ok (hheld : Held s.pool (workBackings work))
    (hwait : Waiting s.pool (todo ++ workRecords work) failed)
    (hadvance : s.advanceAt work i ok left = some out) :
    Invariant name identity out.1.pool ∧ Held out.1.pool (workBackings out.2.1) ∧
      Waiting out.1.pool (todo ++ workRecords out.2.1) (failed || out.2.2) := by
  cases hw : work[i]? with
  | none => simp only [State.advanceAt, hw, reduceCtorEq] at hadvance
  | some w =>
    simp only [State.advanceAt, hw] at hadvance
    obtain ⟨⟨t, next, failed'⟩, hnext, rfl⟩ := map_eq_some_iff.mp hadvance
    have hperm := perm_eraseIdx hw
    have hbackings : (w.backing :: workBackings (work.eraseIdx i)).Perm (workBackings work) :=
      hperm.map Worker.backing
    have hrecords : (w.record.toList ++ (todo ++ workRecords (work.eraseIdx i))).Perm
        (todo ++ workRecords work) := by
      have hsplit : workRecords (w :: work.eraseIdx i) =
          w.record.toList ++ workRecords (work.eraseIdx i) := by
        cases hrecord : w.record <;> simp [workRecords, hrecord]
      have hwork : (workRecords (w :: work.eraseIdx i)).Perm (workRecords work) :=
        hperm.filterMap Worker.record
      rw [hsplit] at hwork
      refine List.Perm.trans ?_ (hwork.append_left todo)
      rw [← append_assoc, ← append_assoc]
      exact perm_append_comm.append_right _
    obtain ⟨hinv, hremains⟩ := advance_ok h (hheld.perm hbackings) (hwait.perm hrecords) hnext
    refine ⟨?_, ?_⟩
    · cases next <;> exact hinv
    · cases next with
      | none => exact hremains
      | some w' =>
        obtain ⟨⟨hbacking, hrecord⟩, hheld', hwait'⟩ := hremains
        have hb : workBackings (work.set i w') = workBackings work := map_set_of_eq hw hbacking
        have hr : workRecords (work.set i w') = workRecords work := by
          rw [workRecords_eq, workRecords_eq, map_set_of_eq hw hrecord]
        show Held t.pool (workBackings (work.set i w')) ∧
          Waiting t.pool (todo ++ workRecords (work.set i w')) (failed || failed')
        rw [hb, hr]
        exact ⟨hheld'.perm hbackings.symm, hwait'.perm hrecords.symm⟩

/-- The end of a sync, with a clean namespace. -/
theorem finish_ok (hclean : s.pool.namespaceDirty = false) :
    Invariant name identity (s.finish boundary).pool ∧ PhaseOk (s.finish boundary) := by
  have hreclaimed := h.publishReclaims hclean
  simp only [State.finish]
  split
  · exact ⟨hreclaimed, trivial⟩
  · exact ⟨hreclaimed, .nil _, nodup_nil, fun _ hr => absurd hr not_mem_nil,
      nofun⟩

end

/-- Taking a file from the flush queue flushes it, or ends the sync with its error. -/
theorem flushNext_pool (s : State) (r : Nat) (effect : Option Failure) (next : Phase) :
    s.flushNext r effect next = s.reject ∨
      (s.flushNext r effect next).pool = (s.pool.flushRecord r effect).1 ∧
        (s.flushNext r effect next).phase = next ∧ (s.pool.flushRecord r effect).2 = .ok () := by
  simp only [State.flushNext]
  split
  · rename_i pool heq
    right
    rw [heq]
    split <;> exact ⟨rfl, rfl, rfl⟩
  · exact .inl rfl

theorem flushRecord_frame (s : Pool) (r : Nat) (effect : Option Failure) :
    (s.flushRecord r effect).1.path = s.path ∧ (s.flushRecord r effect).1.staged = s.staged := by
  simp only [Pool.flushRecord, Pool.clearDirty]
  repeat' split
  all_goals exact ⟨rfl, rfl⟩

variable {s : Pool} {r : Nat}

/-- After a flush without an error, what is dirty was dirty before and is another record
or a staged one. -/
theorem mem_dirty_flushRecord (hok : (s.flushRecord r effect).2 = .ok ())
    (hr' : r' ∈ (s.flushRecord r effect).1.dirty) :
    r' ∈ s.dirty ∧ (r' = r → (s.staged r).isSome) := by
  simp only [Pool.flushRecord] at hok hr'
  split at hr' <;> rename_i hskip
  · refine ⟨hr', ?_⟩
    rintro rfl
    exact hskip.resolve_left fun hnot => hnot hr'
  · rw [if_neg hskip] at hok
    cases hb : s.backing r with
    | none => simp only [hb, reduceCtorEq] at hok
    | some b =>
      cases effect with
      | some e => simp only [hb, reduceCtorEq] at hok
      | none =>
        simp only [hb, Pool.clearDirty] at hr'
        obtain ⟨hmem, hne⟩ := mem_filter.mp hr'
        exact ⟨hmem, fun heq => absurd heq (of_decide_eq_true hne)⟩

theorem mem_stagedFiles (h : Backed s.backing s.staged s.disk s.nextRecord) :
    r ∈ s.stagedFiles ↔ (s.staged r).isSome ∧ (s.path r).isSome := by
  rw [Pool.stagedFiles, mem_filter, Bool.and_eq_true, mem_range]
  constructor
  · exact And.right
  · intro hr
    obtain ⟨bytes, hbytes⟩ := isSome_iff_exists.mp hr.1
    exact ⟨h.lt_of_staged hbytes, hr⟩

/-- A sync begins to materialise with exactly the staged files that have a path. -/
theorem Invariant.waiting_staged (h : Invariant name identity s)
    (horder : s.FlushOrder s.stagedFiles todo) : Waiting s (todo ++ workRecords []) false := by
  have hmem : ∀ {r}, r ∈ todo ++ workRecords [] ↔ (s.staged r).isSome ∧ (s.path r).isSome := by
    intro r
    rw [show todo ++ workRecords [] = todo from append_nil todo, horder.1.mem_iff,
      mem_stagedFiles h.backed]
  refine ⟨?_, fun r hr => (hmem.mp hr).1, ?_⟩
  · rw [show todo ++ workRecords [] = todo from append_nil todo, horder.1.nodup_iff]
    exact nodup_range.filter _
  · intro _ r p hp hr
    exact hmem.mpr ⟨hr, isSome_of_eq_some hp⟩

/-- A worker starts on a new backing, for a record that waits or for a spare. -/
theorem Invariant.createBacking (h : Invariant name identity s) (record : Option Nat)
    (hheld : Held s (workBackings work))
    (hwait : Waiting s (record.toList ++ todo ++ workRecords work) failed) :
    let created := { s with disk := s.disk.create }
    let work := work ++ [⟨record, s.disk.next, .opening⟩]
    Invariant name identity created ∧
      Held created (workBackings work) ∧ Waiting created (todo ++ workRecords work) failed := by
  intro created work'
  refine ⟨h.create, ?_, ?_⟩
  · have hcreated := hheld.create h.backed
    simpa [work', workBackings] using hcreated
  · have hperm : (todo ++ workRecords work').Perm (record.toList ++ todo ++ workRecords work) := by
      have hlast : workRecords work' = workRecords work ++ record.toList := by
        cases record <;> simp [work', workRecords]
      rw [hlast, ← append_assoc, append_assoc record.toList]
      exact perm_append_comm
    exact { hwait.perm hperm with }

/-- Once nothing waits, no file of the namespace is staged. -/
theorem Waiting.none_staged (h : Waiting s [] false) (hp : s.path r = some p) :
    s.staged r = none := by
  by_contra hstaged
  cases h.complete rfl r p hp (isSome_iff_ne_none.mpr hstaged)

variable {s : State}

/-- A flush on the way to the publication takes its record off the dirty ones. -/
theorem flushNext_publishing_ok (h : Invariant name identity s.pool)
    (hbacked : ∀ r p, s.pool.path r = some p → s.pool.staged r = none)
    (hdirty : ∀ r' p, s.pool.path r' = some p → r' ∈ s.pool.dirty → r' ∈ r :: queue) :
    let t := s.flushNext r effect (.publishing boundary queue)
    Invariant name identity t.pool ∧ PhaseOk t := by
  intro t
  rcases flushNext_pool s r effect (.publishing boundary queue) with hreject | ⟨hpool, hnext, hok⟩
  · rw [show t = s.reject from hreject]
    exact ⟨h, trivial⟩
  · obtain ⟨hpath, hstaged⟩ := flushRecord_frame s.pool r effect
    rw [show t.pool = _ from hpool, PhaseOk, show t.phase = _ from hnext]
    refine ⟨h.flushRecord r effect, ?_, ?_⟩
    · rw [hpool, hpath, hstaged]
      exact hbacked
    · rw [hpool, hpath]
      intro r' p hp hr'
      obtain ⟨hmem, hself⟩ := mem_dirty_flushRecord hok hr'
      refine mem_of_ne_of_mem ?_ (hdirty r' p hp hmem)
      intro heq
      have hsome := hself heq
      rw [← heq, hbacked r' p hp] at hsome
      cases hsome

/-- The publication itself: the namespace that is written is durable. -/
theorem publish_ok (h : Invariant name identity s.pool) (hdurable : Durable s.pool) :
    let t := s.publish name identity boundary
    Invariant name identity t.pool ∧ PhaseOk t := by
  intro t
  simp only [t, State.publish]
  split
  · exact ⟨h, trivial⟩
  · rename_i entries hentries
    exact finish_ok (h.publish hdurable hentries) rfl

/-- **Every step keeps the invariant of the pool** and what its phase needs. -/
theorem step_ok (s : State) (a : Action) (t : State)
    (h : Invariant name identity s.pool ∧ PhaseOk s)
    (hstep : step name identity s a = some t) :
    Invariant name identity t.pool ∧ PhaseOk t := by
  obtain ⟨hinv, hphase⟩ := h
  unfold step at hstep
  split at hstep
  case h_1 request effects heq =>
    -- a request
    cases hstep
    refine ⟨hinv.dispatch request effects, ?_⟩
    simp only [PhaseOk, heq]
  case h_2 boundary queue heq =>
    split at hstep <;> cases hstep
    exact ⟨hinv, trivial⟩
  case h_3 boundary r queue effect heq =>
    cases hstep
    rcases flushNext_pool s r effect (.flushing boundary queue) with hreject | ⟨hpool, hnext, -⟩
    · rw [hreject]
      exact ⟨hinv, trivial⟩
    · rw [hpool, PhaseOk, hnext]
      exact ⟨hinv.flushRecord r effect, trivial⟩
  case h_4 boundary todo heq =>
    split at hstep <;> cases hstep
    rename_i horder
    exact ⟨hinv, .nil _, hinv.waiting_staged horder⟩
  case h_5 boundary r todo work ok heq =>
    simp only [PhaseOk, heq] at hphase
    split at hstep <;> try cases hstep
    split at hstep <;> cases hstep
    · exact hinv.createBacking (some r) hphase.1 hphase.2
    · exact ⟨hinv, hphase.1, hphase.2.fail (sublist_cons_self _ _)⟩
  case h_6 boundary todo work failed i ok left heq =>
    simp only [PhaseOk, heq] at hphase
    obtain ⟨out, hadvance, rfl⟩ := map_eq_some_iff.mp hstep
    exact advanceAt_ok hinv hphase.1 hphase.2 hadvance
  case h_7 boundary todo failed queue heq =>
    simp only [PhaseOk, heq] at hphase
    split at hstep
    · cases hstep
      exact ⟨hinv, trivial⟩
    rename_i hfailed
    split at hstep <;> try cases hstep
    rename_i htodo
    split at hstep
    · split at hstep <;> cases hstep
      rename_i horder
      have hwait := hphase.2
      rw [not_not.mp htodo, Bool.eq_false_iff.mpr hfailed] at hwait
      exact ⟨hinv, fun r p => hwait.none_staged, fun r p _ hr => horder.1.mem_iff.mpr hr⟩
    · rename_i hclean
      cases hstep
      rw [Bool.or_eq_true, not_or] at hclean
      exact finish_ok hinv (Bool.eq_false_iff.mpr hclean.1)
  case h_8 boundary r queue effect heq =>
    simp only [PhaseOk, heq] at hphase
    cases hstep
    exact flushNext_publishing_ok hinv hphase.1 hphase.2
  case h_9 boundary ok heq =>
    simp only [PhaseOk, heq] at hphase
    split at hstep <;> cases hstep
    · exact publish_ok hinv ⟨hphase.1, fun r p hp hmem => absurd (hphase.2 r p hp hmem) not_mem_nil⟩
    · exact ⟨hinv, trivial⟩
  case h_10 missing work ok heq =>
    simp only [PhaseOk, heq] at hphase
    split at hstep <;> try cases hstep
    split at hstep <;> cases hstep
    · have hwait : Waiting s.pool (none.toList ++ [] ++ workRecords work) true := hphase.2
      exact hinv.createBacking none hphase.1 hwait
    · exact ⟨hinv, hphase⟩
  case h_11 missing work failed i ok left heq =>
    simp only [PhaseOk, heq] at hphase
    obtain ⟨out, hadvance, rfl⟩ := map_eq_some_iff.mp hstep
    have hwait : Waiting s.pool ([] ++ workRecords work) true := hphase.2
    exact advanceAt_ok hinv hphase.1 hwait hadvance
  case h_12 missing failed heq =>
    split at hstep <;> cases hstep
    exact ⟨hinv, trivial⟩
  case h_13 => cases hstep

end Steps

/-- What an open finds: a readable state under the pool's name and identity, whose
backings and spares are there, each with the one content that the last crash left. -/
structure Openable (name : String) (physicalIdentity : PhysicalIdentity) (disk : Disk)
    (state : PoolState) (spares : List Nat) : Prop where
  content : disk.state = .content state
  name : state.name = name
  identity : state.physicalIdentity = physicalIdentity
  readable : Readable state.entries
  distinct : (backings state.entries ++ spares).Nodup
  onDisk : ∀ b ∈ backings state.entries ++ spares, b < disk.next ∧ ∃ v, disk.files b = some [v]

/-- What a crash leaves: `state.json` reads back, its entries are the namespace of the
last publication, and each backing it names exists, still belongs to the file it was
published for, and holds a content of that file at or after the publication. -/
structure CrashConsistent (name : String) (physicalIdentity : PhysicalIdentity) (s : Pool)
    (stored : PoolState) : Prop where
  reads : readPoolState s.disk name physicalIdentity = .ok (some stored)
  directories : ∀ p, (p, Node.directory) ∈ stored.entries ↔
    (p, Node.directory) ∈ s.published ∧ p ≠ []
  files : ∀ p, (∃ b, (p, Node.file b) ∈ stored.entries) ↔ ∃ r, (p, Node.file r) ∈ s.published
  contents : ∀ p b, (p, Node.file b) ∈ stored.entries → ∃ r, (p, Node.file r) ∈ s.published ∧
    s.backing r = some b ∧ s.generation r = s.publishedGeneration r ∧
    ∃ versions, s.disk.files b = some versions ∧ versions ≠ [] ∧ ∀ v ∈ versions, v ∈ s.history r

section Hydrated

variable {name : String} {identity : PhysicalIdentity} {disk : Disk} {state : PoolState}
  {spares : List Nat} {entries : PathTree Nat} {p : Path} {b r : Nat}

theorem mem_backings_of_file (h : (p, Node.file b) ∈ entries) : b ∈ backings entries :=
  mem_backings.mpr ⟨p, h⟩

/-- Two files of a readable state have different backings. -/
theorem Readable.own (h : Readable entries) (hp : (p, Node.file b) ∈ entries)
    (hq : (q, Node.file b) ∈ entries) : p = q := by
  have hdistinct := h.distinct
  clear h
  induction entries with
  | nil => cases hp
  | cons e entries ih =>
    obtain ⟨path, node⟩ := e
    cases node with
    | directory =>
      refine ih ?_ ?_ hdistinct
      · exact (mem_cons.mp hp).resolve_left fun heq => by cases (Prod.mk.inj heq).2
      · exact (mem_cons.mp hq).resolve_left fun heq => by cases (Prod.mk.inj heq).2
    | file c =>
      obtain ⟨hnot, hrest⟩ := nodup_cons.mp hdistinct
      rcases mem_cons.mp hp with hpHead | hpTail <;>
        rcases mem_cons.mp hq with hqHead | hqTail
      · exact (Prod.mk.inj hpHead).1.trans (Prod.mk.inj hqHead).1.symm
      · obtain rfl := Node.file.inj (Prod.mk.inj hpHead).2
        exact absurd (mem_backings_of_file hqTail) hnot
      · obtain rfl := Node.file.inj (Prod.mk.inj hqHead).2
        exact absurd (mem_backings_of_file hpTail) hnot
      · exact ih hpTail hqTail hrest

/-- A hydrated pool has the paths of the state that it was made from. -/
theorem hydrated_path (h : Readable state.entries) :
    (hydrated disk state spares).pool.path r = some p ↔ (p, Node.file r) ∈ state.entries := by
  show (state.entries.find? fun e => decide (e.2 = .file r)).map Prod.fst = some p ↔ _
  rw [map_eq_some_iff]
  constructor
  · rintro ⟨⟨q, n⟩, hfind, rfl⟩
    have hn := List.find?_some hfind
    obtain rfl : n = .file r := of_decide_eq_true hn
    exact mem_of_find?_eq_some hfind
  · intro hp
    cases hfind : state.entries.find? fun e => decide (e.2 = .file r) with
    | none => exact absurd (decide_eq_true rfl) (List.find?_eq_none.mp hfind _ hp)
    | some e =>
      obtain ⟨q, n⟩ := e
      have hn := List.find?_some hfind
      obtain rfl : n = .file r := of_decide_eq_true hn
      exact ⟨_, rfl, h.own (mem_of_find?_eq_some hfind) hp⟩

/-- The stored entries under the root are a directory tree. -/
theorem Readable.formed (h : Readable entries) :
    PathTree.WellFormed (([], Node.directory) :: entries : PathTree Nat) where
  nodup := by
    refine nodup_cons.mpr ⟨fun hroot => ?_, h.nodup⟩
    have hstored := h.valid [] hroot
    cases hstored
  root := (.head _)
  parent := by
    intro p n hp hne
    rcases mem_cons.mp hp with heq | hp
    · exact absurd (Prod.mk.inj heq).1 hne
    · by_cases hup : p.dropLast = []
      · rw [hup]
        exact .head _
      · exact .tail _ (h.parent p (PathTree.mem_paths.mpr ⟨n, hp⟩) hup)

theorem Readable.names (h : Readable entries) :
    ∀ p ∈ PathTree.paths (([], Node.directory) :: entries : PathTree Nat),
      p.all isEntryName = true := by
  intro p hp
  rcases mem_cons.mp hp with rfl | hp
  · rfl
  · exact (Bool.and_eq_true_iff.mp (h.valid p hp)).2

theorem mem_hydrated_entries :
    (p, Node.file r) ∈ (([], Node.directory) :: state.entries : PathTree Nat) ↔
      (p, Node.file r) ∈ state.entries := by
  rw [mem_cons]
  refine ⟨fun h => h.resolve_left fun heq => ?_, Or.inr⟩
  cases (Prod.mk.inj heq).2

theorem hydrated_backing (h : (hydrated disk state spares).pool.backing r = some b) :
    r = b ∧ b ∈ backings state.entries ++ spares := by
  have hif : (if r ∈ backings state.entries ++ spares then some r else none) = some b := h
  split at hif <;> cases hif
  rename_i hmem
  exact ⟨rfl, hmem⟩

/-- Records that are numbered like their backings are stored as they are. -/
theorem serializeEntries_hydrated (h : Readable state.entries)
    (hbacking : ∀ p r, (p, Node.file r) ∈ state.entries → backing r = some r) :
    serializeEntries backing (([], Node.directory) :: state.entries) = some state.entries := by
  have hkeep : (([], Node.directory) :: state.entries : PathTree Nat).filter (fun e => e.1 ≠ []) =
      state.entries := by
    rw [filter_cons_of_neg (by simp), filter_eq_self]
    intro e he
    have hstored := h.valid e.1 (mem_map.mpr ⟨e, he, rfl⟩)
    exact (Bool.and_eq_true_iff.mp hstored).1
  have hentry : ∀ e ∈ state.entries, storedEntry backing e = some e := by
    rintro ⟨p, n⟩ he
    cases n with
    | directory => rfl
    | file r => simp only [storedEntry, hbacking p r he, map_some]
  rw [serializeEntries, hkeep, mapM_congr hentry]
  exact (mapM_pure (m := Option) (l := state.entries) (f := id)).trans
    (congrArg some (map_id _))

/-- A pool that is opened from a published state starts in the invariant. -/
theorem Openable.invariant (h : Openable name identity disk state spares) :
    Invariant name identity (hydrated disk state spares).pool := by
  have hnodup := nodup_append.mp h.distinct
  have hfile : ∀ p r, (p, Node.file r) ∈ state.entries →
      (hydrated disk state spares).pool.backing r = some r ∧ r < disk.next ∧
        ∃ v, disk.files r = some [v] := by
    intro p r hr
    have hmem : r ∈ backings state.entries ++ spares :=
      mem_append_left _ (mem_backings_of_file hr)
    exact ⟨if_pos hmem, h.onDisk r hmem⟩
  refine ⟨⟨h.readable.formed, h.readable.names, ?_, ?_⟩, ⟨?_, ?_, ?_, ?_⟩, ⟨?_, ?_, ?_⟩, ⟨?_, ?_⟩,
    ?_, ⟨h.readable.formed, h.readable.names, ?_, ?_, ?_⟩, fun _ _ _ hr => hr⟩
  · intro p r
    rw [hydrated_path h.readable]
    exact mem_hydrated_entries
  · intro r hr
    by_contra hsome
    obtain ⟨p, hp⟩ := ne_none_iff_exists'.mp hsome
    have hlt := (hfile p r ((hydrated_path h.readable).mp hp)).2.1
    exact Nat.lt_irrefl _ (Nat.lt_of_lt_of_le hlt hr)
  · intro r r' b hb hb'
    exact (hydrated_backing hb).1.trans (hydrated_backing hb').1.symm
  · intro r b hb
    obtain ⟨hlt, v, hv⟩ := h.onDisk b (hydrated_backing hb).2
    exact ⟨hlt, v, [], hv⟩
  · intro r bytes hr
    cases hr
  · intro r hr
    refine ⟨if_neg fun hmem => ?_, rfl⟩
    exact Nat.lt_irrefl _ (Nat.lt_of_lt_of_le (h.onDisk r hmem).1 hr)
  · exact nodup_nil
  · intro d hd
    cases hd
  · intro r
    rfl
  · exact hnodup.2.1
  · intro r hr
    have hmem : r ∈ backings state.entries ++ spares := mem_append_right _ hr
    refine ⟨?_, rfl, (h.onDisk r hmem).1⟩
    by_contra hsome
    obtain ⟨p, hp⟩ := ne_none_iff_exists'.mp hsome
    exact hnodup.2.2 r (mem_backings_of_file ((hydrated_path h.readable).mp hp)) r hr rfl
  · intro r p b hp hb _
    obtain ⟨rfl, hmem⟩ := hydrated_backing hb
    exact (h.onDisk r hmem).2
  · intro p q r hp hq
    exact h.readable.own (mem_hydrated_entries.mp hp) (mem_hydrated_entries.mp hq)
  · refine ⟨state.phase, state.entries, ?_, ?_⟩
    · rw [← h.name, ← h.identity]
      exact h.content
    · exact serializeEntries_hydrated h.readable fun p r hr => (hfile p r hr).1
  · intro p r hr
    obtain ⟨hb, -, v, hv⟩ := hfile p r (mem_hydrated_entries.mp hr)
    refine ⟨⟨rfl, r, [v], hb, hv, ?_⟩, ?_⟩
    · intro u hu
      show u ∈ (disk.read r).toList
      rw [Disk.read, hv]
      exact hu
    · intro hspare
      exact hnodup.2.2 r (mem_backings_of_file (mem_hydrated_entries.mp hr)) r hspare rfl

end Hydrated

variable {name : String} {identity : PhysicalIdentity}

/-- In the invariant a crash leaves a state that the next open accepts, with durable files. -/
theorem Invariant.crashConsistent (hasserted : assertWasixPhysicalIdentity identity = .ok identity)
    (h : Invariant name identity s) : ∃ stored, CrashConsistent name identity s stored := by
  obtain ⟨phase, entries, hcontent, hentries⟩ := h.published.stored
  have hreadable : Readable entries := by
    refine readable_serialized h.published.formed ?_ ?_ hentries
    · intro p hp hne
      have hall : p.all isEntryName = true := h.published.valid p hp
      simp only [isStoredPath, hall, Bool.and_true, decide_eq_true_eq]
      exact hne
    · intro p q r r' b hp hq hb hb'
      obtain rfl := h.backed.distinct r r' b hb hb'
      exact h.published.own p q r hp hq
  have hread := readPoolState_content hcontent rfl hasserted hreadable
  refine ⟨⟨name, phase, identity, entries⟩, hread, ?_, ?_, ?_⟩
  · intro p
    exact directory_mem_serializeEntries hentries
  · intro p
    constructor
    · rintro ⟨b, hb⟩
      obtain ⟨r, hr, -⟩ := (file_mem_serializeEntries hentries).mp hb
      exact ⟨r, hr⟩
    · rintro ⟨r, hr⟩
      obtain ⟨⟨-, b, -, hb, -⟩, -⟩ := h.published.kept p r hr
      have hne : p ≠ [] := by
        rintro rfl
        cases PathTree.node_unique h.published.formed.nodup hr h.published.formed.root
      exact ⟨b, (file_mem_serializeEntries hentries).mpr ⟨r, hr, hne, hb⟩⟩
  · intro p b hb
    obtain ⟨r, hr, -, hbacking⟩ := (file_mem_serializeEntries hentries).mp hb
    obtain ⟨⟨hgeneration, c, versions, hc, hversions, hmem⟩, -⟩ := h.published.kept p r hr
    obtain rfl : b = c := Option.some.inj (hbacking.symm.trans hc)
    obtain ⟨-, v, vs, hvs⟩ := h.backed.onDisk r b hbacking
    refine ⟨r, hr, hbacking, hgeneration, versions, hversions, ?_, hmem⟩
    rintro rfl
    cases hversions.symm.trans hvs

/-- The invariants of the pool and of the sync phases hold in every run of an opened pool. -/
theorem Openable.run_ok (h : Openable name identity disk state spares)
    (hrun : run (step name identity) (hydrated disk state spares) as = some s) :
    Invariant name identity s.pool ∧ PhaseOk s := by
  have hstart : Invariant name identity (hydrated disk state spares).pool ∧
      PhaseOk (hydrated disk state spares) := ⟨h.invariant, trivial⟩
  exact run_invariant (P := fun s => Invariant name identity s.pool ∧ PhaseOk s) step_ok hstart hrun

/-- In every state that requests and syncs reach, whichever of their storage effects fail,
a crash leaves the last publication. -/
theorem crash_consistent {name : String} {physicalIdentity : PhysicalIdentity} {disk : Disk}
    {state : PoolState} {spares : List Nat}
    (hasserted : assertWasixPhysicalIdentity physicalIdentity = .ok physicalIdentity)
    (hopen : Openable name physicalIdentity disk state spares) {as : List Action} {s : State}
    (hrun : run (step name physicalIdentity) (hydrated disk state spares) as = some s) :
    ∃ stored, CrashConsistent name physicalIdentity s.pool stored :=
  (hopen.run_ok hrun).1.crashConsistent hasserted

/-- A sync that writes `state.json` has the live tree on the disk at that moment, whatever
its boundary: a crash right after it leaves every live file with the content it has. -/
theorem publication_exact {name : String} {physicalIdentity : PhysicalIdentity} {disk : Disk}
    {state : PoolState} {spares : List Nat}
    (hasserted : assertWasixPhysicalIdentity physicalIdentity = .ok physicalIdentity)
    (hopen : Openable name physicalIdentity disk state spares) {as : List Action} {s t : State}
    (hrun : run (step name physicalIdentity) (hydrated disk state spares) as = some s)
    (hstep : step name physicalIdentity s (.publish true) = some t)
    (hgoes : t.outcome ≠ some false) :
    ∃ stored, CrashConsistent name physicalIdentity t.pool stored ∧
      t.pool.published = t.pool.entries ∧ ∀ p r, (p, Node.file r) ∈ t.pool.entries →
        ∃ b v, (p, Node.file b) ∈ stored.entries ∧ t.pool.disk.files b = some [v] ∧
          t.pool.contents r = some v := by
  have hok := hopen.run_ok hrun
  have hinv := (step_ok s _ t hok hstep).1
  obtain ⟨stored, hstored⟩ := hinv.crashConsistent hasserted
  refine ⟨stored, hstored, ?_⟩
  cases hphase : s.phase with
  | publishing boundary queue =>
    cases queue with
    | cons => simp [step, hphase] at hstep
    | nil =>
      simp only [step, hphase, if_true, State.publish] at hstep
      split at hstep
      · cases hstep
        exact absurd rfl hgoes
      rename_i entries hentries
      have hpool : t.pool = (s.pool.publish ⟨name, s.nextPhase boundary, physicalIdentity,
          entries⟩).publishReclaims := by
        rw [← Option.some.inj hstep, State.finish]
        split <;> rfl
      have hpublished : t.pool.published = t.pool.entries := by rw [hpool]; rfl
      refine ⟨hpublished, fun p r hr => ?_⟩
      obtain ⟨b, hb⟩ := (hstored.files p).mpr ⟨r, hpublished ▸ hr⟩
      obtain ⟨r', hr', hbacking, -⟩ := hstored.contents p b hb
      cases PathTree.node_unique hinv.published.formed.nodup hr' (hpublished ▸ hr)
      -- no live file is staged or dirty when the state is written
      have hlive := hok.2
      simp only [PhaseOk, hphase] at hlive
      rw [hpool] at hr hbacking ⊢
      have hpath := (hok.1.names.owner p r).mp hr
      obtain ⟨v, hv⟩ := hok.1.flushed r p b hpath hbacking fun hd => by cases hlive.2 r p hpath hd
      refine ⟨b, v, hb, hv, ?_⟩
      have hstaged : s.pool.staged r = none := hlive.1 r p hpath
      have hbacked : s.pool.backing r = some b := hbacking
      simp [Pool.contents, Pool.publish, Pool.publishReclaims, hstaged, hbacked, Disk.read, hv]
  | _ => simp [step, hphase] at hstep

/-- One file and one spare. -/
def smallState : PoolState where
  name := "db"
  phase := .ready
  physicalIdentity := wasixPhysicalIdentity
  entries := [(["PG_VERSION"], .file 0)]

def smallDisk : Disk where
  state := .content smallState
  foreign := false
  files := fun b => if b = 0 then some [[0x31, 0x38]] else if b = 1 then some [[]] else none
  next := 2

theorem smallDisk_openable : Openable "db" wasixPhysicalIdentity smallDisk smallState [1] where
  content := rfl
  name := rfl
  identity := rfl
  readable := ⟨by decide +kernel, by decide +kernel, by decide +kernel, by decide +kernel⟩
  distinct := by decide +kernel
  onDisk := by
    intro b hb
    have hcases : b = 0 ∨ b = 1 := by simpa [backings, smallState] using hb
    rcases hcases with rfl | rfl
    · exact ⟨by decide, [0x31, 0x38], rfl⟩
    · exact ⟨by decide, [], rfl⟩

def noFailure : Effects := ⟨none, none, 4096⟩

/-- The spare becomes a file, is published, unlinked and closed, and the next sync is cut
off before its publication. -/
def reuseRun : List Action :=
  [.request (.open ["a"] ⟨true, false, true, false, false⟩) noFailure,
    .request (.write 1 0 [7]) noFailure,
    .sync .full [1], .flushNext none, .materialize [], .materialized [], .publish true,
    .start false, .settle,
    .request (.removeFile ["a"]) noFailure, .request (.close 1) noFailure,
    .sync .full [], .materialize [], .materialized []]

/-- A crash with a reclaimed backing still named by the published state. -/
theorem crash_consistent_before_publication :
    ∃ s, run (step "db" wasixPhysicalIdentity) (hydrated smallDisk smallState [1]) reuseRun =
      some s ∧
      s.pool.pendingReclaims = [1] ∧
      ∃ stored, CrashConsistent "db" wasixPhysicalIdentity s.pool stored := by
  refine exists_run (f := fun s => s.pool.pendingReclaims) (v := [1]) (by decide +kernel)
    fun s hrun hpending => ?_
  exact ⟨hpending, crash_consistent (by decide +kernel) smallDisk_openable hrun⟩

/-- A new file with a byte in it. -/
theorem publication_exact_created :
    ∃ s, run (step "db" wasixPhysicalIdentity) (hydrated smallDisk smallState [1])
        (reuseRun.take 6) = some s ∧
      ∃ t, step "db" wasixPhysicalIdentity s (.publish true) = some t ∧
        ∃ stored, CrashConsistent "db" wasixPhysicalIdentity t.pool stored ∧
          t.pool.published = t.pool.entries := by
  refine exists_run
    (f := fun s => (step "db" wasixPhysicalIdentity s (.publish true)).map State.outcome)
    (v := some none) (by decide +kernel) fun s hrun hs => ?_
  obtain ⟨t, ht, hnone⟩ := map_eq_some_iff.mp hs
  obtain ⟨stored, hstored, hsame, -⟩ :=
    publication_exact (by decide +kernel) smallDisk_openable hrun ht (by simp [hnone])
  exact ⟨t, ht, stored, hstored, hsame⟩

end Oliphaunt.OpfsPool
