import Oliphaunt.TS.OpfsRequests

/-!
# What holds of the pool between two requests

The invariant of `Pool` in parts, each over the fields it is about:

* `Names` — the live entries are a directory tree, and a record has a path exactly
  while the entry of that path is its own.
* `Backed` — records do not share backings, and their backings exist.
* `Counted` — `references` counts the descriptors of a record.
* `Reclaims` — pending and spare records have no path and no descriptor.
* `Flushed` — a file that is not dirty has one content that a crash can leave.
* `Published` — `state.json` is the last publication, and the backings it names still
  belong to the files it was made of.
* `current` — while the namespace is not dirty, every published file is a live one.

`Invariant.dispatch` says that every request keeps them, however its storage effects
end.
-/

namespace Oliphaunt.OpfsPool

open FileTree PathTree Function

namespace Disk

variable (disk : Disk) (b c : Nat) (bytes : Contents)

@[simp] theorem write_files_self :
    (disk.write b bytes).files b = (disk.files b).map (bytes :: ·) := by
  simp [write]

variable {b c : Nat}

theorem write_files_ne (h : c ≠ b) : (disk.write b bytes).files c = disk.files c := by
  simp [write, h]

@[simp] theorem flush_files_self : (disk.flush b).files b = (disk.files b).map (·.take 1) := by
  simp [flush]

theorem flush_files_ne (h : c ≠ b) : (disk.flush b).files c = disk.files c := by
  simp [flush, h]

variable {disk} in
theorem write_files_some {v : Contents} {vs : List Contents} (h : disk.files c = some (v :: vs)) :
    ∃ u us, (disk.write b bytes).files c = some (u :: us) := by
  by_cases hcb : c = b
  · subst hcb
    exact ⟨bytes, v :: vs, by rw [write_files_self, h]; rfl⟩
  · exact ⟨v, vs, (write_files_ne _ _ hcb).trans h⟩

variable {disk} in
theorem flush_files_some {v : Contents} {vs : List Contents} (h : disk.files c = some (v :: vs)) :
    ∃ us, (disk.flush b).files c = some (v :: us) := by
  by_cases hcb : c = b
  · subst hcb
    exact ⟨[], by rw [flush_files_self, h]; rfl⟩
  · exact ⟨vs, (flush_files_ne _ hcb).trans h⟩

theorem create_files_ne (h : c ≠ disk.next) : disk.create.files c = disk.files c := by
  simp [create, h]

theorem remove_files_ne (h : c ≠ b) : (disk.remove b).files c = disk.files c := by
  simp [remove, h]

end Disk

structure Names (entries : PathTree Nat) (path : Nat → Option Path) (nextRecord : Nat) : Prop where
  formed : entries.WellFormed
  valid : ∀ p ∈ entries.paths, p.all isEntryName = true
  owner : ∀ p r, (p, Node.file r) ∈ entries ↔ path r = some p
  fresh : ∀ r, nextRecord ≤ r → path r = none

structure Backed (backing : Nat → Option Nat) (staged : Nat → Option Contents) (disk : Disk)
    (nextRecord : Nat) : Prop where
  distinct : ∀ r r' b, backing r = some b → backing r' = some b → r = r'
  onDisk : ∀ r b, backing r = some b → b < disk.next ∧ ∃ v vs, disk.files b = some (v :: vs)
  memory : ∀ r bytes, staged r = some bytes → backing r = none
  fresh : ∀ r, nextRecord ≤ r → backing r = none ∧ staged r = none

structure Counted (descriptors : List (Nat × Descriptor)) (nextDescriptor : Nat)
    (references : Nat → Nat) (nextRecord : Nat) : Prop where
  nodup : (descriptors.map Prod.fst).Nodup
  below : ∀ d ∈ descriptors, d.1 < nextDescriptor ∧ d.2.record < nextRecord
  count : ∀ r, references r = descriptors.countP fun d => d.2.record = r

structure Reclaims (path : Nat → Option Path) (references : Nat → Nat)
    (pendingReclaims spares : List Nat) (nextRecord : Nat) : Prop where
  nodup : (pendingReclaims ++ spares).Nodup
  free : ∀ r ∈ pendingReclaims ++ spares, path r = none ∧ references r = 0 ∧ r < nextRecord

def Flushed (path : Nat → Option Path) (backing : Nat → Option Nat) (dirty : List Nat)
    (disk : Disk) : Prop :=
  ∀ r p b, path r = some p → backing r = some b → r ∉ dirty → ∃ v, disk.files b = some [v]

/-- The backing of a published file: in the hands of that file, and with a content that
the file has had since. -/
def Kept (s : Pool) (r : Nat) : Prop :=
  s.generation r = s.publishedGeneration r ∧
    ∃ b versions, s.backing r = some b ∧ s.disk.files b = some versions ∧
      ∀ v ∈ versions, v ∈ s.history r

/-- `state.json` holds the last published namespace under the pool's name and identity. -/
def Stored (name : String) (physicalIdentity : PhysicalIdentity) (s : Pool) : Prop :=
  ∃ phase entries, s.disk.state = .content ⟨name, phase, physicalIdentity, entries⟩ ∧
    serializeEntries s.backing s.published = some entries

structure Published (name : String) (physicalIdentity : PhysicalIdentity) (s : Pool) : Prop where
  formed : s.published.WellFormed
  valid : ∀ p ∈ s.published.paths, p.all isEntryName = true
  own : ∀ p q r, (p, Node.file r) ∈ s.published → (q, Node.file r) ∈ s.published → p = q
  stored : Stored name physicalIdentity s
  kept : ∀ p r, (p, Node.file r) ∈ s.published → Kept s r ∧ r ∉ s.spares

structure Invariant (name : String) (physicalIdentity : PhysicalIdentity) (s : Pool) : Prop where
  names : Names s.entries s.path s.nextRecord
  backed : Backed s.backing s.staged s.disk s.nextRecord
  counted : Counted s.descriptors s.nextDescriptor s.references s.nextRecord
  reclaims : Reclaims s.path s.references s.pendingReclaims s.spares s.nextRecord
  flushed : Flushed s.path s.backing s.dirty s.disk
  published : Published name physicalIdentity s
  current : s.namespaceDirty = false →
    ∀ p r, (p, Node.file r) ∈ s.published → (p, Node.file r) ∈ s.entries

theorem serializeEntries_congr (h : ∀ p r, (p, Node.file r) ∈ live → f r = g r) :
    serializeEntries f live = serializeEntries g live := by
  have hentry : ∀ e ∈ live, storedEntry f e = storedEntry g e := by
    rintro ⟨p, n⟩ he
    cases n with
    | directory => rfl
    | file r => simp only [storedEntry, h p r he]
  refine mapM_congr ?_
  intro e he
  exact hentry e (List.mem_filter.mp he).1

section Transport

variable {name : String} {identity : PhysicalIdentity} {s t : Pool}

/-- A step that does not publish keeps the publication if it keeps every published file. -/
theorem Published.transport (h : Published name identity s)
    (hpublished : t.published = s.published) (hstate : t.disk.state = s.disk.state)
    (hkept : ∀ p r, (p, Node.file r) ∈ s.published → Kept s r → r ∉ s.spares →
      t.backing r = s.backing r ∧ Kept t r ∧ r ∉ t.spares) :
    Published name identity t := by
  have hnew : ∀ p r, (p, Node.file r) ∈ s.published →
      t.backing r = s.backing r ∧ Kept t r ∧ r ∉ t.spares := by
    intro p r hr
    exact hkept p r hr (h.kept p r hr).1 (h.kept p r hr).2
  obtain ⟨phase, entries, hcontent, hentries⟩ := h.stored
  refine ⟨hpublished ▸ h.formed, hpublished ▸ h.valid, hpublished ▸ h.own,
    ⟨phase, entries, hstate.trans hcontent, ?_⟩, ?_⟩
  · rw [hpublished, serializeEntries_congr fun p r hr => (hnew p r hr).1]
    exact hentries
  · intro p r hr
    rw [hpublished] at hr
    exact (hnew p r hr).2

/-- A file that loses nothing of its history keeps its publication. -/
theorem Kept.of_history (h : Kept s r) (hgeneration : t.generation r = s.generation r)
    (hold : t.publishedGeneration = s.publishedGeneration) (hbacking : t.backing r = s.backing r)
    (hfiles : ∀ b vs, s.backing r = some b → s.disk.files b = some vs →
      (∀ v ∈ vs, v ∈ s.history r) → ∃ vs', t.disk.files b = some vs' ∧ ∀ v ∈ vs', v ∈ t.history r) :
    Kept t r := by
  obtain ⟨hgen, b, vs, hb, hvs, hmem⟩ := h
  obtain ⟨vs', hvs', hmem'⟩ := hfiles b vs hb hvs hmem
  refine ⟨?_, b, vs', hbacking.trans hb, hvs', hmem'⟩
  rw [hgeneration, hold]
  exact hgen

/-- The files change, and each of them into something it has had. -/
theorem Published.ofFiles (h : Published name identity s) (hstate : disk.state = s.disk.state)
    (hfiles : ∀ r b vs, s.backing r = some b → s.disk.files b = some vs →
      (∀ v ∈ vs, v ∈ s.history r) → ∃ vs', disk.files b = some vs' ∧ ∀ v ∈ vs', v ∈ history r) :
    Published name identity { s with disk := disk, history := history } :=
  h.transport rfl hstate fun _ r _ hkept hspare =>
    ⟨rfl, hkept.of_history rfl rfl rfl (hfiles r), hspare⟩

end Transport

section Steps

variable {name : String} {identity : PhysicalIdentity} {s : Pool}

variable {path : Nat → Option Path} {backing : Nat → Option Nat} {dirty : List Nat} {disk : Disk}

/-- Fewer paths and more dirty files ask for less. -/
theorem Flushed.mono (h : Flushed path backing dirty disk)
    (hpath : ∀ r p, path' r = some p → ∃ q, path r = some q)
    (hdirty : ∀ r p, path' r = some p → r ∈ dirty → r ∈ dirty') :
    Flushed path' backing dirty' disk := by
  intro r p b hr hb hclean
  obtain ⟨q, hq⟩ := hpath r p hr
  exact h r q b hq hb fun hmem => hclean (hdirty r p hr hmem)

theorem mem_markDirty (s : Pool) (r : Nat) : r ∈ (s.markDirty r).dirty := by
  rw [Pool.markDirty]
  by_cases hr : r ∈ s.dirty <;> simp [hr]

/-- Marking a record dirty is always safe. -/
theorem Invariant.markDirty (h : Invariant name identity s) (r : Nat) :
    Invariant name identity (s.markDirty r) :=
  { h with
    flushed := by
      refine h.flushed.mono (fun r' p hr' => ⟨p, hr'⟩) ?_
      intro r' p _ hmem
      rw [Pool.markDirty]
      split
      · exact hmem
      · exact List.mem_append_left _ hmem
    published := { h.published with } }

section Backed

variable {backing : Nat → Option Nat} {staged : Nat → Option Contents} {disk : Disk}
  {nextRecord : Nat}

section

variable (h : Backed backing staged disk nextRecord)

include h

theorem Backed.write (b : Nat) (bytes : Contents) :
    Backed backing staged (disk.write b bytes) nextRecord :=
  { h with
    onDisk := fun r c hc => (h.onDisk r c hc).imp_right fun ⟨_, _, hvs⟩ =>
      Disk.write_files_some bytes hvs }

theorem Backed.restage (hold : staged r = some old) (bytes : Contents) :
    Backed backing (update staged r (some bytes)) disk nextRecord where
  distinct := h.distinct
  onDisk := h.onDisk
  memory := by
    intro r' bytes' hr'
    by_cases hr : r' = r
    · rw [hr]
      exact h.memory r old hold
    · rw [update_of_ne hr] at hr'
      exact h.memory r' bytes' hr'
  fresh := by
    intro r' hr'
    obtain ⟨hb, hs⟩ := h.fresh r' hr'
    have hr : r' ≠ r := by
      rintro rfl
      cases hold.symm.trans hs
    rw [update_of_ne hr]
    exact ⟨hb, hs⟩

theorem Backed.flush (b : Nat) : Backed backing staged (disk.flush b) nextRecord :=
  { h with
    onDisk := fun r c hc => (h.onDisk r c hc).imp_right fun ⟨v, _, hvs⟩ =>
      ⟨v, Disk.flush_files_some hvs⟩ }

/-- Two records have two backings. -/
theorem Backed.ne (hb : backing r = some b) (hc : backing r' = some c) (hne : r' ≠ r) : c ≠ b := by
  rintro rfl
  exact hne (h.distinct r' r c hc hb)

end

end Backed

theorem Backed.mono (h : Backed backing staged disk nextRecord) (hnext : nextRecord ≤ next) :
    Backed backing staged disk next :=
  ⟨h.distinct, h.onDisk, h.memory, fun r hr => h.fresh r (Nat.le_trans hnext hr)⟩

/-- A new record starts staged and without a backing. -/
theorem Backed.stageNew (h : Backed backing staged disk nextRecord) :
    Backed backing (update staged nextRecord (some [])) disk (nextRecord + 1) where
  distinct := h.distinct
  onDisk := h.onDisk
  memory := by
    intro r bytes hr
    by_cases hnew : r = nextRecord
    · rw [hnew]
      exact (h.fresh nextRecord (Nat.le_refl _)).1
    · rw [update_of_ne hnew] at hr
      exact h.memory r bytes hr
  fresh := by
    intro r hr
    rw [update_of_ne (by omega)]
    exact h.fresh r (by omega)

/-- A write to the backing of a dirty file adds a content that a crash may leave. -/
theorem Flushed.write (h : Flushed path backing dirty disk) (bytes : Contents)
    (hdirty : ∀ r p, path r = some p → backing r = some b → r ∈ dirty) :
    Flushed path backing dirty (disk.write b bytes) := by
  intro r p c hpath hc hclean
  obtain ⟨v, hv⟩ := h r p c hpath hc hclean
  refine ⟨v, (Disk.write_files_ne _ _ ?_).trans hv⟩
  rintro rfl
  exact hclean (hdirty r p hpath hc)

section

variable (h : Invariant name identity s)

include h

/-- New contents of a dirty record, staged or on disk. -/
theorem Invariant.setContents (hdirty : r ∈ s.dirty) (bytes : Contents) :
    Invariant name identity (s.setContents r bytes) := by
  have hhistory : ∀ r' v, v ∈ s.history r' →
      v ∈ update s.history r (bytes :: s.history r) r' := by
    intro r' v hv
    by_cases hr : r' = r
    · subst hr
      rw [update_self]
      exact .tail _ hv
    · rw [update_of_ne hr]
      exact hv
  cases hstaged : s.staged r with
  | some old =>
    simp only [Pool.setContents, hstaged]
    exact ⟨h.names, h.backed.restage hstaged bytes, h.counted, h.reclaims, h.flushed,
      { h.published.ofFiles rfl fun r' _ vs _ hvs hmem =>
        ⟨vs, hvs, fun v hv => hhistory r' v (hmem v hv)⟩ with }, h.current⟩
  | none =>
    cases hbacking : s.backing r with
    | none =>
      simp only [Pool.setContents, hstaged, hbacking]
      exact { h with
        published := h.published.ofFiles rfl fun r' _ vs _ hvs hmem =>
          ⟨vs, hvs, fun v hv => hhistory r' v (hmem v hv)⟩ }
    | some b =>
      simp only [Pool.setContents, hstaged, hbacking]
      refine ⟨h.names, h.backed.write b bytes, h.counted, h.reclaims,
        h.flushed.write bytes ?_, h.published.ofFiles rfl ?_, h.current⟩
      · intro r' p _ hr'
        rw [h.backed.distinct r' r b hr' hbacking]
        exact hdirty
      · intro r' c vs hc hvs hmem
        by_cases hr : r' = r
        · subst hr
          cases hc.symm.trans hbacking
          refine ⟨bytes :: vs, by simp [hvs], ?_⟩
          rw [update_self]
          exact List.forall_mem_cons.mpr
            ⟨.head _, fun v hv => .tail _ (hmem v hv)⟩
        · exact ⟨vs, (Disk.write_files_ne _ _ (h.backed.ne hbacking hc hr)).trans hvs,
            fun v hv => hhistory r' v (hmem v hv)⟩

/-- Changing the size marks the record dirty before it touches the file. -/
theorem Invariant.setRecordSize (r size : Nat) (effect : Option Failure) :
    Invariant name identity (s.setRecordSize r size effect).1 := by
  have hmarked := h.markDirty r
  simp only [Pool.setRecordSize]
  repeat' split
  · exact hmarked
  · exact hmarked
  · exact hmarked.setContents (mem_markDirty s r) _

/-- A flush that fails leaves the record dirty. -/
theorem Invariant.flushRecord (r : Nat) (effect : Option Failure) :
    Invariant name identity (s.flushRecord r effect).1 := by
  rw [Pool.flushRecord]
  split <;> try exact h
  split <;> try exact h
  rename_i b hbacking
  split <;> try exact h
  have hpublished : Published name identity { s with disk := s.disk.flush b } := by
    refine h.published.ofFiles rfl ?_
    intro r' c vs _ hvs hmem
    by_cases hcb : c = b
    · subst hcb
      exact ⟨vs.take 1, by simp [hvs], fun v hv => hmem v (List.mem_of_mem_take hv)⟩
    · exact ⟨vs, (Disk.flush_files_ne _ hcb).trans hvs, hmem⟩
  refine ⟨h.names, h.backed.flush b, h.counted, h.reclaims, ?_, { hpublished with }, h.current⟩
  intro r' p c hpath hc hclean
  by_cases hr : r' = r
  · subst hr
    cases hc.symm.trans hbacking
    obtain ⟨-, v, vs, hvs⟩ := h.backed.onDisk r' b hc
    exact ⟨v, by simp [Pool.clearDirty, hvs]⟩
  · have hclean' : r' ∉ s.dirty := fun hmem =>
      hclean (List.mem_filter.mpr ⟨hmem, decide_eq_true hr⟩)
    obtain ⟨v, hv⟩ := h.flushed r' p c hpath hc hclean'
    exact ⟨v, (Disk.flush_files_ne _ (h.backed.ne hbacking hc hr)).trans hv⟩

end

variable {allowRoot : Bool}

theorem validatePath_ok {path : Path} (h : validatePath path allowRoot = .ok ()) :
    path.all isEntryName = true ∧ (allowRoot = false → path ≠ []) := by
  simp only [validatePath] at h
  split at h <;> try cases h
  rename_i hforbidden
  split at h <;> try cases h
  rename_i hroot
  split at h <;> try cases h
  rename_i hslash
  refine ⟨List.all_eq_true.mpr ?_, fun hallow hpath => hroot ⟨hpath, hallow⟩⟩
  intro part hpart
  have hname := mt (fun hbad => List.any_eq_true.mpr ⟨part, hpart, hbad⟩) hforbidden
  have hchars := mt (fun hbad => List.any_eq_true.mpr ⟨part, hpart, hbad⟩) hslash
  simp only [Bool.or_eq_true, decide_eq_true_eq, List.contains_eq_mem, not_or] at hname hchars
  obtain ⟨⟨⟨hempty, hdot⟩, hdots⟩, hnul⟩ := hname
  simp only [isEntryName, hempty, hdot, hdots, ne_eq, not_false_eq_true, decide_true,
    Bool.and_self, Bool.true_and, List.all_eq_true, Bool.and_eq_true, decide_eq_true_eq]
  intro c hc
  refine ⟨⟨?_, ?_⟩, ?_⟩ <;> rintro rfl
  · exact hchars.1 hc
  · exact hchars.2 hc
  · exact hnul hc

theorem requireDirectory_ok {path : Path} (h : s.requireDirectory path allowRoot = .ok ()) :
    (path, Node.directory) ∈ s.entries ∧ (allowRoot = false → path ≠ []) := by
  rw [Pool.requireDirectory] at h
  split at h <;> try cases h
  rename_i hvalid
  refine ⟨?_, (validatePath_ok hvalid).2⟩
  split at h <;> try cases h
  rename_i hget
  exact mem_of_get hget

section Names

variable {entries : PathTree Nat} {path : Nat → Option Path} {nextRecord : Nat}

section

variable (h : Names entries path nextRecord)

include h

variable {p : Path}

theorem Names.valid_set (hvalid : p.all isEntryName = true) :
    ∀ q ∈ (entries.set p n).paths, q.all isEntryName = true := by
  intro q hq
  obtain ⟨m, hm⟩ := mem_paths.mp hq
  rcases mem_set.mp hm with ⟨hm, -⟩ | ⟨rfl, -⟩
  · exact h.valid q (mem_paths.mpr ⟨m, hm⟩)
  · exact hvalid

theorem Names.valid_delete (p : Path) :
    ∀ q ∈ (entries.delete p).paths, q.all isEntryName = true := by
  intro q hq
  obtain ⟨n, hn⟩ := mem_paths.mp hq
  exact h.valid q (mem_paths.mpr ⟨n, (mem_delete.mp hn).1⟩)

/-- A new directory below an existing one. -/
theorem Names.createDirectory (hvalid : p.all isEntryName = true) (hne : p ≠ [])
    (hfree : p ∉ entries.paths) (hparent : (p.dropLast, Node.directory) ∈ entries) :
    Names (entries.set p .directory) path nextRecord where
  formed := h.formed.set hne hfree hparent
  valid := h.valid_set hvalid
  owner := by
    intro q r
    rw [← h.owner, mem_set]
    constructor
    · rintro (⟨hq, -⟩ | ⟨-, hn⟩)
      · exact hq
      · cases hn
    · intro hq
      refine .inl ⟨hq, ?_⟩
      rintro rfl
      exact hfree (mem_paths.mpr ⟨_, hq⟩)
  fresh := h.fresh

/-- An empty directory goes; no record had its path. -/
theorem Names.removeDirectory (hne : p ≠ []) (hp : (p, Node.directory) ∈ entries)
    (hleaf : entries.hasChildren p = false) : Names (entries.delete p) path nextRecord where
  formed := h.formed.delete hne (hasChildren_eq_false.mp hleaf)
  valid := h.valid_delete p
  owner := by
    intro q r
    rw [← h.owner, mem_delete]
    constructor
    · exact And.left
    · intro hq
      refine ⟨hq, ?_⟩
      rintro rfl
      cases node_unique h.formed.nodup hq hp
  fresh := h.fresh

theorem Names.root_not_file (hp : (p, Node.file r) ∈ entries) : p ≠ [] := by
  rintro rfl
  cases node_unique h.formed.nodup hp h.formed.root

/-- The record of an unlinked file loses its path. -/
theorem Names.unlink (hp : (p, Node.file r) ∈ entries) :
    Names (entries.delete p) (update path r none) nextRecord where
  formed := h.formed.delete_file (h.root_not_file hp) hp
  valid := h.valid_delete p
  owner := by
    intro q r'
    rw [mem_delete]
    by_cases hr : r' = r
    · subst hr
      rw [update_self]
      refine ⟨?_, nofun⟩
      rintro ⟨hq, hne⟩
      have hqp : some q = some p := ((h.owner q r').mp hq).symm.trans ((h.owner p r').mp hp)
      exact absurd (Option.some.inj hqp) hne
    · rw [update_of_ne hr, ← h.owner]
      refine ⟨And.left, fun hq => ⟨hq, ?_⟩⟩
      rintro rfl
      exact hr (Node.file.inj (node_unique h.formed.nodup hq hp))
  fresh := by
    intro r' hr'
    by_cases hr : r' = r
    · rw [hr, update_self]
    · rw [update_of_ne hr]
      exact h.fresh r' hr'

theorem Names.addFile (hvalid : p.all isEntryName = true) (hne : p ≠ []) (hfree : p ∉ entries.paths)
    (hparent : (p.dropLast, Node.directory) ∈ entries) (hnone : path r = none)
    (hnext : nextRecord ≤ next) (hr : r < next) :
    Names (entries.set p (.file r)) (update path r (some p)) next where
  formed := h.formed.set hne hfree hparent
  valid := h.valid_set hvalid
  owner := by
    intro q r'
    rw [mem_set]
    by_cases hr' : r' = r
    · subst hr'
      rw [update_self]
      constructor
      · rintro (⟨hq, -⟩ | ⟨rfl, -⟩)
        · rw [h.owner, hnone] at hq
          cases hq
        · rfl
      · intro hq
        exact .inr ⟨(Option.some.inj hq).symm, rfl⟩
    · rw [update_of_ne hr', ← h.owner]
      constructor
      · rintro (⟨hq, -⟩ | ⟨-, hn⟩)
        · exact hq
        · exact absurd (Node.file.inj hn) hr'
      · intro hq
        refine .inl ⟨hq, ?_⟩
        rintro rfl
        exact hfree (mem_paths.mpr ⟨_, hq⟩)
  fresh := by
    intro r' hr'
    rw [update_of_ne (by omega)]
    exact h.fresh r' (by omega)

/-- A rename moves the paths of all records below the old path. -/
theorem Names.move {src : Path} (hsrc : src ≠ []) (hfree : dst ∉ entries.paths)
    (hout : ¬ src <+: dst) (hparent : (dst.dropLast, Node.directory) ∈ entries)
    (hvalid : dst.all isEntryName = true) : Names (entries.move src dst)
      (fun r => (path r).map fun p => if src <+: p then rebase src dst p else p) nextRecord where
  formed := h.formed.move hsrc hfree hout hparent
  valid := by
    intro q hq
    obtain ⟨n, hn⟩ := mem_paths.mp hq
    rcases (h.formed.mem_move hfree).mp hn with ⟨hn, -⟩ | ⟨p, hp, -, rfl⟩
    · exact h.valid q (mem_paths.mpr ⟨n, hn⟩)
    · have hold := List.all_eq_true.mp (h.valid p (mem_paths.mpr ⟨n, hp⟩))
      rw [rebase, List.all_append, hvalid, Bool.true_and, List.all_eq_true]
      intro part hpart
      exact hold part (List.mem_of_mem_drop hpart)
  owner := by
    intro q r
    rw [h.formed.mem_move hfree, Option.map_eq_some_iff]
    constructor
    · rintro (⟨hq, hnot⟩ | ⟨p, hp, hpre, rfl⟩)
      · exact ⟨q, (h.owner q r).mp hq, if_neg hnot⟩
      · exact ⟨p, (h.owner p r).mp hp, if_pos hpre⟩
    · rintro ⟨p, hp, heq⟩
      rw [← h.owner] at hp
      split at heq
      · rename_i hpre
        exact .inr ⟨p, hp, hpre, heq.symm⟩
      · rename_i hnot
        subst heq
        exact .inl ⟨hp, hnot⟩
  fresh := by
    intro r hr
    rw [h.fresh r hr]
    rfl

end

end Names

section

variable (h : Invariant name identity s)

include h

theorem Invariant.createDirectory (path : Path) :
    Invariant name identity (s.createDirectory path).1 := by
  simp only [Pool.createDirectory]
  split <;> try exact h
  rename_i hvalid
  split <;> try exact h
  rename_i hget
  split <;> try exact h
  rename_i hparent
  obtain ⟨hall, hne⟩ := validatePath_ok hvalid
  refine ⟨?_, h.backed, h.counted, h.reclaims, h.flushed,
    { h.published with }, nofun⟩
  exact h.names.createDirectory hall (hne rfl) (get_eq_none.mp hget)
    (requireDirectory_ok hparent).1

/-- An empty directory is out of the entries, for `removeDirectory` and as the target of
a rename. -/
theorem Invariant.dropDirectory {path : Path} (hne : path ≠ [])
    (hp : (path, Node.directory) ∈ s.entries) (hleaf : s.entries.hasChildren path = false) :
    Invariant name identity { s with entries := s.entries.delete path } :=
  { h with
    names := h.names.removeDirectory hne hp hleaf
    published := { h.published with }
    current := by
      intro hclean p r hr
      have hlive := h.current hclean p r hr
      refine mem_delete.mpr ⟨hlive, ?_⟩
      rintro rfl
      cases node_unique h.names.formed.nodup hlive hp }

theorem Invariant.dirtyNamespace : Invariant name identity { s with namespaceDirty := true } :=
  { h with
    published := { h.published with }
    current := fun hclean => by cases hclean }

/-- `removeDirectory` keeps the invariant, refused or not. -/
theorem Invariant.removeDirectory (path : Path) :
    Invariant name identity (s.removeDirectory path).1 := by
  simp only [Pool.removeDirectory, Pool.removeDirectoryIn, length_rebuildChildren]
  split <;> try exact h
  rename_i hdir
  split <;> try exact h
  rename_i hchildren
  obtain ⟨hp, hne⟩ := requireDirectory_ok hdir
  exact (h.dropDirectory (hne rfl) hp (Bool.eq_false_iff.mpr hchildren)).dirtyNamespace

/-- A record without a path need not be flushed. -/
theorem Invariant.clearDirty (hr : s.path r = none) : Invariant name identity (s.clearDirty r) :=
  { h with
    flushed := by
      refine h.flushed.mono (fun r' p hr' => ⟨p, hr'⟩) ?_
      intro r' p hpath hmem
      refine List.mem_filter.mpr ⟨hmem, decide_eq_true ?_⟩
      rintro rfl
      cases hr.symm.trans hpath
    published := { h.published with } }

/-- A record without path and descriptors that is not on its way to the spares. -/
theorem Invariant.queueReclaim (hpath : s.path r = none) (hreferences : s.references r = 0)
    (hr : r < s.nextRecord) (hspare : r ∉ s.spares) :
    Invariant name identity (s.queueReclaim r) := by
  rw [Pool.queueReclaim]
  split
  · exact h.clearDirty hpath
  · split <;> try exact h
    rename_i hpending
    refine ⟨h.names, h.backed, h.counted, ⟨?_, ?_⟩, h.flushed,
      { h.published with }, h.current⟩
    · have hperm : ((s.pendingReclaims ++ [r]) ++ s.spares).Perm
          (r :: (s.pendingReclaims ++ s.spares)) := by
        rw [List.append_assoc]
        exact List.perm_middle
      refine hperm.nodup_iff.mpr (List.nodup_cons.mpr ⟨?_, h.reclaims.nodup⟩)
      rw [List.mem_append]
      rintro (hmem | hmem)
      · exact hpending hmem
      · exact hspare hmem
    · intro r' hr'
      rw [List.append_assoc, List.mem_append, List.mem_append, List.mem_singleton] at hr'
      rcases hr' with hr' | rfl | hr'
      · exact h.reclaims.free r' (List.mem_append_left _ hr')
      · exact ⟨hpath, hreferences, hr⟩
      · exact h.reclaims.free r' (List.mem_append_right _ hr')

end

variable {nextRecord : Nat} {r : Nat} {p : Path}

theorem Names.lt_of_path (h : Names entries path nextRecord) (hr : path r = some p) :
    r < nextRecord := by
  by_contra hge
  rw [h.fresh r (Nat.le_of_not_lt hge)] at hr
  cases hr

variable {references : Nat → Nat} {pendingReclaims : List Nat} {spares : List Nat}

/-- A file with a path is neither reclaimed nor spare. -/
theorem Reclaims.not_mem_of_path (h : Reclaims path references pendingReclaims spares nextRecord)
    (hr : path r = some p) : r ∉ pendingReclaims ++ spares := by
  intro hmem
  rw [(h.free r hmem).1] at hr
  cases hr

section

variable (h : Invariant name identity s)

include h

/-- Unlinking a file takes its path and, if no descriptor is open, queues its reclaim. -/
theorem Invariant.unlinkFile {path : Path} (hp : (path, Node.file r) ∈ s.entries) :
    Invariant name identity (s.unlinkFile path r) := by
  have hpath := (h.names.owner path r).mp hp
  have hfree := h.reclaims.not_mem_of_path hpath
  have hdetached : Invariant name identity
      { s with
        entries := s.entries.delete path
        path := update s.path r none
        namespaceDirty := true } := by
    refine ⟨h.names.unlink hp, h.backed, h.counted, ⟨h.reclaims.nodup, ?_⟩, ?_,
      { h.published with }, nofun⟩
    · intro r' hr'
      have hne : r' ≠ r := by
        rintro rfl
        exact hfree hr'
      show update s.path r none r' = none ∧ _
      rw [update_of_ne hne]
      exact h.reclaims.free r' hr'
    · refine h.flushed.mono ?_ fun r' p _ hmem => hmem
      intro r' p hr'
      have hne : r' ≠ r := by
        rintro rfl
        cases (update_self ..).symm.trans hr'
      exact ⟨p, (update_of_ne hne _ _).symm.trans hr'⟩
  simp only [Pool.unlinkFile, Pool.detach]
  split <;> try exact hdetached
  rename_i hreferences
  exact hdetached.queueReclaim (update_self ..) hreferences (h.names.lt_of_path hpath)
    fun hmem => hfree (List.mem_append_right _ hmem)

theorem Invariant.removeFile (path : Path) : Invariant name identity (s.removeFile path).1 := by
  simp only [Pool.removeFile]
  split <;> try exact h
  split <;> try exact h
  rename_i hget
  exact h.unlinkFile (mem_of_get hget)

/-- The move itself, once the destination is free. -/
theorem Invariant.moveEntries {src : Path} (hsrc : src ≠ []) (hfree : dst ∉ s.entries.paths)
    (hout : ¬ src <+: dst) (hparent : (dst.dropLast, Node.directory) ∈ s.entries)
    (hvalid : dst.all isEntryName = true) : Invariant name identity (s.moveEntries src dst) := by
  have hsome : ∀ r p, (s.moveEntries src dst).path r = some p → ∃ q, s.path r = some q := by
    intro r p hr
    obtain ⟨q, hq, -⟩ := Option.map_eq_some_iff.mp hr
    exact ⟨q, hq⟩
  refine ⟨h.names.move hsrc hfree hout hparent hvalid, h.backed, h.counted,
    ⟨h.reclaims.nodup, ?_⟩, h.flushed.mono hsome fun _ _ _ hmem => hmem,
    { h.published with }, nofun⟩
  intro r hr
  obtain ⟨hpath, hrest⟩ := h.reclaims.free r hr
  refine ⟨?_, hrest⟩
  exact congrArg (Option.map _) hpath

end

variable {t : PathTree Nat} {dst : Path}

/-- A file has nothing under it, and a directory is not moved under itself. -/
theorem not_prefix_of_rename (h : t.WellFormed) (hsrc : (src, source) ∈ t) (hne : src ≠ dst)
    (hparent : (dst.dropLast, Node.directory) ∈ t)
    (hinvalid : ¬ (source = .directory ∧ src <+: dst)) : ¬ src <+: dst := by
  intro hpre
  cases source with
  | directory => exact hinvalid ⟨rfl, hpre⟩
  | file r =>
    have hup : src <+: dst.dropLast := by
      obtain ⟨rest, rfl⟩ := hpre
      have hrest : rest ≠ [] := by
        rintro rfl
        exact hne (List.append_nil src).symm
      rw [List.dropLast_append_of_ne_nil hrest]
      exact List.prefix_append src _
    have heq := h.file_maximal hsrc (mem_paths.mpr ⟨_, hparent⟩) hup
    rw [← heq] at hparent
    cases node_unique h.nodup hsrc hparent

theorem mem_delete_parent (hdst : dst ≠ []) (hparent : (dst.dropLast, Node.directory) ∈ t) :
    (dst.dropLast, Node.directory) ∈ t.delete dst := by
  refine mem_delete.mpr ⟨hparent, ?_⟩
  intro heq
  have hlen := congrArg List.length heq
  rw [List.length_dropLast] at hlen
  have := List.length_pos_iff.mpr hdst
  omega

theorem not_mem_delete (t : PathTree Nat) (p : Path) : p ∉ (t.delete p).paths := by
  intro hmem
  obtain ⟨n, hn⟩ := mem_paths.mp hmem
  exact (mem_delete.mp hn).2 rfl

theorem unlinkFile_entries (s : Pool) (path : Path) (r : Nat) :
    (s.unlinkFile path r).entries = s.entries.delete path := by
  simp only [Pool.unlinkFile, Pool.detach, Pool.queueReclaim, Pool.clearDirty]
  repeat' split
  all_goals rfl

/-- A rename first removes what is at the destination. -/
theorem Invariant.rename (h : Invariant name identity s) (src dst : Path) :
    Invariant name identity (s.rename src dst).1 := by
  simp only [Pool.rename, Pool.renameIn, length_rebuildChildren]
  split <;> try exact h
  rename_i hsrcValid hdstValid
  split <;> try exact h
  rename_i hne
  split <;> try exact h
  rename_i source hsource
  split <;> try exact h
  rename_i hdir
  split <;> try exact h
  rename_i hinvalid
  have hsrcNe := (validatePath_ok hsrcValid).2 rfl
  obtain ⟨hvalid, hdstNe⟩ := validatePath_ok hdstValid
  have hparent := (requireDirectory_ok hdir).1
  have hparent' := mem_delete_parent (hdstNe rfl) hparent
  have hout := not_prefix_of_rename h.names.formed (mem_of_get hsource) hne hparent hinvalid
  split <;> try exact h
  · rename_i hget
    exact h.moveEntries hsrcNe (get_eq_none.mp hget) hout hparent hvalid
  · rename_i hget
    split <;> try exact h
    rename_i hchildren
    exact (h.dropDirectory (hdstNe rfl) (mem_of_get hget)
      (Bool.eq_false_iff.mpr hchildren)).moveEntries hsrcNe
        (not_mem_delete s.entries dst) hout hparent' hvalid
  · rename_i r hget
    refine (h.unlinkFile (mem_of_get hget)).moveEntries hsrcNe ?_ hout ?_ hvalid
    · rw [unlinkFile_entries]
      exact not_mem_delete s.entries dst
    · rw [unlinkFile_entries]
      exact hparent'

variable {descriptors : List (Nat × Descriptor)} {d : Descriptor} {value : Nat}

theorem countP_filter_key (hnodup : (descriptors.map Prod.fst).Nodup)
    (hmem : (value, d) ∈ descriptors) (q : Nat × Descriptor → Bool) : descriptors.countP q =
      (descriptors.filter fun e => e.1 ≠ value).countP q + if q (value, d) then 1 else 0 := by
  induction descriptors with
  | nil => cases hmem
  | cons e descriptors ih =>
    rw [List.map_cons, List.nodup_cons] at hnodup
    rcases List.mem_cons.mp hmem with rfl | hmem
    · have hself : (descriptors.filter fun e => e.1 ≠ value) = descriptors := by
        rw [List.filter_eq_self]
        intro e he
        refine decide_eq_true ?_
        rintro rfl
        exact hnodup.1 (List.mem_map.mpr ⟨e, he, rfl⟩)
      rw [List.filter_cons_of_neg (by simp), hself, List.countP_cons]
    · have hne : e.1 ≠ value := by
        rintro rfl
        exact hnodup.1 (List.mem_map.mpr ⟨_, hmem, rfl⟩)
      rw [List.filter_cons_of_pos (by simpa using hne), List.countP_cons, List.countP_cons,
        ih hnodup.2 hmem]
      omega

theorem mem_of_descriptor (h : s.descriptor value = some d) : (value, d) ∈ s.descriptors := by
  obtain ⟨⟨k, d'⟩, hfind, rfl⟩ := Option.map_eq_some_iff.mp h
  have hkey := List.find?_some hfind
  obtain rfl : k = value := of_decide_eq_true hkey
  exact List.mem_of_find?_eq_some hfind

variable {nextDescriptor : Nat}

/-- Closing a descriptor lowers the count of its record by one. -/
theorem Counted.close (h : Counted descriptors nextDescriptor references nextRecord)
    (hmem : (value, d) ∈ descriptors) :
    Counted (descriptors.filter fun e => e.1 ≠ value) nextDescriptor
      (update references d.record (references d.record - 1)) nextRecord where
  nodup := h.nodup.sublist (List.filter_sublist.map _)
  below := fun e he => h.below e (List.mem_filter.mp he).1
  count := by
    intro r
    have hcount := countP_filter_key h.nodup hmem fun e => decide (e.2.record = r)
    by_cases hr : r = d.record
    · subst hr
      rw [update_self, h.count, hcount]
      simp
    · rw [update_of_ne hr, h.count, hcount]
      simp [Ne.symm hr]

/-- Opening one raises it by one. -/
theorem Counted.open (h : Counted descriptors nextDescriptor references nextRecord)
    (hr : r < nextRecord) (append : Bool) :
    Counted (descriptors ++ [(nextDescriptor, ⟨r, append⟩)]) (nextDescriptor + 1)
      (update references r (references r + 1)) nextRecord where
  nodup := by
    rw [List.map_append, List.nodup_append]
    refine ⟨h.nodup, List.nodup_singleton _, ?_⟩
    intro k hk k' hk'
    obtain ⟨e, he, rfl⟩ := List.mem_map.mp hk
    have hlt := (h.below e he).1
    have hk'' : k' = nextDescriptor := by simpa using hk'
    omega
  below := by
    intro e he
    rcases List.mem_append.mp he with he | he
    · have := h.below e he
      omega
    · rw [List.mem_singleton] at he
      subst he
      exact ⟨Nat.lt_succ_self _, hr⟩
  count := by
    intro r'
    by_cases hr' : r' = r
    · subst hr'
      rw [update_self, h.count]
      simp
    · rw [update_of_ne hr', h.count]
      simp [Ne.symm hr']

theorem setRecordSize_path (s : Pool) (r size : Nat) (effect : Option Failure) :
    (s.setRecordSize r size effect).1.path = s.path := by
  simp only [Pool.setRecordSize, Pool.setContents, Pool.markDirty]
  repeat' split
  all_goals rfl

theorem Reclaims.of_references (h : Reclaims path references pendingReclaims spares nextRecord)
    (hsame : ∀ r ∈ pendingReclaims ++ spares, references' r = references r) :
    Reclaims path references' pendingReclaims spares nextRecord := by
  refine ⟨h.nodup, ?_⟩
  intro r hr
  rw [hsame r hr]
  exact h.free r hr

/-- A descriptor on a file with a path, which is therefore not being reclaimed. -/
theorem Invariant.addDescriptor (h : Invariant name identity s) (hpath : s.path r = some p)
    (append : Bool) : Invariant name identity (s.addDescriptor r append) :=
  { h with
    counted := h.counted.open (h.names.lt_of_path hpath) append
    reclaims := by
      refine h.reclaims.of_references ?_
      intro r' hr'
      refine update_of_ne ?_ _ _
      rintro rfl
      exact h.reclaims.not_mem_of_path hpath hr'
    published := { h.published with } }

theorem openTruncate_path (s : Pool) (r : Nat) (flags : OpenFlags) (effect : Option Failure) :
    (s.openTruncate r flags effect).1.path = s.path := by
  simp only [Pool.openTruncate]
  split
  · split
    · exact setRecordSize_path s r 0 effect
    · rfl
  · rfl

section

variable (h : Invariant name identity s)

include h

theorem Invariant.openTruncate (r : Nat) (flags : OpenFlags) (effect : Option Failure) :
    Invariant name identity (s.openTruncate r flags effect).1 := by
  simp only [Pool.openTruncate]
  split <;> try exact h
  split <;> try exact h
  exact h.setRecordSize r 0 effect

/-- Opening an existing file, with its truncation. -/
theorem Invariant.openRecord (hpath : s.path r = some p) (flags : OpenFlags)
    (effect : Option Failure) : Invariant name identity (s.openRecord r flags effect).1 := by
  have hsized := h.openTruncate r flags effect
  have hsame := openTruncate_path s r flags effect
  simp only [Pool.openRecord]
  split
  · rename_i t heq
    rw [heq] at hsized hsame
    exact hsized.addDescriptor ((congrFun hsame r).trans hpath) flags.append
  · rename_i t e _ heq
    rw [heq] at hsized
    exact hsized

/-- A spare becomes a new file: its old content is no longer one that a crash can bring back
under a published path. -/
theorem Invariant.reuse {path : Path} (hspares : s.spares = rest ++ [r]) (hb : s.backing r = some b)
    (hvalid : path.all isEntryName = true) (hne : path ≠ []) (hfree : path ∉ s.entries.paths)
    (hparent : (path.dropLast, Node.directory) ∈ s.entries) : Invariant name identity { { s with
      spares := rest
      disk := s.disk.write b []
      path := update s.path r (some path)
      references := update s.references r 0
      generation := update s.generation r (s.generation r + 1) }.markDirty r with
        entries := s.entries.set path (.file r)
        namespaceDirty := true } := by
  have hmem : r ∈ s.spares := by rw [hspares]; simp
  obtain ⟨hnone, hreferences, hlt⟩ := h.reclaims.free r (List.mem_append_right _ hmem)
  have hnodup := h.reclaims.nodup
  rw [hspares, ← List.append_assoc, List.nodup_append] at hnodup
  have hother : ∀ r' ∈ s.pendingReclaims ++ rest, r' ≠ r := by
    intro r' hr'
    exact hnodup.2.2 r' hr' r (List.mem_singleton_self r)
  have hzero : update s.references r 0 = s.references := by
    rw [← hreferences]
    exact update_eq_self r s.references
  have hsub : ∀ r' ∈ s.pendingReclaims ++ rest, r' ∈ s.pendingReclaims ++ s.spares := by
    intro r' hr'
    rw [hspares, ← List.append_assoc]
    exact List.mem_append_left _ hr'
  refine ⟨h.names.addFile hvalid hne hfree hparent hnone (Nat.le_refl _) hlt,
    h.backed.write b [], ?_,
    ⟨hnodup.1, ?_⟩, ?_, ?_, nofun⟩
  · show Counted s.descriptors s.nextDescriptor (update s.references r 0) s.nextRecord
    rw [hzero]
    exact h.counted
  · intro r' hr'
    show update s.path r (some path) r' = none ∧
      update s.references r 0 r' = 0 ∧ r' < s.nextRecord
    rw [hzero, update_of_ne (hother r' hr')]
    exact h.reclaims.free r' (hsub r' hr')
  · intro r' p c hpath hc hclean
    have hr : r' ≠ r := by
      rintro rfl
      exact hclean (mem_markDirty _ r')
    have hclean' : r' ∉ s.dirty := by
      intro hdirty
      refine hclean ?_
      show r' ∈ if r ∈ s.dirty then s.dirty else s.dirty ++ [r]
      split
      · exact hdirty
      · exact List.mem_append_left _ hdirty
    obtain ⟨v, hv⟩ := h.flushed r' p c ((update_of_ne hr _ _).symm.trans hpath) hc hclean'
    exact ⟨v, (Disk.write_files_ne _ _ (h.backed.ne hb hc hr)).trans hv⟩
  · refine h.published.transport rfl rfl ?_
    intro p r' _ hkept hspare
    have hr : r' ≠ r := by
      rintro rfl
      exact hspare hmem
    refine ⟨rfl, hkept.of_history (update_of_ne hr _ _) rfl rfl ?_, ?_⟩
    · intro c vs hc hvs hhistory
      exact ⟨vs, (Disk.write_files_ne _ _ (h.backed.ne hb hc hr)).trans hvs, hhistory⟩
    · intro hrest
      refine hspare ?_
      rw [hspares]
      exact List.mem_append_left _ hrest

theorem Invariant.dropSpare : Invariant name identity { s with spares := s.spares.dropLast } :=
  { h with
    reclaims :=
      have hsub := (List.dropLast_sublist s.spares).append_left s.pendingReclaims
      ⟨h.reclaims.nodup.sublist hsub, fun r hr => h.reclaims.free r (hsub.subset hr)⟩
    published := by
      refine h.published.transport rfl rfl ?_
      intro p r _ hkept hspare
      exact ⟨rfl, hkept, fun hmem => hspare ((List.dropLast_sublist _).subset hmem)⟩ }

/-- Without a spare the new file is staged. -/
theorem Invariant.stageNew {path : Path} (hvalid : path.all isEntryName = true) (hne : path ≠ [])
    (hfree : path ∉ s.entries.paths) (hparent : (path.dropLast, Node.directory) ∈ s.entries) :
    Invariant name identity { s with
      path := update s.path s.nextRecord (some path)
      staged := update s.staged s.nextRecord (some [])
      nextRecord := s.nextRecord + 1
      entries := s.entries.set path (.file s.nextRecord)
      namespaceDirty := true } := by
  have hnone := h.names.fresh s.nextRecord (Nat.le_refl _)
  refine ⟨h.names.addFile hvalid hne hfree hparent hnone (Nat.le_succ _) (Nat.lt_succ_self _),
    h.backed.stageNew, ⟨h.counted.nodup, ?_, h.counted.count⟩, ⟨h.reclaims.nodup, ?_⟩, ?_,
    { h.published with }, nofun⟩
  · intro d hd
    have := h.counted.below d hd
    exact ⟨this.1, Nat.lt_succ_of_lt this.2⟩
  · intro r hr
    obtain ⟨hpath, hreferences, hlt⟩ := h.reclaims.free r hr
    refine ⟨?_, hreferences, Nat.lt_succ_of_lt hlt⟩
    exact (update_of_ne (Nat.ne_of_lt hlt) _ _).trans hpath
  · intro r p b hpath hb hclean
    have hr : r ≠ s.nextRecord := by
      rintro rfl
      cases ((h.backed.fresh s.nextRecord (Nat.le_refl _)).1).symm.trans hb
    exact h.flushed r p b ((update_of_ne hr _ _).symm.trans hpath) hb hclean

/-- `#open` keeps the invariant on every branch. -/
theorem Invariant.openFile (path : Path) (flags : OpenFlags) (effects : Effects) :
    Invariant name identity (s.openFile path flags effects).1 := by
  simp only [Pool.openFile]
  split <;> try exact h
  rename_i hvalidated
  obtain ⟨hvalid, hne⟩ := validatePath_ok hvalidated
  split
  · rename_i hget
    split <;> try exact h
    split <;> try exact h
    exact h.openRecord ((h.names.owner _ _).mp (mem_of_get hget)) flags effects.second
  rename_i hget
  split <;> try exact h
  split <;> try exact h
  rename_i hdir
  have hparent := (requireDirectory_ok hdir).1
  have hfree := get_eq_none.mp hget
  rw [Pool.takeSpare]
  cases hlast : s.spares.getLast? with
  | none =>
    exact (h.stageNew hvalid (hne rfl) hfree hparent).openRecord
      (update_self ..) flags effects.second
  | some r =>
    have hspares : s.spares = s.spares.dropLast ++ [r] :=
      (List.dropLast_append_getLast? r hlast).symm
    dsimp only
    cases hb : s.backing r with
    | none => exact h.dropSpare
    | some b =>
      cases effects.first with
      | some e => exact h.dropSpare
      | none =>
        exact (h.reuse hspares hb hvalid (hne rfl) hfree hparent).openRecord
          (update_self ..) flags effects.second

/-- The last close of an unlinked file queues its reclaim. -/
theorem Invariant.closeDescriptor (value : Nat) :
    Invariant name identity (s.closeDescriptor value).1 := by
  simp only [Pool.closeDescriptor]
  split <;> try exact h
  rename_i d hd
  have hmem := mem_of_descriptor hd
  have hbusy : d.record ∉ s.pendingReclaims ++ s.spares := by
    intro hfree
    have hzero := (h.reclaims.free d.record hfree).2.1
    rw [h.counted.count, List.countP_eq_zero] at hzero
    exact hzero _ hmem (decide_eq_true rfl)
  have hclosed : Invariant name identity { s with
      descriptors := s.descriptors.filter fun e => e.1 ≠ value
      references := update s.references d.record (s.references d.record - 1) } := by
    refine ⟨h.names, h.backed, h.counted.close hmem, h.reclaims.of_references ?_, h.flushed,
      { h.published with }, h.current⟩
    intro r hr
    refine update_of_ne ?_ _ _
    rintro rfl
    exact hbusy hr
  split <;> try exact hclosed
  rename_i hdone
  exact hclosed.queueReclaim hdone.2 hdone.1 (h.counted.below _ hmem).2
    fun hspare => hbusy (List.mem_append_right _ hspare)

/-- A write that fails half-way leaves the file dirty. -/
theorem Invariant.writeFile (value offset : Nat) (bytes : Contents) (effects : Effects) :
    Invariant name identity (s.writeFile value offset bytes effects).1 := by
  simp only [Pool.writeFile]
  split <;> try exact h
  rename_i d _
  have hmarked := h.markDirty d.record
  have hset := fun bytes => hmarked.setContents (mem_markDirty s d.record) bytes
  repeat' split
  all_goals first | exact hmarked | exact hset _

theorem Invariant.unlinkDescriptor (value : Nat) :
    Invariant name identity (s.unlinkDescriptor value).1 := by
  simp only [Pool.unlinkDescriptor]
  split <;> try exact h
  split <;> try exact h
  rename_i hpath
  exact h.unlinkFile ((h.names.owner _ _).mpr hpath)

/-- **Every request keeps the invariant**, however its storage effects end. -/
theorem Invariant.dispatch (request : Request) (effects : Effects) :
    Invariant name identity (s.dispatch request effects).1 := by
  cases request with
  | createDirectory path => exact h.createDirectory path
  | removeDirectory path => exact h.removeDirectory path
  | rename src dst => exact h.rename src dst
  | removeFile path => exact h.removeFile path
  | «open» path flags => exact h.openFile path flags effects
  | close value => exact h.closeDescriptor value
  | write value offset bytes => exact h.writeFile value offset bytes effects
  | flush value =>
    simp only [Pool.dispatch, Pool.flushFile]
    split <;> try exact h
    exact h.flushRecord _ effects.first
  | truncate value size =>
    simp only [Pool.dispatch, Pool.truncateFile]
    split <;> try exact h
    exact h.setRecordSize _ size effects.first
  | unlink value => exact h.unlinkDescriptor value

end

end Steps

end Oliphaunt.OpfsPool
