import Oliphaunt.TS.OpfsCrash

/-!
# The order of flushes in a sync

A sync of the boundary `full` or `close` must make the WAL files that are dirty at its
start durable before it flushes a dirty data file, and before it flushes
`global/pg_control`. `WalFirst` says this of the recorded effects.

`#flushAll` keeps the order, but it skips staged files; those are written by the workers
afterwards, in any order. `NoLateWal` is the condition on the state at the start under
which no staged file gets behind.

* `sync_flushes_wal_first` — the order under `NoLateWal`;
* `staged_wal_flushed_late` — a staged WAL file that is flushed after data.
-/

namespace Oliphaunt.OpfsPool

open FileTree Transition List Option

/-! ## The property and the condition -/

/-- The flush of a data file that was dirty at the start, or of `global/pg_control`. -/
def Event.isData (dirty : List Nat) (e : Event) : Bool :=
  e.effect = .flushed &&
    e.path.any fun p => !isWalPath p && (dirty.contains e.record || p = controlPath)

/-- A write or flush of a WAL file that was dirty at the start. -/
def Event.isWal (dirty : List Nat) (e : Event) : Bool :=
  dirty.contains e.record && e.path.any isWalPath

/-- No effect on a WAL file comes after a flush of data. -/
def Ordered (dirty : List Nat) (events : List Event) : Prop :=
  events.Pairwise fun e e' => ¬ (e.isData dirty = true ∧ e'.isWal dirty = true)

instance (dirty : List Nat) (events : List Event) : Decidable (Ordered dirty events) :=
  inferInstanceAs (Decidable (events.Pairwise _))

/-- The last sync of the boundary `full` or `close` has kept the order so far. -/
def WalFirst (s : State) : Prop :=
  ∀ boundary dirty, s.started = some (boundary, dirty) → boundary ≠ .operation →
    Ordered dirty s.events

namespace Pool

def isDataRecord (s : Pool) (r : Nat) : Bool := (s.path r).any fun p => !isWalPath p

/-- `global/pg_control` has no backing yet. -/
def controlStaged (s : Pool) : Bool :=
  match s.entries.get controlPath with
  | some (.file r) => (s.staged r).isSome
  | _ => false

/-- No dirty WAL file is staged, or there is no data file that a sync would flush. -/
def NoLateWal (s : Pool) : Prop :=
  (∀ r ∈ s.dirty, s.isWalRecord r = true → s.staged r = none) ∨
    (∀ r ∈ s.dirty, s.isDataRecord r = false) ∧ s.controlStaged = false

instance (s : Pool) : Decidable s.NoLateWal := inferInstanceAs (Decidable (_ ∨ _))

end Pool

/-- What the starts of the syncs must meet. -/
def StartsInOrder (s : State) : Action → Prop
  | .sync .full _ | .sync .close _ => s.pool.NoLateWal
  | _ => True

instance : ∀ s a, Decidable (StartsInOrder s a)
  | s, .sync .full _ | s, .sync .close _ => inferInstanceAs (Decidable s.pool.NoLateWal)
  | _, .sync .operation _ | _, .request _ _ | _, .flushNext _ | _, .materialize _ | _, .start _
  | _, .advance _ _ _ | _, .materialized _ | _, .publish _ | _, .settle => instDecidableTrue

variable {dirty : List Nat} {e : Event}

theorem Event.isData_iff : e.isData dirty = true ↔ e.effect = .flushed ∧
      ∃ p, e.path = some p ∧ isWalPath p = false ∧ (e.record ∈ dirty ∨ p = controlPath) := by
  simp [Event.isData, Option.any_eq_true]

theorem Event.isWal_iff :
    e.isWal dirty = true ↔ e.record ∈ dirty ∧ ∃ p, e.path = some p ∧ isWalPath p = true := by
  simp [Event.isWal, Option.any_eq_true]

theorem postgresRank_wal : postgresRank (some p) = 0 ↔ isWalPath p = true := by
  simp only [postgresRank]
  cases isWalPath p with
  | true => simp
  | false =>
    simp only [Bool.false_eq_true, if_false, iff_false]
    split <;> omega

/-- The staged files that a sync still has to write get behind no flush of data: no WAL
file among them, or no data at all. -/
def Unharmed (s : State) (dirty : List Nat) : Prop :=
  (∀ r ∈ dirty, s.pool.isWalRecord r = true → s.pool.staged r = none) ∨
    (∀ e ∈ s.events, e.isData dirty = false) ∧ (∀ r ∈ dirty, s.pool.isDataRecord r = false) ∧
      ∀ r, s.pool.path r = some controlPath → s.pool.staged r = none

structure Flushing (s : State) (dirty queue : List Nat) : Prop where
  unharmed : Unharmed s dirty
  sub : ∀ r ∈ queue, r ∈ dirty
  left : ∀ r ∈ s.pool.dirty, r ∈ queue ∨ (s.pool.staged r).isSome
  sorted : queue.Pairwise fun r r' =>
    postgresRank (s.pool.path r) ≤ postgresRank (s.pool.path r')
  before : ∀ e ∈ s.events, ∀ r ∈ queue, postgresRank e.path ≤ postgresRank (s.pool.path r)

/-- What a sync still keeps of the order, in each phase. -/
def FlushStage (s : State) (dirty : List Nat) : Prop :=
  match s.phase with
  | .idle => True
  | .flushing _ queue => Flushing s dirty queue
  | .materializing _ _ _ _ => Unharmed s dirty ∧ ∀ r ∈ s.pool.dirty, (s.pool.staged r).isSome
  | .publishing _ _ => ∀ r ∈ s.pool.dirty, (s.pool.staged r).isSome
  | .sparing _ work _ => workRecords work = []

/-- The invariant of the order. -/
def KeepsOrder (s : State) : Prop :=
  ∀ boundary dirty, s.started = some (boundary, dirty) → boundary ≠ .operation →
    Ordered dirty s.events ∧ FlushStage s dirty

/-- A step keeps the order if it keeps it relative to the files that were dirty at the start
of the sync. -/
theorem KeepsOrder.of (h : KeepsOrder s) (hstarted : t.started = s.started)
    (hkeep : ∀ dirty, Ordered dirty s.events → FlushStage s dirty →
      Ordered dirty t.events ∧ FlushStage t dirty) : KeepsOrder t := by
  intro boundary dirty hstart hboundary
  rw [hstarted] at hstart
  obtain ⟨hordered, hstage⟩ := h boundary dirty hstart hboundary
  exact hkeep dirty hordered hstage

theorem KeepsOrder.idle (h : KeepsOrder s) (hstarted : t.started = s.started)
    (hevents : t.events = s.events) (hidle : t.phase = .idle) : KeepsOrder t := by
  refine h.of hstarted fun dirty hordered _ => ?_
  rw [hevents, FlushStage, hidle]
  exact ⟨hordered, trivial⟩

section Steps

variable {name : String} {identity : PhysicalIdentity} {s t : State}

variable {queue : List Nat} {r : Nat}

/-- At most one effect is added, on a record with `P`. -/
def Adds (s t : State) (P : Nat → Prop) : Prop :=
  ∃ new : Option Event, t.events = s.events ++ new.toList ∧
    ∀ e ∈ new, e.path = s.pool.path e.record ∧ P e.record

variable {P : Nat → Prop}

theorem Adds.none (heq : t.events = s.events) : Adds s t P :=
  ⟨.none, by simp [heq], by simp⟩

theorem Adds.event (heq : t.events = (s.event r effect).events) (hr : P r) : Adds s t P := by
  refine ⟨some ⟨r, s.pool.path r, effect⟩, heq, fun e he => ?_⟩
  cases he
  exact ⟨rfl, hr⟩

/-- New events keep the order if no WAL file of the start comes behind a data file. -/
theorem Ordered.adds (h : Ordered dirty s.events) (hadds : Adds s t P)
    (hlast : ∀ r ∈ dirty, P r → s.pool.isWalRecord r = true →
      ∀ e ∈ s.events, e.isData dirty = true → False) : Ordered dirty t.events := by
  obtain ⟨new, heq, hnew⟩ := hadds
  rw [heq]
  refine pairwise_append.mpr ⟨h, by cases new <;> simp, fun e he e' he' hboth => ?_⟩
  obtain ⟨hpath, hP⟩ := hnew e' (mem_toList.mp he')
  obtain ⟨hmem, p, hp, hwal⟩ := Event.isWal_iff.mp hboth.2
  refine hlast _ hmem hP ?_ e he hboth.1
  rw [Pool.isWalRecord, ← hpath, hp]
  exact hwal

/-- The paths stay, staged files only get materialised, and the effect is on a file that
was dirty at the start or is staged. -/
theorem Unharmed.adds (h : Unharmed s dirty) (hadds : Adds s t P)
    (hP : ∀ r, P r → r ∈ dirty ∨ (s.pool.staged r).isSome) (hpath : t.pool.path = s.pool.path)
    (hstaged : ∀ r, t.pool.staged r = s.pool.staged r ∨ t.pool.staged r = none) :
    Unharmed t dirty := by
  have hnone : ∀ r, s.pool.staged r = none → t.pool.staged r = none :=
    fun r hr => (hstaged r).elim (·.trans hr) id
  simp only [Unharmed, Pool.isWalRecord, Pool.isDataRecord, hpath] at h ⊢
  rcases h with h | ⟨hdata, hdirty, hcontrol⟩
  · exact .inl fun r hr hwal => hnone r (h r hr hwal)
  · refine .inr ⟨?_, hdirty, fun r hr => hnone r (hcontrol r hr)⟩
    obtain ⟨new, heq, hnew⟩ := hadds
    rw [heq]
    refine forall_mem_append.mpr ⟨hdata, fun e he => Bool.eq_false_iff.mpr fun hflush => ?_⟩
    obtain ⟨hrecord, hr⟩ := hnew e (mem_toList.mp he)
    obtain ⟨-, p, hp, hpWal, hcase⟩ := Event.isData_iff.mp hflush
    rw [hp] at hrecord
    by_cases hmem : e.record ∈ dirty
    · simpa [← hrecord, hpWal] using hdirty _ hmem
    · have hsome := (hP _ hr).resolve_left hmem
      rw [hcontrol _ (hrecord.symm.trans (congrArg some (hcase.resolve_left hmem)))] at hsome
      cases hsome

/-- What the effects of a flush are: none on a record that is clean or staged. -/
theorem flushNext_events (s : State) (r : Nat) (effect : Option Failure) (next : Phase) :
    (s.flushNext r effect next).started = s.started ∧
      Adds s (s.flushNext r effect next)
        (fun r' => r' = r ∧ r ∈ s.pool.dirty ∧ s.pool.staged r = none) := by
  simp only [State.flushNext]
  split
  · split
    · rename_i hflushes
      exact ⟨rfl, .event rfl ⟨rfl, hflushes⟩⟩
    · exact ⟨rfl, .none rfl⟩
  · exact ⟨rfl, .none rfl⟩

variable {boundary : Boundary} {effect : Option Failure} {ok : Bool} {left : Contents}

/-- One file of the sorted queue: the WAL files of the start are at its front. -/
theorem flushing_step (hordered : Ordered dirty s.events) (h : Flushing s dirty (r :: queue)) :
    Ordered dirty (s.flushNext r effect (.flushing boundary queue)).events ∧
      FlushStage (s.flushNext r effect (.flushing boundary queue)) dirty := by
  obtain ⟨-, hevents⟩ := flushNext_events s r effect (.flushing boundary queue)
  obtain ⟨hqueue, hsorted⟩ := pairwise_cons.mp h.sorted
  refine ⟨hordered.adds hevents ?_, ?_⟩
  · -- no data was flushed before, for nothing of a higher rank was
    rintro _ - ⟨rfl, -⟩ hwal e he hdata
    obtain ⟨-, p, hp, hpWal, -⟩ := Event.isData_iff.mp hdata
    obtain ⟨q, hq, hqWal⟩ := any_eq_true _ _ |>.mp hwal
    have hrank := h.before e he _ (.head _)
    rw [hq, postgresRank_wal.mpr hqWal, hp, Nat.le_zero, postgresRank_wal, hpWal] at hrank
    cases hrank
  · rcases flushNext_pool s r effect (.flushing boundary queue) with hreject | ⟨hpool, hnext, hok⟩
    · rw [hreject]
      trivial
    · obtain ⟨hpath, hstaged⟩ := flushRecord_frame s.pool r effect
      rw [← hpool] at hpath hstaged
      simp only [FlushStage, hnext]
      refine ⟨h.unharmed.adds hevents ?_ hpath fun r' => .inl (congrFun hstaged r'),
        fun r' hr' => h.sub r' (.tail r hr'), ?_, hpath ▸ hsorted, ?_⟩
      · rintro _ ⟨rfl, -⟩
        exact .inl (h.sub _ (.head _))
      · intro r' hr'
        rw [hpool] at hr'
        obtain ⟨hmem, hself⟩ := mem_dirty_flushRecord hok hr'
        rw [hstaged]
        rcases h.left r' hmem with hin | hsome
        · rcases mem_cons.mp hin with rfl | hin
          · exact .inr (hself rfl)
          · exact .inl hin
        · exact .inr hsome
      · obtain ⟨new, heq, hnew⟩ := hevents
        rw [heq, hpath]
        refine forall_mem_append.mpr
          ⟨fun e he r' hr' => h.before e he r' (.tail r hr'), fun e he r' hr' => ?_⟩
        obtain ⟨hrecord, hr, -⟩ := hnew e (mem_toList.mp he)
        rw [hrecord, hr]
        exact hqueue r' hr'

/-- The files that are flushed before the publication. -/
theorem publishing_step (hordered : Ordered dirty s.events)
    (h : ∀ r ∈ s.pool.dirty, (s.pool.staged r).isSome) :
    Ordered dirty (s.flushNext r effect (.publishing boundary queue)).events ∧
      FlushStage (s.flushNext r effect (.publishing boundary queue)) dirty := by
  obtain ⟨-, hevents⟩ := flushNext_events s r effect (.publishing boundary queue)
  refine ⟨hordered.adds hevents ?_, ?_⟩
  · rintro _ - ⟨rfl, hmem, hnone⟩
    simpa [hnone] using h _ hmem
  · rcases flushNext_pool s r effect (.publishing boundary queue) with hreject | ⟨hpool, hnext, hok⟩
    · rw [hreject]
      trivial
    · obtain ⟨-, hstaged⟩ := flushRecord_frame s.pool r effect
      simp only [FlushStage, hnext, hpool]
      intro r' hr'
      rw [hstaged]
      exact h r' (mem_dirty_flushRecord hok hr').1

/-- What a worker does to the parts that the order is about. -/
structure Advanced (s t : State) (record : Option Nat) : Prop where
  started : t.started = s.started
  path : t.pool.path = s.pool.path
  staged : ∀ r, t.pool.staged r = s.pool.staged r ∨ t.pool.staged r = none
  dirty : ∀ r ∈ t.pool.dirty, r ∈ s.pool.dirty ∧ t.pool.staged r = s.pool.staged r
  events : Adds s t (· ∈ record)

theorem advance_advanced (hadvance : s.advance w ok left = some out) :
    Advanced s out.1 w.record ∧ ∀ w' ∈ out.2.1, w'.record = w.record := by
  obtain ⟨record, b, stage⟩ := w
  rcases stage with _ | _ | _ | _ <;> rcases record with _ | r <;> cases ok <;> cases hadvance
  case flushing.some.true =>
    have hother : ∀ r' ≠ r, (s.pool.materialize r b).staged r' = s.pool.staged r' :=
      fun r' hr' => Function.update_of_ne hr' _ _
    refine ⟨⟨rfl, rfl, fun r' => ?_, fun r' hr' => ?_, .event rfl rfl⟩, by simp⟩
    · by_cases hr' : r' = r
      · rw [hr']
        exact .inr (Function.update_self ..)
      · exact .inl (hother r' hr')
    · obtain ⟨hmem, hne⟩ := mem_filter.mp hr'
      exact ⟨hmem, hother r' (of_decide_eq_true hne)⟩
  case writing.some.true =>
    exact ⟨⟨rfl, rfl, fun _ => .inl rfl, fun _ hr => ⟨hr, rfl⟩, .event rfl rfl⟩, by simp⟩
  all_goals exact ⟨⟨rfl, rfl, fun _ => .inl rfl, fun _ hr => ⟨hr, rfl⟩, .none rfl⟩, by simp⟩

/-- A worker adds events for its own record only. -/
theorem advanceAt_advanced (hadvance : s.advanceAt work i ok left = some out) :
    ∃ record, Advanced s out.1 record ∧ (∀ r ∈ record, r ∈ workRecords work) ∧
      ∀ r ∈ workRecords out.2.1, r ∈ workRecords work := by
  cases hw : work[i]? with
  | none => simp only [State.advanceAt, hw, reduceCtorEq] at hadvance
  | some w =>
    simp only [State.advanceAt, hw] at hadvance
    obtain ⟨⟨t, next, failed⟩, hnext, rfl⟩ := map_eq_some_iff.mp hadvance
    obtain ⟨hadvanced, hrecord⟩ := advance_advanced hnext
    have hmem : ∀ r ∈ w.record, r ∈ workRecords work := by
      intro r hr
      exact mem_filterMap.mpr ⟨w, mem_of_getElem? hw, hr⟩
    cases next with
    | none =>
      refine ⟨w.record, hadvanced, hmem, ?_⟩
      intro r hr
      exact ((eraseIdx_sublist work i).filterMap Worker.record).subset hr
    | some w' =>
      refine ⟨w.record, hadvanced, hmem, ?_⟩
      have hsame : workRecords (work.set i w') = workRecords work := by
        rw [workRecords_eq, workRecords_eq, map_set_of_eq hw (hrecord w' rfl)]
      intro r hr
      rw [← hsame]
      exact hr

/-- A worker writes a staged file. It does no harm when no dirty WAL file is staged behind
data. -/
theorem Advanced.ordered (h : Advanced s t record) (hordered : Ordered dirty s.events)
    (hunharmed : Unharmed s dirty) (hrecord : ∀ r ∈ record, (s.pool.staged r).isSome) :
    Ordered dirty t.events ∧ Unharmed t dirty := by
  refine ⟨hordered.adds h.events fun r hmem hr hwal e he hdata => ?_,
    hunharmed.adds h.events (fun r hr => .inr (hrecord r hr)) h.path h.staged⟩
  -- a staged file is written: it is no dirty WAL file, or no data was flushed
  rcases hunharmed with hstaged | ⟨hevents, -, -⟩
  · simpa [hstaged r hmem hwal] using hrecord r hr
  · simp [hevents e he] at hdata

/-- A sync that starts with no late WAL file stays unharmed. -/
theorem Invariant.unharmed (h : Invariant name identity s.pool)
    (hcondition : s.pool.NoLateWal) (hevents : s.events = []) : Unharmed s s.pool.dirty := by
  rcases hcondition with hwal | ⟨hdirty, hcontrol⟩
  · exact .inl hwal
  · refine .inr ⟨?_, hdirty, ?_⟩
    · rw [hevents]
      intro e he
      cases he
    · intro r hr
      have hget := PathTree.get_of_mem h.names.formed.nodup ((h.names.owner controlPath r).mpr hr)
      simp only [Pool.controlStaged, hget] at hcontrol
      exact isSome_eq_false_iff.mp hcontrol |> isNone_iff_eq_none.mp

theorem finish_keepsOrder (h : Ordered dirty s.events) :
    Ordered dirty (s.finish boundary).events ∧ FlushStage (s.finish boundary) dirty := by
  simp only [State.finish]
  split
  · exact ⟨h, trivial⟩
  · exact ⟨h, rfl⟩

theorem finish_started (s : State) (boundary : Boundary) :
    (s.finish boundary).started = s.started := by
  simp only [State.finish]
  split <;> rfl

/-- A full or closing sync starts in order where no WAL file comes late. -/
theorem Invariant.sync_keepsOrder (h : Invariant name identity s.pool)
    (hcondition : StartsInOrder s (.sync boundary queue))
    (hqueue : s.pool.SyncQueue boundary queue) :
    KeepsOrder { s with
      phase := .flushing boundary queue
      started := some (boundary, s.pool.dirty)
      events := []
      outcome := none } := by
  intro boundary' dirty hstarted hboundary
  obtain ⟨rfl, rfl⟩ := Prod.mk.inj (Option.some.inj hstarted)
  have hfull : s.pool.FlushOrder s.pool.dirty queue ∧ s.pool.NoLateWal := by
    cases boundary with
    | operation => exact absurd rfl hboundary
    | full | close => exact ⟨hqueue, hcondition⟩
  refine ⟨List.Pairwise.nil, ?_, ?_, ?_, hfull.1.2, ?_⟩
  · exact Invariant.unharmed
      (s := { s with phase := _, events := [], started := _, outcome := _ }) h hfull.2 rfl
  · exact fun r hr => hfull.1.1.mem_iff.mp hr
  · exact fun r hr => .inl (hfull.1.1.mem_iff.mpr hr)
  · intro e he
    cases he

/-- A worker for a spare has no record, so it writes and flushes none. -/
theorem advanceAt_sparing (hadvance : s.advanceAt work i ok left = some out)
    (hwork : workRecords work = []) (hordered : Ordered dirty s.events) :
    Ordered dirty out.1.events ∧ workRecords out.2.1 = [] := by
  obtain ⟨record, hadvanced, hrecord, hrest⟩ := advanceAt_advanced hadvance
  simp only [hwork, not_mem_nil, imp_false] at hrecord hrest
  exact ⟨hordered.adds hadvanced.events fun r _ hr => absurd hr (hrecord r),
    eq_nil_iff_forall_not_mem.mpr hrest⟩

/-- A worker for a staged file keeps the order, and what stays dirty stays staged. -/
theorem advanceAt_materializing (hadvance : s.advanceAt work i ok left = some out)
    (hstaged : ∀ r ∈ workRecords work, (s.pool.staged r).isSome)
    (hordered : Ordered dirty s.events) (hunharmed : Unharmed s dirty)
    (hdirty : ∀ r ∈ s.pool.dirty, (s.pool.staged r).isSome) :
    Ordered dirty out.1.events ∧ Unharmed out.1 dirty ∧
      ∀ r ∈ out.1.pool.dirty, (out.1.pool.staged r).isSome := by
  obtain ⟨record, hadvanced, hrecord, -⟩ := advanceAt_advanced hadvance
  obtain ⟨hordered', hunharmed'⟩ :=
    hadvanced.ordered hordered hunharmed fun r hr => hstaged r (hrecord r hr)
  refine ⟨hordered', hunharmed', ?_⟩
  intro r hr
  obtain ⟨hmem, hsame⟩ := hadvanced.dirty r hr
  rw [hsame]
  exact hdirty r hmem

theorem advanceAt_started (hadvance : s.advanceAt work i ok left = some out) :
    out.1.started = s.started := by
  obtain ⟨_, hadvanced, -, -⟩ := advanceAt_advanced hadvance
  exact hadvanced.started

/-- **Every step keeps the effects of the sync under way in order.** -/
theorem step_keepsOrder (s : State) (a : Action) (t : State)
    (h : (Invariant name identity s.pool ∧ PhaseOk s) ∧ KeepsOrder s)
    (hcondition : StartsInOrder s a) (hstep : step name identity s a = some t) :
    KeepsOrder t := by
  obtain ⟨⟨hinv, hphase⟩, horder⟩ := h
  unfold step at hstep
  split at hstep
  case h_1 request effects heq =>
    -- a request between two syncs
    cases hstep
    exact horder.idle rfl rfl heq
  case h_2 boundary queue heq =>
    -- a sync starts
    split at hstep <;> cases hstep
    rename_i hqueue
    exact hinv.sync_keepsOrder hcondition hqueue
  case h_3 boundary r queue effect heq =>
    -- `#flushAll` takes the next file
    cases hstep
    refine horder.of (flushNext_events s r effect _).1 fun dirty hordered hstage => ?_
    simp only [FlushStage, heq] at hstage
    exact flushing_step hordered hstage
  case h_4 boundary todo heq =>
    -- the queue is empty, and the workers start
    split at hstep <;> cases hstep
    refine horder.of rfl fun dirty hordered hstage => ?_
    simp only [FlushStage, heq] at hstage
    exact ⟨hordered, hstage.unharmed, fun r hr => (hstage.left r hr).resolve_left not_mem_nil⟩
  case h_5 boundary r todo work ok heq =>
    -- a worker takes a staged file
    split at hstep <;> try cases hstep
    split at hstep
    all_goals
      cases hstep
      refine horder.of rfl fun dirty hordered hstage => ?_
      simp only [FlushStage, heq] at hstage
      exact ⟨hordered, hstage⟩
  case h_6 boundary todo work failed i ok left heq =>
    -- a worker goes on
    simp only [PhaseOk, heq] at hphase
    obtain ⟨out, hadvance, rfl⟩ := map_eq_some_iff.mp hstep
    refine horder.of (advanceAt_started hadvance) fun dirty hordered hstage => ?_
    simp only [FlushStage, heq] at hstage
    exact advanceAt_materializing hadvance
      (fun r hr => hphase.2.staged r (mem_append_right _ hr)) hordered hstage.1 hstage.2
  case h_7 boundary todo failed queue heq =>
    -- all workers are done
    split at hstep
    · cases hstep
      exact horder.idle rfl rfl rfl
    · split at hstep <;> try cases hstep
      split at hstep
      · split at hstep <;> cases hstep
        refine horder.of rfl fun dirty hordered hstage => ?_
        simp only [FlushStage, heq] at hstage
        exact ⟨hordered, hstage.2⟩
      · cases hstep
        exact horder.of (finish_started s _) fun dirty hordered _ => finish_keepsOrder hordered
  case h_8 boundary r queue effect heq =>
    -- what the workers wrote is flushed
    cases hstep
    refine horder.of (flushNext_events s r effect _).1 fun dirty hordered hstage => ?_
    simp only [FlushStage, heq] at hstage
    exact publishing_step hordered hstage
  case h_9 boundary ok heq =>
    -- the state is written
    split at hstep <;> cases hstep
    · rw [State.publish]
      split
      · exact horder.idle rfl rfl rfl
      · exact horder.of (finish_started _ _) fun dirty hordered _ => finish_keepsOrder hordered
    · exact horder.idle rfl rfl rfl
  case h_10 missing work ok heq =>
    -- a worker takes a spare to create
    split at hstep <;> try cases hstep
    split at hstep
    all_goals
      cases hstep
      refine horder.of rfl fun dirty hordered hstage => ⟨hordered, ?_⟩
      simp only [FlushStage, heq] at hstage
      simpa [FlushStage, workRecords, State.createBacking] using hstage
  case h_11 missing work failed i ok left heq =>
    -- it goes on
    obtain ⟨out, hadvance, rfl⟩ := map_eq_some_iff.mp hstep
    refine horder.of (advanceAt_started hadvance) fun dirty hordered hstage => ?_
    simp only [FlushStage, heq] at hstage
    exact advanceAt_sparing hadvance hstage hordered
  case h_12 missing failed heq =>
    -- the spares are there
    split at hstep <;> cases hstep
    exact horder.idle rfl rfl rfl
  case h_13 => cases hstep

end Steps

/-- In every run whose full and closing syncs start without a late WAL file, the effects of
every such sync are in order, in every state and so also when it has succeeded. -/
theorem sync_flushes_wal_first {name : String} {physicalIdentity : PhysicalIdentity} {disk : Disk}
    {state : PoolState} {spares : List Nat}
    (hopen : Openable name physicalIdentity disk state spares) {as : List Action} {s : State}
    (hstarts : Along (step name physicalIdentity) StartsInOrder (hydrated disk state spares) as)
    (hrun : run (step name physicalIdentity) (hydrated disk state spares) as = some s) :
    WalFirst s := by
  have hstart : (Invariant name physicalIdentity (hydrated disk state spares).pool ∧
      PhaseOk (hydrated disk state spares)) ∧ KeepsOrder (hydrated disk state spares) := by
    refine ⟨⟨hopen.invariant, trivial⟩, ?_⟩
    intro boundary dirty hstarted
    cases hstarted
  have hs := run_invariant_along (C := StartsInOrder)
    (P := fun s => (Invariant name physicalIdentity s.pool ∧ PhaseOk s) ∧ KeepsOrder s)
    (fun s a t h hc hstep => ⟨step_ok s a t h.1 hstep, step_keepsOrder s a t h hc hstep⟩)
    hstart hstarts hrun
  intro boundary dirty hstarted hboundary
  exact (hs.2 boundary dirty hstarted hboundary).1

/-- A database with its two essential files and a full reserve of spares. -/
def reserveState : PoolState where
  name := "db"
  phase := .ready
  physicalIdentity := wasixPhysicalIdentity
  entries := [(["PG_VERSION"], .file 0), (["base"], .directory), (["global"], .directory),
    (controlPath, .file 1), (["pg_wal"], .directory)]

def reserveDisk : Disk where
  state := .content reserveState
  foreign := false
  files := fun b => if b < 34 then some [[0x31, 0x38]] else none
  next := 34

def reserve : List Nat := (List.range preopenedFileReserve).map (· + 2)

theorem reserveDisk_openable :
    Openable "db" wasixPhysicalIdentity reserveDisk reserveState reserve where
  content := rfl
  name := rfl
  identity := rfl
  readable := ⟨by decide +kernel, by decide +kernel, by decide +kernel, by decide +kernel⟩
  distinct := by decide +kernel
  onDisk b hb := by
    have hall : (backings reserveState.entries ++ reserve).all (· < 34) = true := by decide +kernel
    have hlow : b < 34 := of_decide_eq_true (List.all_eq_true.mp hall b hb)
    exact ⟨hlow, [0x31, 0x38], if_pos hlow⟩

/-- A relation file and a WAL file are created and written, in this order, and the sync
that follows has flushed both. -/
def backedWalRun : List Action :=
  [.request (.open ["base", "1"] ⟨true, false, true, false, false⟩) noFailure,
    .request (.write 1 0 [7]) noFailure,
    .request (.open ["pg_wal", "000000010000000000000002"] ⟨true, false, true, false, false⟩)
      noFailure,
    .request (.write 2 0 [1]) noFailure,
    .sync .full [32, 33], .flushNext none, .flushNext none]

/-- Both files have a backing: the WAL file is flushed first although it was created last. -/
theorem sync_flushes_wal_first_backed :
    ∃ s, run (step "db" wasixPhysicalIdentity) (hydrated reserveDisk reserveState reserve)
        backedWalRun = some s ∧
      s.events.map Event.path = [some ["pg_wal", "000000010000000000000002"], some ["base", "1"]] ∧
      WalFirst s := by
  refine exists_run (f := fun s => s.events.map Event.path)
    (v := [some ["pg_wal", "000000010000000000000002"], some ["base", "1"]]) (by decide +kernel)
    fun s hrun hevents => ?_
  exact ⟨hevents, sync_flushes_wal_first reserveDisk_openable (by decide +kernel) hrun⟩

/-- The reserve is used up by 32 relation files, so that the WAL file after them is staged.
A full sync then flushes the relation files before it writes the WAL file. -/
def stagedWalRun : List Action :=
  (List.range preopenedFileReserve).map (fun i =>
      .request (.open ["base", toString i] ⟨true, false, true, false, false⟩) noFailure) ++
    [.request (.open ["pg_wal", "000000010000000000000002"] ⟨true, false, true, false, false⟩)
        noFailure,
      .request (.write 33 0 [1]) noFailure,
      .sync .full (34 :: reserve.reverse)] ++
    List.replicate 33 (.flushNext none) ++
    [.materialize [34], .start true, .advance 0 true [], .advance 0 true [], .advance 0 true [],
      .materialized [], .publish true, .start false, .settle]

/-- The sync has succeeded, and the WAL file that was dirty at its start was written after
the flush of 32 data files. -/
theorem staged_wal_flushed_late :
    ∃ s, run (step "db" wasixPhysicalIdentity) (hydrated reserveDisk reserveState reserve)
      stagedWalRun = some s ∧ s.outcome = some true ∧ ¬ WalFirst s := by
  refine exists_run (f := fun s => (s.outcome, s.started.map fun start =>
    (start.1, decide (Ordered start.2 s.events)))) (v := (some true, some (.full, false)))
    (by decide +kernel) fun s _ hs => ?_
  obtain ⟨houtcome, hstarted⟩ := Prod.mk.inj hs
  obtain ⟨⟨boundary, dirty⟩, hstart, hlate⟩ := map_eq_some_iff.mp hstarted
  obtain ⟨rfl, hlate⟩ := Prod.mk.inj hlate
  refine ⟨houtcome, ?_⟩
  intro hfirst
  exact of_decide_eq_false hlate (hfirst .full dirty hstart (by decide))

end Oliphaunt.OpfsPool
