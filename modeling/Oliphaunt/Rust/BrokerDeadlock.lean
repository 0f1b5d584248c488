import Oliphaunt.Rust.BrokerExchange

/-!
# The exchange loop does not wait for nothing

While the loop takes the input of a running stream for closed, and while a stream
that was started with a Query runs, a ReadyForQuery is on its way: it has been
sent, the backend owes it for a COPY, or a Query or Sync that will be answered
still lies before the backend (`Due`).

A Query is answered only if the backend does not skip it. `Unskipped` follows the
frames that have been read and says that no Query stands behind a message of the
extended protocol without a Sync between them.

* `exchange_never_deadlocks` — no deadlock in a run under `SimpleCopyOnly`;
* `exchange_deadlocks_after_copy` — three runs with one.
-/

namespace Oliphaunt.BrokerExchange

open FrontendProtocol Transition List

/-- Whether the backend may be skipping after a frame. -/
def mayskip (skip : Bool) : Kind → Bool
  | .query | .sync => false
  | .extended | .execute => true
  | _ => skip

/-- No Query is met while the backend may be skipping. -/
def Unskipped : Bool → List Kind → Prop
  | _, [] => True
  | skip, frame :: rest => (frame = .query → skip = false) ∧ Unskipped (mayskip skip frame) rest

/-- Whether the backend may be skipping after all the frames. -/
def endsSkipping (skip : Bool) (frames : List Kind) : Bool := frames.foldl mayskip skip

theorem unskipped_mono {b c : Bool} (hle : b = true → c = true) {frames : List Kind}
    (h : Unskipped c frames) : Unskipped b frames := by
  induction frames generalizing b c with
  | nil => trivial
  | cons frame rest ih =>
    obtain ⟨hframe, hrest⟩ := h
    refine ⟨fun hquery => ?_, ?_⟩
    · rw [← Bool.not_eq_true]
      intro hb
      rw [hframe hquery] at hle
      exact Bool.false_ne_true (hle hb)
    · cases frame with
      | query | sync | extended | execute => exact hrest
      | _ => exact ih hle hrest

theorem endsSkipping_mono {b c : Bool} (hle : b = true → c = true) {frames : List Kind}
    (h : endsSkipping b frames = true) : endsSkipping c frames = true := by
  induction frames generalizing b c with
  | nil => exact hle h
  | cons frame rest ih =>
    cases frame with
    | query | sync | extended | execute => exact h
    | _ => exact ih hle h

theorem unskipped_append {frames more : List Kind} {skip : Bool} :
    Unskipped skip (frames ++ more) ↔
      Unskipped skip frames ∧ Unskipped (endsSkipping skip frames) more := by
  induction frames generalizing skip with
  | nil => simp [Unskipped, endsSkipping]
  | cons frame rest ih =>
    rw [cons_append, Unskipped, Unskipped, ih, and_assoc]
    rfl

/-- No Query is met while the backend may be skipping, and after the frames it may skip
only in an open series. -/
structure Expected (skip : Bool) (frames : List Kind) (openSeries : Bool) : Prop where
  unskipped : Unskipped skip frames
  series : endsSkipping skip frames = true → openSeries = true

variable {mode : Mode} {frame : Kind} {outcome : Verdict} {skip series : Bool}

theorem Expected.read {frames : List Kind} (h : Expected skip frames series)
    (hquery : frame = .query → series = false) :
    Expected skip (frames ++ [frame]) (nextSeries series frame) := by
  refine ⟨unskipped_append.mpr ⟨h.unskipped, fun hframe => ?_, trivial⟩, ?_⟩
  · rw [← Bool.not_eq_true]
    intro hends
    exact Bool.false_ne_true ((hquery hframe).symm.trans (h.series hends))
  · rw [endsSkipping, foldl_append]
    intro hends
    cases frame with
    | query | sync => exact hends
    | extended | execute => rfl
    | _ => exact h.series hends

theorem Expected.tail {frames : List Kind} {b : Bool} (h : Expected skip (frame :: frames) series)
    (hskip : b = true → mayskip skip frame = true) : Expected b frames series :=
  ⟨unskipped_mono hskip h.unskipped.2, fun hends => h.series (endsSkipping_mono hskip hends)⟩

/-- The backend skips after a frame only where that was to be expected. -/
theorem mayskip_of_react (hmode : mode ≠ .copyIn true) (hskip : frame = .query → mode ≠ .skipping)
    (h : (react mode frame outcome).1 = .skipping) :
    mayskip (mode = .skipping) frame = true := by
  cases mode with
  | normal => cases frame <;> cases outcome <;> simp_all [react, mayskip]
  | skipping => cases frame <;> cases outcome <;> simp_all [react, mayskip]
  | closed => cases frame <;> cases outcome <;> simp_all [react]
  | copyIn extended =>
    cases extended with
    | true => exact absurd rfl hmode
    | false => cases frame <;> cases outcome <;> simp_all [react, copyFailed]

theorem react_not_copyIn
    (hmode : mode ≠ .copyIn true) (hexecute : frame = .execute → outcome ≠ .copyIn) :
    (react mode frame outcome).1 ≠ .copyIn true := by
  cases mode with
  | normal => cases frame <;> cases outcome <;> simp_all [react]
  | skipping => cases frame <;> cases outcome <;> simp_all [react]
  | closed => cases frame <;> cases outcome <;> simp_all [react]
  | copyIn extended =>
    cases extended with
    | true => exact absurd rfl hmode
    | false => cases frame <;> cases outcome <;> simp_all [react, copyFailed]

/-- A COPY of a Query goes on, or ends with a ReadyForQuery. -/
theorem react_copyIn (frame : Kind) (outcome : Verdict) :
    (react (.copyIn false) frame outcome).2 = true ∨
      (react (.copyIn false) frame outcome).1 = .closed ∨
      (react (.copyIn false) frame outcome).1 = .copyIn false := by
  cases frame <;> cases outcome <;> simp [react, copyFailed]

/-- A backend that reads COPY data of a Query after a frame was asked for them by it, or
read them before; the data were not ended then. -/
theorem copyIn_of_react (h : (react mode frame outcome).1 = .copyIn false) :
    outcome = .copyIn ∨ mode = .copyIn false ∧ frame ≠ .copyDone ∧ frame ≠ .copyFail := by
  cases mode with
  | normal | skipping | closed => cases frame <;> cases outcome <;> simp_all [react]
  | copyIn extended =>
    cases extended <;> cases frame <;> cases outcome <;> simp_all [react, copyFailed]

/-- A Query or Sync that is not skipped is answered, or starts a COPY. -/
theorem react_boundary (hmode : mode ≠ .copyIn true) (hframe : frame = .query ∨ frame = .sync)
    (hskip : frame = .query → mode ≠ .skipping) :
    (react mode frame outcome).2 = true ∨ (react mode frame outcome).1 = .closed ∨
      (react mode frame outcome).1 = .copyIn false := by
  cases mode with
  | normal => rcases hframe with rfl | rfl <;> cases outcome <;> simp [react]
  | skipping =>
    rcases hframe with rfl | rfl
    · exact absurd rfl (hskip rfl)
    · cases outcome <;> simp [react]
  | closed => rcases hframe with rfl | rfl <;> cases outcome <;> simp [react]
  | copyIn extended =>
    cases extended with
    | true => exact absurd rfl hmode
    | false => exact react_copyIn frame outcome

def Job.frames : Job → List Kind
  | .queued frame => [frame]
  | _ => []

def Loop.frames : Loop → List Kind
  | .receiving frame | .feeding frame => [frame]
  | _ => []

/-- The frames that were read from the client and not yet processed. -/
def State.pending (s : State) : List Kind := s.delivered ++ s.job.frames ++ s.loop.frames

/-- A ReadyForQuery is on its way. -/
def Due (s : State) : Prop :=
  .ready ∈ s.unwritten ∨ s.mode = .closed ∨ s.mode = .copyIn false ∨
    ∃ frame ∈ s.delivered, frame = .query ∨ frame = .sync

/-- The job, as long as it is under way, is that of a Query. -/
def ByQuery : Job → Prop
  | .queued frame => frame = .query
  | .executing st => st.first = .query
  | _ => True

structure Inv (s : State) : Prop where
  expected : Expected (s.mode = .skipping) s.pending s.openSeries
  simple : s.mode ≠ .copyIn true
  receiving : ∀ frame, s.loop = .receiving frame → isCopy frame = false ∧ s.closedInput = true
  copying : s.mode = .copyIn false → s.loop.isReceiving = true → s.copyEnds = true
  feeding : ∀ frame, s.loop = .feeding frame → (frame = .copyDone ∨ frame = .copyFail) →
    ByQuery s.job
  queued : ∀ frame, s.job = .queued frame → s.closedInput = true → frame = .query ∨ frame = .sync
  due : ∀ st, s.job = .executing st → st.ready = false →
    (s.closedInput = true ∨ st.first = .query) → Due s

theorem inv_init : Inv State.init where
  expected := ⟨trivial, by decide⟩
  simple := by decide
  receiving := by simp [State.init]
  copying := by simp [State.init]
  feeding := by simp [State.init]
  queued := by simp [State.init]
  due := by simp [State.init]

variable {s : State}

/-- In the invariant somebody can act. -/
theorem Inv.not_deadlocked (hinv : Inv s) : deadlocked s = false := by
  cases hloop : s.loop with
  | reading => simp only [deadlocked, hloop]
  | feeding frame => simp only [deadlocked, hloop]
  | ended => simp only [deadlocked, hloop]
  | receiving frame =>
    cases hjob : s.job with
    | idle => simp only [deadlocked, hloop, hjob]
    | queued first => simp only [deadlocked, hloop, hjob]
    | replied ok => simp only [deadlocked, hloop, hjob]
    | executing st =>
      cases hready : st.ready with
      | true => simp [deadlocked, hloop, hjob, hready]
      | false =>
        have hdue := hinv.due st hjob hready (.inl (hinv.receiving frame hloop).2)
        have hbusy : ∀ first ∈ s.delivered, deadlocked s = false := by
          intro first hmem
          rcases mem_append.mp hmem with hmem | hmem
          · have hne : s.received ≠ [] := ne_nil_of_mem hmem
            simp [deadlocked, hloop, hjob, hne]
          · have hne : s.input ≠ none := by
              intro hnone
              rw [hnone] at hmem
              cases hmem
            simp [deadlocked, hloop, hjob, hne]
        rcases hdue with hsent | hclosed | hcopy | ⟨first, hmem, -⟩
        · simp [deadlocked, hloop, hjob, hsent]
        · simp [deadlocked, hloop, hjob, hclosed]
        · obtain ⟨first, hmem, -⟩ := any_eq_true.mp (hinv.copying hcopy (by rw [hloop]; rfl))
          exact hbusy first hmem
        · exact hbusy first hmem

/-- The connection is over: the loop has ended, or will at its next look at the job. -/
def Over (s : State) : Prop := s.loop = .ended ∨ s.job = .replied false

theorem Due.mono {t : State} (h : Due s) (hunwritten : .ready ∈ s.unwritten → .ready ∈ t.unwritten)
    (hmode : t.mode = s.mode)
    (hdelivered : ∀ frame ∈ s.delivered, frame ∈ t.delivered) : Due t := by
  rw [Due, hmode]
  exact h.imp hunwritten (Or.imp_right (Or.imp_right fun ⟨frame, hmem, hkind⟩ =>
    ⟨frame, hdelivered frame hmem, hkind⟩))

/-- A step of the worker or the backend that moves frames, without processing one. -/
theorem Inv.moved (hinv : Inv s) (job : Job) (input : Option Kind) {received : List Kind}
    {unwritten : List Message}
    (hpending : received ++ input.toList ++ job.frames ++ s.loop.frames = s.pending)
    (hdelivered : ∀ frame ∈ s.delivered, frame ∈ received ++ input.toList)
    (hfeeding : ByQuery s.job → ByQuery job)
    (hqueued : ∀ frame, job = .queued frame → s.job = .queued frame)
    (hdue : ∀ st, job = .executing st → st.ready = false →
      (s.closedInput = true ∨ st.first = .query) →
      Due { s with job := job, input := input, received := received, unwritten := unwritten }) :
    Inv { s with job := job, input := input, received := received, unwritten := unwritten } :=
  { hinv with
    expected := by
      show Expected _ (received ++ input.toList ++ job.frames ++ s.loop.frames) _
      rw [hpending]
      exact hinv.expected
    copying := fun hmode hloop => by
      obtain ⟨frame, hmem, hends⟩ := any_eq_true.mp (hinv.copying hmode hloop)
      exact any_eq_true.mpr ⟨frame, hdelivered frame hmem, hends⟩
    feeding := fun frame hframe hcopy => hfeeding (hinv.feeding frame hframe hcopy)
    queued := fun frame hframe => hinv.queued frame (hqueued frame hframe)
    due := hdue }

/-- A stream starts with a frame that leads to a ReadyForQuery. -/
theorem inv_start (hexpected : Expected (s.mode = .skipping) (s.delivered ++ [frame]) series)
    (hsimple : s.mode ≠ .copyIn true)
    (hframe : closesInput frame = true → frame = .query ∨ frame = .sync) :
    Inv { s.start frame with openSeries := series } where
  expected := by
    show Expected _ (s.delivered ++ [frame] ++ []) _
    rw [append_nil]
    exact hexpected
  simple := hsimple
  receiving := by simp [State.start]
  copying := by simp [State.start, Loop.isReceiving]
  feeding := by simp [State.start]
  queued := by
    intro first hfirst hclosed
    obtain rfl := Job.queued.inj hfirst
    exact hframe hclosed
  due := by simp [State.start]

theorem closesInput_cases (h : closesInput frame = true) :
    (frame = .query ∨ frame = .sync) ∨ (frame = .copyDone ∨ frame = .copyFail) := by
  cases frame <;> simp_all [closesInput]

/-- The loop keeps its frame until the stream is over or takes it. -/
theorem inv_hold {loop : Loop} (hinv : Inv s)
    (hreading : s.loop = .reading) (hloop : loop = .receiving frame ∨ loop = .feeding frame)
    (hexpected : Expected (s.mode = .skipping) (s.pending ++ [frame]) series)
    (hreceiving : loop = .receiving frame → isCopy frame = false ∧ s.closedInput = true)
    (hcopying : s.mode = .copyIn false → loop.isReceiving = true → s.copyEnds = true)
    (hfeeding : (frame = .copyDone ∨ frame = .copyFail) → ByQuery s.job) :
    Inv { s with loop := loop, openSeries := series } :=
  { hinv with
    expected := by
      have hframes : s.pending ++ [frame] = s.delivered ++ s.job.frames ++ loop.frames := by
        rw [State.pending, hreading]
        rcases hloop with rfl | rfl <;> simp [Loop.frames]
      rw [hframes] at hexpected
      exact hexpected
    receiving := by
      intro other hother
      rcases hloop with rfl | rfl
      · obtain rfl := Loop.receiving.inj hother
        exact hreceiving rfl
      · cases hother
    copying := hcopying
    feeding := by
      intro other hother hcopy
      rcases hloop with rfl | rfl
      · cases hother
      · obtain rfl := Loop.feeding.inj hother
        exact hfeeding hcopy }

theorem byQuery_of_queryRuns {job : Job} (h : queryRuns job = true) : ByQuery job := by
  cases job with
  | idle => trivial
  | queued frame => cases frame <;> first | rfl | cases h
  | executing st =>
    show st.first = .query
    exact of_decide_eq_true h
  | replied ok => trivial

section

variable (hinv : Inv s)

include hinv

/-- The frame just read is started, held or fed. -/
theorem inv_dispatch (hreading : s.loop = .reading)
    (hexpected : Expected (s.mode = .skipping) (s.pending ++ [frame]) series)
    (hcopy : (frame = .copyDone ∨ frame = .copyFail) → queryRuns s.job = true)
    (hcopying : s.mode = .copyIn false →
      (State.dispatch { s with openSeries := series } s.job frame).loop.isReceiving = true →
      s.copyEnds = true) :
    Inv (State.dispatch { s with openSeries := series } s.job frame) := by
  rw [State.dispatch] at hcopying ⊢
  by_cases hidle : s.job = .idle
  · rw [if_pos hidle]
    have hpending : s.pending = s.delivered := by
      simp [State.pending, hreading, hidle, Job.frames, Loop.frames]
    rw [hpending] at hexpected
    refine inv_start hexpected hinv.simple fun hcloses => ?_
    rcases closesInput_cases hcloses with h | h
    · exact h
    · have hruns := hcopy h
      rw [hidle] at hruns
      cases hruns
  · have hby := fun h => byQuery_of_queryRuns (hcopy h)
    split_ifs at hcopying ⊢ with hclosed
    · exact inv_hold (s := s) hinv hreading (.inl rfl) hexpected
        (fun _ => ⟨by simpa using hclosed.2, hclosed.1⟩) hcopying hby
    · exact inv_hold (s := s) hinv hreading (.inr rfl) hexpected nofun hcopying hby

/-- An answered job is as good as none. -/
theorem Inv.forget {ok : Bool} (hjob : s.job = .replied ok) : Inv { s with job := .idle } := by
  refine hinv.moved _ s.input ?_ (fun _ => id) (fun _ => trivial) (by simp) (by simp)
  rw [State.pending, hjob]
  rfl

/-- The loop reads one frame from the client. -/
theorem inv_read (hreading : s.loop = .reading) (hok : SimpleCopyOnly s (.read frame)) :
    Over (s.read frame) ∨ Inv (s.read frame) := by
  obtain ⟨hcopy, hquery, hcopying⟩ := hok
  have hexpected := hinv.expected.read hquery
  have hdispatch := inv_dispatch hinv hreading hexpected hcopy
  rw [State.read] at hcopying ⊢
  split_ifs at hcopying ⊢ with hterminate
  · exact .inl (.inl rfl)
  · cases hjob : s.job with
    | idle | queued first | executing st =>
      rw [hjob] at hdispatch hcopying
      exact .inr (hdispatch hcopying)
    | replied ok =>
      cases ok with
      | false => exact .inl (.inl rfl)
      | true =>
        have hnone : (frame = .copyDone ∨ frame = .copyFail) → queryRuns .idle = true := by
          intro h
          have hruns := hcopy h
          rw [hjob] at hruns
          cases hruns
        rw [hjob] at hcopying
        refine Or.inr (inv_dispatch (hinv.forget hjob) hreading ?_ hnone hcopying)
        rw [State.pending, hjob] at hexpected
        exact hexpected

variable {t : State}

theorem inv_done (hstep : step s .done = some t) : Over t ∨ Inv t := by
  rw [step] at hstep
  split at hstep
  · next frame hloop hjob =>
    cases hstep
    have hexpected := hinv.expected
    rw [State.pending, hloop, hjob] at hexpected
    refine .inr (inv_start (by simpa [Job.frames, Loop.frames] using hexpected) hinv.simple ?_)
    have hplain := (hinv.receiving frame hloop).1
    cases frame <;> simp_all [closesInput, isCopy]
  · cases hstep
    exact .inl (.inl rfl)
  · cases hstep

theorem inv_feed (hloop : s.loop = .feeding frame) : Over (s.feed frame) ∨ Inv (s.feed frame) := by
  rw [State.feed]
  split
  · next st hjob =>
    split_ifs with hactive hbusy
    · exact .inr hinv
    · split
      · exact .inl (.inl rfl)
      · next st' hfeed =>
        have hinput : s.input = none := by simpa using hbusy
        have hready : st.ready = false := by
          rw [Stream.active, Bool.and_eq_true] at hactive
          simpa using hactive.1
        have hfirst : st'.first = st.first := by
          rw [Stream.feed] at hfeed
          split_ifs at hfeed <;> cases hfeed <;> rfl
        have hexpected := hinv.expected
        rw [State.pending, State.delivered, hinput, hjob, hloop] at hexpected
        -- a stream of a Query is due an answer already
        have hquery : st.first = .query → Due { s with
            loop := .reading
            job := .executing st'
            input := some frame
            closedInput := closesInput frame } := fun h =>
          (hinv.due st hjob hready (.inr h)).mono id rfl (by simp_all [State.delivered])
        refine .inr ⟨?_, hinv.simple, by simp, by simp [Loop.isReceiving], by simp, by simp, ?_⟩
        · simpa [State.pending, State.delivered, Job.frames, Loop.frames] using hexpected
        · intro other hother _ hclosed
          obtain rfl := Job.executing.inj hother
          rcases hclosed with hclosed | hclosed
          · rcases closesInput_cases hclosed with h | h
            · exact .inr (.inr (.inr ⟨frame, by simp [State.delivered], h⟩))
            · have hby := hinv.feeding frame hloop h
              rw [hjob] at hby
              exact hquery hby
          · exact hquery (hfirst ▸ hclosed)
    · exact .inr hinv
  · exact .inl (.inl rfl)
  · exact .inr hinv

/-! ## Steps of the worker and the backend -/

theorem inv_take (hstep : step s .take = some t) : Over t ∨ Inv t := by
  rw [step] at hstep
  split at hstep <;> try cases hstep
  · next frame hjob =>
    split_ifs at hstep with hbusy <;> cases hstep
    · exact .inl (.inr rfl)
    · have hinput : s.input = none := by simpa using hbusy
      refine .inr (hinv.moved _ _ ?_ ?_ ?_ (by simp) ?_)
      · simp [State.pending, State.delivered, hinput, hjob, Job.frames]
      · simp_all [State.delivered]
      · rw [hjob]
        exact id
      · intro st hst _ hclosed
        obtain rfl := Job.executing.inj hst
        refine .inr (.inr (.inr ⟨frame, by simp [State.delivered], ?_⟩))
        rcases hclosed with hclosed | hclosed
        · exact hinv.queued frame hjob hclosed
        · exact .inl hclosed

theorem inv_finish (hstep : step s .finish = some t) : Over t ∨ Inv t := by
  rw [step] at hstep
  split at hstep <;> try cases hstep
  · next st hjob =>
    split_ifs at hstep with hready hclosed <;> cases hstep
    · refine .inr (hinv.moved _ s.input ?_ (fun _ => id) (fun _ => trivial) (by simp) (by simp))
      rw [State.pending, hjob]
      rfl
    · exact .inl (.inr rfl)

theorem inv_pull (hstep : step s .pull = some t) : Inv t := by
  rw [step] at hstep
  split at hstep
  · next frame hinput =>
    cases hstep
    refine hinv.moved s.job _ ?_ ?_ id (fun _ => id) ?_
    · simp [State.pending, State.delivered, hinput]
    · simp [State.delivered, hinput]
    · intro st hst hready hclosed
      exact (hinv.due st hst hready hclosed).mono id rfl (by simp [State.delivered, hinput])
  · cases hstep

end

/-- A frame is processed: what is on its way stays on its way. -/
theorem Due.process {rest : List Kind}
    {messages : List Message} (hdue : Due s) (hreceived : s.received = frame :: rest)
    (hmode : s.mode ≠ .copyIn true) (hopen : s.mode ≠ .closed)
    (hskip : frame = .query → s.mode ≠ .skipping) :
    Due { s with
      received := rest
      mode := (react s.mode frame outcome).1
      unwritten := s.unwritten ++ messages ++
        if (react s.mode frame outcome).2 then [.ready] else [] } := by
  have hanswered : (react s.mode frame outcome).2 = true ∨
      (react s.mode frame outcome).1 = .closed ∨
      (react s.mode frame outcome).1 = .copyIn false → Due { s with
        received := rest
        mode := (react s.mode frame outcome).1
        unwritten := s.unwritten ++ messages ++
          if (react s.mode frame outcome).2 then [.ready] else [] } := by
    rintro (h | h | h)
    · refine .inl (mem_append_right _ ?_)
      rw [h]
      exact .head _
    · exact .inr (.inl h)
    · exact .inr (.inr (.inl h))
  rcases hdue with h | h | h | ⟨k, hk, hkind⟩
  · exact .inl (mem_append_left _ (mem_append_left _ h))
  · exact absurd h hopen
  · refine hanswered ?_
    rw [h]
    exact react_copyIn frame outcome
  · rw [State.delivered, hreceived, cons_append, mem_cons] at hk
    rcases hk with rfl | hk
    · exact hanswered (react_boundary hmode hkind hskip)
    · exact .inr (.inr (.inr ⟨k, hk, hkind⟩))

/-- The backend processes one frame; a COPY of an Execute is excluded. -/
theorem inv_process {messages : List Message} (hinv : Inv s)
    (hok : SimpleCopyOnly s (.process outcome messages))
    (hstep : step s (.process outcome messages) = some t) : Inv t := by
  rw [step] at hstep
  split at hstep <;> try cases hstep
  · next frame rest hreceived =>
    split_ifs at hstep with hblocked
    rw [not_or] at hblocked
    cases hstep
    have hasked : outcome = .copyIn → frame ≠ .execute ∧ s.loop.isReceiving = false := by
      rintro rfl
      refine ⟨?_, hok.2⟩
      rintro rfl
      exact hok.1 (by rw [hreceived]; rfl)
    have hexpected := hinv.expected
    rw [State.pending, State.delivered, hreceived] at hexpected
    have hskip : frame = .query → s.mode ≠ .skipping := fun hframe =>
      of_decide_eq_false (hexpected.unskipped.1 hframe)
    exact
      { hinv with
        -- the frames behind it meet a backend that skips only if that was to be expected
        expected := hexpected.tail fun h => mayskip_of_react hinv.simple hskip (of_decide_eq_true h)
        simple := react_not_copyIn hinv.simple fun hframe hcopy => (hasked hcopy).1 hframe
        copying := fun hcopy hloop => by
          rcases copyIn_of_react hcopy with hcopy | ⟨hbefore, hdone, hfail⟩
          · rw [(hasked hcopy).2] at hloop
            cases hloop
          · -- the frame was not the end of the data, which still lies before the backend
            have hends := hinv.copying hbefore hloop
            simpa [State.copyEnds, State.delivered, hreceived, hdone, hfail] using hends
        due := fun st hst hready hclosed =>
          (hinv.due st hst hready hclosed).process hreceived hinv.simple hblocked.1 hskip }

theorem inv_write (hinv : Inv s) (hstep : step s .write = some t) : Inv t := by
  rw [step] at hstep
  split at hstep <;> try cases hstep
  · next message rest hunwritten =>
    split at hstep
    · next st hjob =>
      cases hstep
      have hfirst : (st.scan message).first = st.first := by cases message <;> rfl
      refine hinv.moved _ s.input ?_ (fun _ => id) ?_ (by simp) ?_
      · rw [State.pending, hjob]
        rfl
      · rw [hjob]
        exact hfirst.trans
      · intro other hother hready hclosed
        obtain rfl := Job.executing.inj hother
        have hmessage : message ≠ .ready := by
          rintro rfl
          cases hready
        have hold : st.ready = false := by
          cases message with
          | ready => exact absurd rfl hmessage
          | copyIn | error | other => exact hready
        rw [hfirst] at hclosed
        refine (hinv.due st hjob hold hclosed).mono (fun h => ?_) rfl fun _ => id
        rw [hunwritten, mem_cons] at h
        exact h.resolve_left (Ne.symm hmessage)
    · next hnone =>
      cases hstep
      exact { hinv with due := fun st hst => absurd hst (hnone st) }

variable {a : Action}

theorem step_loop
    (ha : a = .take ∨ a = .finish ∨ a = .pull ∨ (∃ o ms, a = .process o ms) ∨ a = .write)
    (hstep : step s a = some t) : t.loop = s.loop := by
  rcases ha with rfl | rfl | rfl | ⟨o, ms, rfl⟩ | rfl <;> rw [step] at hstep <;>
    repeat' split at hstep
  all_goals first | (obtain rfl := Option.some.inj hstep; rfl) | cases hstep

theorem step_replied (hjob : s.job = .replied false)
    (ha : a = .pull ∨ (∃ o ms, a = .process o ms) ∨ a = .write)
    (hstep : step s a = some t) : t.job = .replied false := by
  rcases ha with rfl | ⟨o, ms, rfl⟩ | rfl <;> rw [step] at hstep <;> repeat' split at hstep
  all_goals first
    | (obtain rfl := Option.some.inj hstep; exact hjob)
    | (next st hst => rw [hjob] at hst; cases hst)
    | cases hstep

/-- An exchange that is over stays over. -/
theorem over_step (hover : Over s) (hstep : step s a = some t) :
    Over t := by
  rcases hover with hloop | hjob
  · cases a with
    | read frame => rw [step, if_neg (by rw [hloop]; simp)] at hstep; cases hstep
    | done | feed | feedError => simp [step, hloop] at hstep
    | take => exact .inl ((step_loop (by simp) hstep).trans hloop)
    | finish => exact .inl ((step_loop (by simp) hstep).trans hloop)
    | pull => exact .inl ((step_loop (by simp) hstep).trans hloop)
    | process o ms => exact .inl ((step_loop (by simp) hstep).trans hloop)
    | write => exact .inl ((step_loop (by simp) hstep).trans hloop)
  · cases a with
    | read frame =>
      rw [step] at hstep
      split_ifs at hstep
      cases hstep
      rw [State.read, hjob]
      split_ifs <;> exact .inl rfl
    | done =>
      rw [step, hjob] at hstep
      split at hstep <;> try cases hstep
      · next heq => cases heq
      · exact .inl rfl
    | feed =>
      rw [step] at hstep
      split at hstep <;> cases hstep
      rw [State.feed, hjob]
      exact .inl rfl
    | feedError =>
      rw [step] at hstep
      split at hstep <;> cases hstep
      exact .inl rfl
    | take | finish => simp [step, hjob] at hstep
    | pull => exact .inr (step_replied hjob (by simp) hstep)
    | process o ms => exact .inr (step_replied hjob (by simp) hstep)
    | write => exact .inr (step_replied hjob (by simp) hstep)

/-- **Every step keeps a ReadyForQuery due**, under `SimpleCopyOnly`. -/
theorem inv_step (s : State) (a : Action) (t : State) (hinv : Over s ∨ Inv s)
    (hok : SimpleCopyOnly s a) (hstep : step s a = some t) : Over t ∨ Inv t := by
  rcases hinv with hover | hinv
  · exact .inl (over_step hover hstep)
  · cases a with
    | read frame =>
      rw [step] at hstep
      split_ifs at hstep with hreading
      cases hstep
      exact inv_read hinv hreading hok
    | done => exact inv_done hinv hstep
    | feed =>
      rw [step] at hstep
      split at hstep
      · next frame hloop =>
        cases hstep
        exact inv_feed hinv hloop
      · cases hstep
    | feedError =>
      rw [step] at hstep
      split at hstep <;> cases hstep
      exact .inl (.inl rfl)
    | take => exact inv_take hinv hstep
    | finish => exact inv_finish hinv hstep
    | pull => exact .inr (inv_pull hinv hstep)
    | process outcome messages => exact .inr (inv_process hinv hok hstep)
    | write => exact .inr (inv_write hinv hstep)

/-- **No deadlock.** In every run in which COPY data is ended only in the stream of its
own Query and before any other frame is read, no Execute starts a COPY and no Query
stands in an open series, the loop never waits for a stream whose backend waits for
input and owes no ReadyForQuery. -/
theorem exchange_never_deadlocks {schedule : List Action} {s : State}
    (hcopy : Along step SimpleCopyOnly State.init schedule)
    (hrun : run step State.init schedule = some s) : deadlocked s = false := by
  have hinv : Over s ∨ Inv s := run_invariant_along inv_step (.inr inv_init) hcopy hrun
  rcases hinv with (hloop | hjob) | hinv
  · simp only [deadlocked, hloop]
  · simp [deadlocked, hjob]
  · exact hinv.not_deadlocked

/-- A frame given to the backend, processed, and its messages written. -/
def served (outcome : Verdict) (messages : List Message) (writes : Nat) : List Action :=
  [.pull, .process outcome messages] ++ List.replicate writes .write

/-- A COPY from a Query that succeeds, then another Query that is read before the
end of the COPY is seen. -/
theorem exchange_never_deadlocks_simple_copy :
    let schedule : List Action :=
      [.read .query, .take] ++ served .copyIn [.copyIn] 1 ++
      [.read .copyData, .feed] ++ served .ok [] 0 ++
      [.read .copyDone, .feed, .pull, .read .query, .process .ok [.other], .write, .write]
    ∃ s, run step State.init schedule = some s ∧ s.loop = .receiving .query ∧
      deadlocked s = false := by
  intro schedule
  have hcopy : Along step SimpleCopyOnly State.init schedule := by decide +kernel
  refine exists_run (f := State.loop) (v := .receiving .query) (by decide +kernel)
    fun s hs hreceiving => ?_
  exact ⟨hreceiving, exchange_never_deadlocks hcopy hs⟩

/-- Three clients that keep to the protocol. The first sends Parse, Bind and Execute
for a COPY, its data, CopyDone and the Sync that is to end the series: the loop
waits for the end of the stream before it passes the Sync on. The second sends a
COPY as a Query that fails at its first row, then the rest of its data and
CopyDone, which nobody answers, and its next Query. The third sends a Sync, which
PostgreSQL would ignore, during the COPY of a Query. -/
theorem exchange_deadlocks_after_copy :
    ((run step State.init
      ([.read .extended, .take] ++ served .ok [.other] 1 ++
        [.read .extended, .feed] ++ served .ok [.other] 1 ++
        [.read .execute, .feed] ++ served .copyIn [.copyIn] 1 ++
        [.read .copyData, .feed] ++ served .ok [] 0 ++
        [.read .copyDone, .feed] ++ served .ok [.other] 1 ++ [.read .sync])).map deadlocked =
      some true) ∧
    ((run step State.init
      ([.read .query, .take] ++ served .copyIn [.copyIn] 1 ++
        [.read .copyData, .feed] ++ served .fail [.error] 2 ++ [.finish] ++
        [.read .copyData, .take] ++ served .ok [] 0 ++
        [.read .copyDone, .feed] ++ served .ok [] 0 ++ [.read .query])).map deadlocked =
      some true) ∧
    (run step State.init
      ([.read .query, .take] ++ served .copyIn [.copyIn] 1 ++ [.read .sync])).map deadlocked =
      some true := by
  decide +kernel

end Oliphaunt.BrokerExchange
