import Oliphaunt.TS.WasixTransaction

/-!
# Oliphaunt — a WASIX callback transaction is one PostgreSQL transaction

The guard of a callback transaction has two halves: `assertNoTransactionChain`
refuses texts before they are sent, `inspectManagedTransactionResponse` refuses
their responses. Together they are to make sure that PostgreSQL stays in the
block that `BEGIN` opened, so that what `COMMIT` commits is all the callback did.

They do, except for two kinds of text (`SplitsBlock`):

* `COMMIT … AND CHAIN` sent while the block is failed. The scan looks for
  `ROLLBACK` and `ABORT` only, and the failed block ends with the tag `ROLLBACK`
  in a new block, which the response check takes for a rollback to a savepoint;
* a chained rollback behind something that the scan and PostgreSQL read
  differently (`ChainRead`): a whitespace character of the scan that PostgreSQL
  takes for a letter, or a string, bit string or number whose end they see at
  different places.

* `inside_of_known` — a text whose response passes the check stays in the block;
* `inv_step` — every step that does not split the block keeps the invariant;
* `callback_is_one_transaction` — so a callback transaction is one transaction;
* `callback_spans_two_transactions` — the two kinds of text split it.
-/

namespace Oliphaunt.WasixTs

open TransactionBlock Sql Transition List

def State.Healthy (s : State) : Prop :=
  s.transactionFailure = none ∧ s.persistenceFailure = none

/-- PostgreSQL is inside the block that `BEGIN` opened. -/
def State.InOpenedBlock (s : State) : Prop :=
  ∃ b, s.postgres.block = some b ∧ s.openedBlock = some b.id

/-- One block was committed, the one that `BEGIN` opened, and everything that succeeded
and was not undone belongs to it. -/
def State.CommittedWhole (s : State) : Prop :=
  ∃ b, s.openedBlock = some b ∧ s.postgres.committed = [b] ∧ ∀ e ∈ s.postgres.done, e.2 = b

/-- While every response has passed and `rollback()` has not ended it, the callback's
transaction is the one that `BEGIN` opened; if it commits, it commits everything. -/
def State.OneTransaction (s : State) : Prop :=
  (s.phase.isOpen = true → s.Healthy → s.rollbackAttempt = none → s.InOpenedBlock) ∧
    (s.phase = .settled .committed → s.CommittedWhole)

/-- The text of a request that runs statements of the callback. -/
def Request.text : Request → Option String
  | .execute sql _ => some sql
  | .exec sql => some sql
  | _ => none

/-- PostgreSQL reads a chained rollback in the text, and in front of it stands something
that the guard reads differently. -/
def Request.HidesChain (request : Request) (standard : Bool) : Prop :=
  ∃ sql ∈ request.text, ¬ ChainRead standard sql.toList ∧
    ∃ words ∈ readings standard sql, Command.ofWords words = .rollback true

/-- The first statement that runs is a chained commit. -/
def StartsWithCommitChain (run : List (Words × Verdict)) : Prop :=
  ∃ r ∈ run.head?, Command.ofWords r.1 = .commit true

/-- The step sends a chained commit to a failed block, or a hidden chained rollback. -/
def SplitsBlock (s : State) (a : Action) : Prop :=
  match a, s.tail with
  | .run (.ran standard run _) _, request :: _ =>
    (s.postgres.failed = true ∧ StartsWithCommitChain run) ∨ request.HidesChain standard
  | _, _ => False

instance (request : Request) (standard : Bool) : Decidable (request.HidesChain standard) :=
  inferInstanceAs (Decidable (∃ sql ∈ request.text, _))

instance (run : List (Words × Verdict)) : Decidable (StartsWithCommitChain run) :=
  inferInstanceAs (Decidable (∃ r ∈ run.head?, _))

instance (s : State) (a : Action) : Decidable (SplitsBlock s a) := by
  unfold SplitsBlock
  split <;> infer_instance

/-- An exchange changes PostgreSQL and the failures of the database, nothing else. -/
def Frame (s t : State) : Prop :=
  t = { s with
    postgres := t.postgres
    transactionFailure := t.transactionFailure
    persistenceFailure := t.persistenceFailure }

variable {s : State}

theorem Frame.rfl : Frame s s := Eq.refl s

variable {t : State}

theorem Frame.trans (h : Frame s t) (h' : Frame t u) : Frame s u := by
  unfold Frame at *
  rw [h', h]

theorem assertHealthy_ok (h : s.assertHealthy = .ok ()) : s.Healthy := by
  unfold State.assertHealthy at h
  split at h <;> try cases h
  split at h <;> try cases h
  simp_all [State.Healthy]

theorem Healthy.assertHealthy (h : s.Healthy) : s.assertHealthy = .ok () := by
  simp [State.assertHealthy, h.1, h.2]

theorem recordUnknownExchange_not_healthy (s : State) (storage : Bool) (message : String) :
    ¬ (s.recordUnknownExchange storage message).Healthy := by
  cases storage <;> simp [State.recordUnknownExchange, State.Healthy]

theorem recordUnknownExchange_frame (s : State) (pg : Pg) (storage : Bool) (message : String) :
    Frame s ({ s with postgres := pg }.recordUnknownExchange storage message) := by
  cases storage <;> rfl

/-- What an exchange can do. -/
inductive Exchanged (s : State) (request : Request) (answer : Answer) :
    State → Except String (Response × ReadyStatus) → Prop where
  | refused (message : String) : ¬ s.Healthy → Exchanged s request answer s (.error message)
  | unknown (t : State) (message : String) : s.Healthy → Frame s t → ¬ t.Healthy →
      Exchanged s request answer t (.error message)
  | known (pg : Pg) (response : Response) (status : ReadyStatus) : s.Healthy →
      answer.deliver request s.postgres = some (pg, .ok response) →
      request.inspect response = .ok status →
      Exchanged s request answer { s with postgres := pg } (.ok (response, status))

variable {request : Request} {answer : Answer} {r : Except String (Response × ReadyStatus)}
  {tag : String} {n : Nat} {response : Response} {words : Words} {v : Verdict}
  {settlement : Settlement}

/-- The ways in which one exchange can end. -/
theorem exchangeKnown_cases (h : exchangeKnown s request answer = some (t, r)) :
    Exchanged s request answer t r := by
  unfold exchangeKnown at h
  split at h
  · rename_i message hunhealthy
    cases h
    refine .refused message fun hs => ?_
    rw [Healthy.assertHealthy hs] at hunhealthy
    cases hunhealthy
  · rename_i hhealthy
    have hs := assertHealthy_ok hhealthy
    split at h <;> try cases h
    · exact .unknown _ _ hs (recordUnknownExchange_frame s _ _ _)
        (recordUnknownExchange_not_healthy _ _ _)
    · rename_i pg response hdeliver
      split at h <;> cases h
      · exact .unknown _ _ hs (recordUnknownExchange_frame s _ _ _)
          (recordUnknownExchange_not_healthy _ _ _)
      · rename_i status hinspect
        exact .known pg response status hs hdeliver hinspect

/-- An exchange changes the session and PostgreSQL, not the transaction. -/
theorem Exchanged.frame (h : Exchanged s request answer t r) : Frame s t := by
  cases h with
  | refused => exact .rfl
  | unknown _ _ _ hframe => exact hframe
  | known => exact Eq.refl _

theorem Exchanged.healthy_of (h : Exchanged s request answer t r) (ht : t.Healthy) : s.Healthy := by
  cases h with
  | refused _ hs => exact ht
  | unknown _ _ hs => exact hs
  | known _ _ _ hs => exact hs

/-- A queued statement passed `assertNoTransactionChain`. -/
def Request.Admitted (request : Request) : Prop :=
  ∀ sql ∈ request.text, containsTransactionChain sql = false

/-- What may run for an admitted request has no chained rollback, unless it is hidden. -/
theorem Request.Admitted.no_rollback_chain (hadmitted : request.Admitted)
    (hruns : request.Runs standard ran) (hcontrol : ∀ c, request ≠ .control c)
    (hhides : ¬ request.HidesChain standard) :
    ∀ words ∈ ran, Command.ofWords words ≠ .rollback true := by
  intro words hwords hchain
  have htext : ∀ sql, request.text = some sql → ran.Sublist (readings standard sql) → False := by
    intro sql hsql hsub
    have hread := hsub.subset hwords
    have hchainRead : ChainRead standard sql.toList := by
      by_contra hnot
      exact hhides ⟨sql, hsql, hnot, words, hread, hchain⟩
    have hfound := containsTransactionChain_of_statement hchainRead hread hchain
    rw [hadmitted sql hsql] at hfound
    cases hfound
  cases request with
  | execute sql plan =>
    cases plan with
    | complete => exact htext sql rfl hruns.2
    | describe => exact absurd hwords (by simp [show ran = [] from hruns])
  | exec sql => exact htext sql rfl hruns
  | describe sql => exact absurd hwords (by simp [show ran = [] from hruns])
  | control c => exact hcontrol c rfl

theorem openingTags_lifecycle (h : tag ∈ openingTags) : tag ∈ lifecycleTags := by
  simp only [openingTags, lifecycleTags, mem_cons, not_mem_nil, or_false] at *
  tauto

variable {pg : Pg}

theorem readyStatus_idle (h : pg.block = none) : readyStatus pg = .idle := by
  simp [readyStatus, h]

variable {after : Pg} {status : ReadyStatus}

/-- A statement whose response passes the check stays in the block. -/
theorem inside_of_known (hpg : pg.Inside n) (hadmitted : request.Admitted)
    (hcontrol : ∀ c, request ≠ .control c)
    (hdeliver : answer.deliver request pg = some (after, .ok response))
    (hinspect : inspectManagedTransactionResponse response = .ok status)
    (hsplits : ∀ standard run message, answer = .ran standard run message →
      ¬ (pg.failed = true ∧ StartsWithCommitChain run) ∧ ¬ request.HidesChain standard) :
    after.Inside n := by
  obtain ⟨hready, hnot, tags, htags, hlifecycle⟩ := inspectManagedTransactionResponse_ok hinspect
  cases answer with
  | lost => cases hdeliver
  | garbled message after' =>
    cases hdeliver
    cases hready
  | refused message =>
    cases hdeliver
    exact hpg.fail
  | ran standard run message =>
    obtain ⟨hcommit, hhides⟩ := hsplits standard run message rfl
    simp only [Answer.deliver] at hdeliver
    split at hdeliver <;> cases hdeliver
    rename_i hruns
    cases htags
    cases hready
    have hrollback := hadmitted.no_rollback_chain hruns hcontrol hhides
    have hinside := execAll_inside (commands run) hpg
      (by
        intro c hc
        obtain ⟨r, hr, rfl⟩ := mem_map.mp hc
        exact hrollback r.1 (mem_map_of_mem hr))
      (by
        intro hfailed c hc hchain
        rw [commands, List.head?_map] at hc
        obtain ⟨r, hr, rfl⟩ := Option.map_eq_some_iff.mp hc
        exact hcommit ⟨hfailed, r, hr, hchain⟩)
    rcases hinside with hin | hidle | ⟨tag, hopening, htag⟩
    · exact hin
    · exact absurd (readyStatus_idle hidle) hnot
    · exact absurd (openingTags_lifecycle hopening) (hlifecycle tag htag)

theorem readings_control (c : Control) (standard : Bool) :
    readings standard c.sql = [[some c.sql.toList]] := by
  cases c <;> cases standard <;> decide +kernel

/-- The command that a control command is to PostgreSQL. -/
def controlCommand : Control → Command
  | .begin => .begin
  | .commit => .commit false
  | .rollback => .rollback false

theorem ofWords_control (c : Control) :
    Command.ofWords [some c.sql.toList] = controlCommand c := by
  cases c <;> decide +kernel

variable {c : Control}

/-- A control command with a readable result is one command that PostgreSQL ran. -/
theorem control_ran (hdeliver : answer.deliver (.control c) pg = some (after, .ok response))
    (hparse : parseCommandResponse response = .ok result) :
    ∃ words v tag, exec pg words (controlCommand c) v = (after, some tag) ∧
      result.commandTag = some tag := by
  cases answer with
  | lost => cases hdeliver
  | garbled =>
    cases hdeliver
    cases hparse
  | refused =>
    cases hdeliver
    cases hparse
  | ran standard run message =>
    simp only [Answer.deliver] at hdeliver
    split at hdeliver <;> cases hdeliver
    rename_i hruns
    have hrun : run.map Prod.fst = [[some c.sql.toList]] :=
      hruns.trans (readings_control c standard)
    obtain ⟨⟨words, v⟩, rest, rfl, hwords, hrest⟩ := map_eq_cons_iff.mp hrun
    obtain rfl : rest = [] := map_eq_nil_iff.mp hrest
    obtain rfl : words = [some c.sql.toList] := hwords
    rcases hexec : exec pg [some c.sql.toList] (controlCommand c) v with ⟨t, _ | tag⟩
    · simp only [commands, map_cons, map_nil, execAll, ofWords_control, hexec] at hparse
      cases hparse
    · simp only [commands, map_cons, map_nil, execAll, ofWords_control, hexec] at hparse ⊢
      cases hparse
      exact ⟨_, v, tag, hexec, rfl⟩

/-- What a control command can do. -/
inductive Controlled (s : State) (c : Control) (answer : Answer) :
    State → Except String ControlOutcome → Prop where
  | failed (t : State) (message : String) : Frame s t → Controlled s c answer t (.error message)
  | done (pg : Pg) (words : Words) (v : Verdict) (tag : String) (status : ReadyStatus)
      (outcome : ControlOutcome) : s.Healthy →
      exec s.postgres words (controlCommand c) v = (pg, some tag) →
      Control.outcome c (some tag) status = some outcome →
      Controlled s c answer { s with postgres := pg } (.ok outcome)

variable {r : Except String ControlOutcome}

/-- The ways in which a terminal command can end. -/
theorem endControl_cases (h : endControl s c answer = some (t, r)) :
    Controlled s c answer t r := by
  unfold endControl at h
  split at h <;> try cases h
  · rename_i hexchange
    exact .failed _ _ (exchangeKnown_cases hexchange).frame
  · rename_i u response status hexchange
    have hexchanged := exchangeKnown_cases hexchange
    have hframe := hexchanged.frame
    split at h
    · cases h
      exact .failed _ _ (hframe.trans (Eq.refl _))
    · rename_i result hparse
      split at h <;> cases h
      · rename_i outcome houtcome
        cases hexchanged with
        | known pg _ _ hs hdeliver hinspect =>
          obtain ⟨words, v, tag, hexec, htag⟩ := control_ran hdeliver hparse
          exact .done pg words v tag status outcome hs hexec (htag ▸ houtcome)
      · exact .failed _ _ (hframe.trans (Eq.refl _))

theorem Controlled.frame (h : Controlled s c answer t r) : Frame s t := by
  cases h with
  | failed _ _ hframe => exact hframe
  | done => exact Eq.refl _

variable {cleanup : Answer}

theorem undoBegin_frame (h : undoBegin s status message keepOwn cleanup = some (t, r)) :
    Frame s t ∧ ∃ message, r = .error message := by
  unfold undoBegin at h
  split at h
  · cases h
    exact ⟨.rfl, _, rfl⟩
  · split at h <;> cases h
    · rename_i hrollback
      exact ⟨(endControl_cases hrollback).frame, _, rfl⟩
    · rename_i hrollback
      exact ⟨(endControl_cases hrollback).frame, _, rfl⟩

theorem beginControl_cases (h : beginControl s answer cleanup = some (t, r)) :
    Controlled s .begin answer t r := by
  unfold beginControl at h
  split at h <;> try cases h
  · rename_i hexchange
    exact .failed _ _ (exchangeKnown_cases hexchange).frame
  · rename_i u response status hexchange
    have hexchanged := exchangeKnown_cases hexchange
    have hframe := hexchanged.frame
    split at h
    · obtain ⟨hundo, message, rfl⟩ := undoBegin_frame h
      exact .failed _ _ (hframe.trans hundo)
    · rename_i result hparse
      split at h
      · rename_i outcome houtcome
        cases h
        cases hexchanged with
        | known pg _ _ hs hdeliver hinspect =>
          obtain ⟨words, v, tag, hexec, htag⟩ := control_ran hdeliver hparse
          exact .done pg words v tag status outcome hs hexec (htag ▸ houtcome)
      · obtain ⟨hundo, message, rfl⟩ := undoBegin_frame h
        exact .failed _ _ (hframe.trans hundo)

/-- After `BEGIN` PostgreSQL is inside a block, and nothing has been done there. -/
theorem inside_of_begin (hdone : pg.done = []) (hcommitted : pg.committed = [])
    (hexec : exec pg words .begin v = (after, some tag)) :
    ∃ b, after.block = some b ∧ after.Inside b.id := by
  have hinside : ∀ {t : Pg} {b : Block}, t.block = some b → t.done = [] → t.committed = [] →
      ∃ b, t.block = some b ∧ t.Inside b.id := fun hb hd hc =>
    ⟨_, hb, ⟨_, hb, rfl⟩, hc, by simp [hd]⟩
  unfold exec at hexec
  split at hexec
  · simp only [execIdle] at hexec
    split at hexec <;> cases hexec
    exact hinside rfl hdone hcommitted
  · rename_i b hb
    split at hexec <;> try cases hexec
    simp only [execLive] at hexec
    split at hexec <;> cases hexec
    exact hinside hb hdone hcommitted

theorem commit_outcome {tag : Option String}
    (h : Control.outcome .commit tag status = some .committed) : tag = some "COMMIT" := by
  simp only [Control.outcome] at h
  split at h
  · rename_i hcommit
    exact hcommit.1
  · split at h <;> cases h

/-- A `COMMIT` that reports `COMMIT` commits the block the session is in. -/
theorem committed_of_commit (hpg : pg.Inside n)
    (hexec : exec pg words (.commit false) v = (after, some "COMMIT")) :
    after.committed = [n] ∧ after.done = pg.done := by
  obtain ⟨b, hb, hid⟩ := hpg.block
  simp only [exec, hb] at hexec
  split at hexec
  · exact absurd (congrArg Prod.snd hexec) (by simp [execFailed])
  · simp only [execLive] at hexec
    split at hexec <;> cases hexec
    refine ⟨?_, rfl⟩
    show pg.committed ++ [b.id] = [n]
    rw [hpg.committed, hid, nil_append]

/-- What holds in every state of a run. -/
structure Inv (s : State) : Prop where
  admitted : ∀ request ∈ s.tail, request.Admitted
  untouched : s.phase = .opening → s.postgres.done = [] ∧ s.postgres.committed = []
  inside : s.phase.isOpen = true → s.Healthy → s.rollbackAttempt = none →
    ∃ b, s.openedBlock = some b ∧ s.postgres.Inside b
  committed : s.phase = .settled .committed → s.CommittedWhole

theorem Inv.oneTransaction (h : Inv s) : s.OneTransaction := by
  refine ⟨fun hopen hs hrollback => ?_, h.committed⟩
  obtain ⟨b, hopened, hinside⟩ := h.inside hopen hs hrollback
  obtain ⟨k, hk, rfl⟩ := hinside.block
  exact ⟨k, hk, hopened⟩

theorem inv_initial (failed : Option Bool) (savepoints : Nat) :
    Inv (initial failed savepoints) where
  admitted _ h := by cases h
  untouched _ := ⟨rfl, rfl⟩
  inside h := by cases h
  committed h := by cases h

/-- A settled transaction keeps the invariant if a commit was one of the whole block. -/
theorem Inv.settle (hadmitted : ∀ request ∈ s.tail, request.Admitted)
    (hcommitted : settlement = .committed → s.CommittedWhole) : Inv (s.settle settlement) where
  admitted := hadmitted
  untouched h := by cases h
  inside h := by cases h
  committed h := by
    cases h
    exact hcommitted rfl

variable {sync : Except String Unit}

theorem Inv.settleSynced (hadmitted : ∀ request ∈ s.tail, request.Admitted)
    (hcommitted : settlement = .committed → s.CommittedWhole) :
    Inv (s.settleSynced sync settlement) := by
  unfold State.settleSynced
  split
  · exact .settle hadmitted (by simp)
  · exact .settle hadmitted hcommitted

theorem Frame.tail (h : Frame s t) : t.tail = s.tail := by rw [h]

theorem Frame.phase (h : Frame s t) : t.phase = s.phase := by rw [h]

theorem Frame.rollbackAttempt (h : Frame s t) :
    t.rollbackAttempt = s.rollbackAttempt := by rw [h]

theorem Frame.openedBlock (h : Frame s t) : t.openedBlock = s.openedBlock := by
  rw [h]

/-- `BEGIN` opens the block that the callback works in. -/
theorem Inv.opened
    (hi : Inv s) (hphase : s.phase = .opening) (h : s.opened answer cleanup sync = some t) :
    Inv t := by
  unfold State.opened at h
  obtain ⟨hdone, hcommitted⟩ := hi.untouched hphase
  split at h <;> try cases h
  · rename_i u outcome hbegin
    cases beginControl_cases hbegin with
    | done pg words v tag status _ hs hexec houtcome =>
      obtain ⟨b, hb, hinside⟩ := inside_of_begin hdone hcommitted hexec
      refine ⟨hi.admitted, nofun, fun _ _ _ => ⟨b.id, ?_, hinside⟩,
        nofun⟩
      simp [hb]
  · rename_i u message hbegin
    have hframe := (beginControl_cases hbegin).frame
    have hadmitted : ∀ request ∈ u.tail, request.Admitted := hframe.tail ▸ hi.admitted
    split at h <;> cases h
    · exact .settleSynced hadmitted nofun
    · exact .settle hadmitted nofun

theorem assertNoTransactionChain_ok (h : assertNoTransactionChain sql = .ok u) :
    containsTransactionChain sql = false := by
  unfold assertNoTransactionChain at h
  split at h <;> try cases h
  simpa using ‹¬ containsTransactionChain sql = true›

theorem bind_ok {β : Type} {f : α → Except String β} {b : β} (h : (x >>= f) = .ok b) :
    ∃ a, x = .ok a ∧ f a = .ok b := by
  cases x with
  | error => cases h
  | ok a => exact ⟨a, rfl, h⟩

/-- A call on the handle that is not refused chains one admitted request. -/
theorem admit_cases (h : s.admitCall call = .ok t) : ∃ request handle, request.Admitted ∧
      t = { s with handle := handle, tail := s.tail ++ [request] } := by
  cases call with
  | execute sql plan =>
    obtain ⟨_, hchain, h⟩ := bind_ok h
    obtain ⟨_, -, h⟩ := bind_ok h
    cases h
    refine ⟨.execute sql plan, s.handle, ?_, rfl⟩
    intro text htext
    obtain rfl : sql = text := Option.some.inj htext
    exact assertNoTransactionChain_ok hchain
  | exec sql =>
    obtain ⟨_, hchain, h⟩ := bind_ok h
    obtain ⟨_, -, h⟩ := bind_ok h
    obtain ⟨_, -, h⟩ := bind_ok h
    cases h
    refine ⟨.exec sql, s.handle, ?_, rfl⟩
    intro text htext
    obtain rfl : sql = text := Option.some.inj htext
    exact assertNoTransactionChain_ok hchain
  | describe sql =>
    obtain ⟨_, -, h⟩ := bind_ok h
    cases h
    refine ⟨.describe sql, s.handle, ?_, rfl⟩
    rintro _ ⟨⟩
  | rollback =>
    obtain ⟨_, -, h⟩ := bind_ok h
    cases h
    refine ⟨.control .rollback, .finishing, ?_, rfl⟩
    rintro _ ⟨⟩

section

variable (hi : Inv s)

include hi

/-- What a callback queues has passed the scan. -/
theorem Inv.admitCall (h : s.admitCall call = .ok t) : Inv t := by
  obtain ⟨request, handle, hadmitted, rfl⟩ := admit_cases h
  refine ⟨fun r hr => ?_, hi.untouched, hi.inside, hi.committed⟩
  rcases mem_append.mp hr with hr | hr
  · exact hi.admitted r hr
  · exact mem_singleton.mp hr ▸ hadmitted

theorem Inv.operationFailed (message : String) : Inv (s.operationFailed message) :=
  ⟨hi.admitted, hi.untouched, hi.inside, hi.committed⟩

/-- A rollback inside the callback settles without a commit. -/
theorem Inv.rollbackSettled (hopen : s.phase.isOpen = true) (hframe : Frame s t)
    (result : Except String Unit) : Inv (t.rollbackSettled result) where
  admitted := hframe.tail ▸ hi.admitted
  untouched h := by
    rw [show s.phase = .opening from hframe.phase.symm.trans h] at hopen
    cases hopen
  inside _ _ h := by cases h
  committed h := by
    rw [show s.phase = .settled .committed from hframe.phase.symm.trans h] at hopen
    cases hopen

/-- A statement of the callback keeps the transaction, or makes the database unusable. -/
theorem Inv.exchanged {r : Except String (Response × ReadyStatus)} (hopen : s.phase.isOpen = true)
    (hadmitted : request.Admitted) (hcontrol : ∀ c, request ≠ .control c)
    (hsplits : ∀ standard run message, answer = .ran standard run message →
      ¬ (s.postgres.failed = true ∧ StartsWithCommitChain run) ∧ ¬ request.HidesChain standard)
    (h : Exchanged s request answer t r) : Inv t := by
  have hframe := h.frame
  refine ⟨hframe.tail ▸ hi.admitted, fun hphase => ?_, fun _ ht hrollback => ?_, fun hphase => ?_⟩
  · rw [show s.phase = .opening from hframe.phase.symm.trans hphase] at hopen
    cases hopen
  · have hs := h.healthy_of ht
    obtain ⟨b, hopened, hinside⟩ :=
      hi.inside hopen hs (hframe.rollbackAttempt.symm.trans hrollback)
    refine ⟨b, hframe.openedBlock.trans hopened, ?_⟩
    cases h with
    | refused _ hunhealthy => exact absurd hs hunhealthy
    | unknown _ _ _ _ hunhealthy => exact absurd ht hunhealthy
    | known pg response status _ hdeliver hinspect =>
      have hmanaged : inspectManagedTransactionResponse response = .ok status := by
        cases request with
        | control c => exact absurd rfl (hcontrol c)
        | _ => exact hinspect
      exact inside_of_known hinside hadmitted hcontrol hdeliver hmanaged hsplits
  · rw [show s.phase = .settled .committed from hframe.phase.symm.trans hphase] at hopen
    cases hopen

/-- An operation whose text does not split the block leaves PostgreSQL in it, or the session
unusable. -/
theorem Inv.runOperation (hopen : s.phase.isOpen = true) (htail : s.tail = request :: rest)
    (hsplits : ∀ standard run message, answer = .ran standard run message →
      ¬ (s.postgres.failed = true ∧ StartsWithCommitChain run) ∧ ¬ request.HidesChain standard)
    (h : s.runOperation request rest answer decoded = some t) : Inv t := by
  have hadmitted : request.Admitted := hi.admitted request (htail ▸ (.head _))
  have hrest : Inv { s with tail := rest } :=
    ⟨fun r hr => hi.admitted r (htail ▸ .tail _ hr), hi.untouched, hi.inside, hi.committed⟩
  unfold State.runOperation at h
  split at h
  · split at h <;> cases h
    · rename_i u message hend
      exact (hrest.rollbackSettled hopen (endControl_cases hend).frame _).operationFailed message
    · rename_i u outcome hend
      exact hrest.rollbackSettled hopen (endControl_cases hend).frame _
  · rename_i hcontrol
    have hexchanged : ∀ {u r}, exchangeKnown { s with tail := rest } request answer = some (u, r) →
        Inv u := fun hu =>
      hrest.exchanged hopen hadmitted hcontrol hsplits (exchangeKnown_cases hu)
    split at h <;> try cases h
    · rename_i hu
      exact (hexchanged hu).operationFailed _
    · rename_i hu
      exact (hexchanged hu).operationFailed _
    · rename_i u value hu
      split at h <;> cases h
      · obtain ⟨-, huntouched, hinside, hcommitted⟩ := hexchanged hu
        refine ⟨fun r hr => ?_, huntouched, hinside, hcommitted⟩
        rcases mem_cons.mp hr with rfl | hr
        · exact hadmitted
        · exact hrest.admitted r hr
      · exact hexchanged hu

/-- A failed callback settles without a commit. -/
theorem Inv.settleFailed (h : s.settleFailed message answer sync = some t) : Inv t := by
  unfold State.settleFailed at h
  split at h <;> try cases h
  · exact .settleSynced hi.admitted nofun
  · exact .settle hi.admitted nofun
  · split at h
    · cases h
      exact .settle hi.admitted nofun
    · split at h <;> cases h
      · rename_i hend
        exact .settle ((endControl_cases hend).frame.tail ▸ hi.admitted) nofun
      · rename_i hend
        exact .settleSynced ((endControl_cases hend).frame.tail ▸ hi.admitted)
          nofun

/-- `COMMIT` is sent in the block that `BEGIN` opened. -/
theorem Inv.settleCommit (hopen : s.phase.isOpen = true) (hrollback : s.rollbackAttempt = none)
    (h : s.settleCommit answer sync = some t) : Inv t := by
  unfold State.settleCommit at h
  split at h <;> cases h
  · rename_i hend
    exact .settle ((endControl_cases hend).frame.tail ▸ hi.admitted) nofun
  · rename_i u hend
    have hcontrolled := endControl_cases hend
    refine .settleSynced (hcontrolled.frame.tail ▸ hi.admitted) fun _ => ?_
    cases hcontrolled with
    | done pg words v tag status _ hs hexec houtcome =>
      -- The outcome `committed` is read off the tag COMMIT.
      obtain rfl : tag = "COMMIT" := Option.some.inj (commit_outcome houtcome)
      obtain ⟨b, hopened, hinside⟩ := hi.inside hopen hs hrollback
      obtain ⟨hcommitted, hdone⟩ := committed_of_commit hinside hexec
      exact ⟨b, hopened, hcommitted, fun e he => hinside.done e (hdone ▸ he)⟩
  · rename_i hend
    exact .settleSynced ((endControl_cases hend).frame.tail ▸ hi.admitted) nofun

/-- The end of the callback, by return or by throw. -/
theorem Inv.finish (hopen : s.phase.isOpen = true) (h : s.finish thrown answer sync = some t) :
    Inv t := by
  unfold State.finish at h
  split at h
  · exact hi.settleFailed h
  · exact hi.settleFailed h
  · cases h
    exact .settleSynced hi.admitted nofun
  · rename_i hrollback
    split at h
    · cases h
      exact .settle hi.admitted nofun
    · exact hi.settleCommit hopen hrollback h

/-- Every step that does not split the block keeps the invariant. -/
theorem inv_step (hsplits : ¬ SplitsBlock s a) (h : step s a = some t) : Inv t := by
  unfold step at h
  split at h
  · split at h <;> try cases h
    rename_i hphase
    exact hi.opened hphase h
  · split at h <;> try cases h
    split at h <;> cases h
    · rename_i hadmit
      exact hi.admitCall hadmit
    · exact hi
  · split at h <;> try cases h
    rename_i hopen
    split at h <;> try cases h
    rename_i request rest htail
    refine hi.runOperation hopen htail ?_ h
    rintro standard run message rfl
    simpa [SplitsBlock, htail] using hsplits
  · split at h <;> cases h
    rename_i hphase
    exact ⟨hi.admitted, nofun, fun _ => hi.inside (by rw [hphase]; rfl),
      nofun⟩
  · split at h <;> try cases h
    rename_i hphase htail
    exact hi.finish (by rw [hphase]; rfl) h

end

/-- A callback transaction none of whose texts splits its block is one PostgreSQL
transaction: PostgreSQL stays in the block that `BEGIN` opened, and if `transaction()`
resolves after COMMIT, everything the callback did was committed in that block. -/
theorem callback_is_one_transaction (failed : Option Bool) (savepoints : Nat)
    (schedule : List Action) (s : State)
    (hunsplit : Along step (fun s a => ¬ SplitsBlock s a) (initial failed savepoints) schedule)
    (hrun : run step (initial failed savepoints) schedule = some s) : s.OneTransaction :=
  (run_invariant_along (fun _ _ _ hi hsplits h => inv_step hi hsplits h)
    (inv_initial failed savepoints) hunsplit hrun).oneTransaction

/-- PostgreSQL runs every statement of the text, all with the same verdict. -/
def reply (sql : String) (v : Verdict) : Answer :=
  .ran true ((readings true sql).map fun words => (words, v)) "division by zero"

/-- A call on the handle and its exchange. -/
def sent (sql : String) (v : Verdict) : List Action :=
  [.call (.exec sql), .run (reply sql v) none]

/-- A transaction whose callback does the given things and returns. -/
def transactionOf (body : List Action) : List Action :=
  .begin (reply "BEGIN" {}) (reply "ROLLBACK" {}) (.ok ()) ::
    body ++ [.endBody none, .finish (reply "COMMIT" {}) (.ok ())]

def insertOne : List Action := sent "INSERT INTO t VALUES (1)" { tag := "INSERT 0 1" }

def insertTwo : List Action := sent "INSERT INTO t VALUES (2)" { tag := "INSERT 0 1" }

/-- Two inserts and a commit. -/
theorem callback_is_one_transaction_ordinary :
    ∃ s, run step (initial none 0) (transactionOf (insertOne ++ insertTwo)) = some s ∧
      s.phase = .settled .committed ∧ s.OneTransaction := by
  refine exists_run (f := State.phase) (v := .settled .committed) (by decide +kernel)
    fun s hrun hs => ?_
  exact ⟨hs, callback_is_one_transaction none 0 _ s (by decide +kernel) hrun⟩

theorem not_oneTransaction {c : Nat} (hphase : s.phase = .settled .committed)
    (hopened : s.openedBlock = some b) (hcommitted : s.postgres.committed = [c]) (hne : b ≠ c) :
    ¬ s.OneTransaction := by
  intro h
  obtain ⟨n, hn, hcommittedN, -⟩ := h.2 hphase
  rw [hopened] at hn
  rw [hcommitted] at hcommittedN
  exact hne ((Option.some.inj hn).trans (List.cons.inj hcommittedN).1.symm)

/-- The first insert succeeds, a later statement fails, and a chained commit goes to the
failed block. -/
def chainedCommit : List Action :=
  insertOne ++ sent "SELECT 1 / 0" { succeeds := false } ++ sent "COMMIT AND CHAIN" {} ++ insertTwo

/-- A chained rollback behind a text that hides it goes to the live block. -/
def hiddenRollback (text : String) : List Action :=
  insertOne ++ sent (text ++ "; ROLLBACK AND CHAIN") {} ++ insertTwo

/-- A no-break space begins a name, an `E''` string goes on in a further segment, and a number
runs on into a dollar quote. -/
def hidingTexts : List String :=
  ["SELECT 1 AS \u00a0$x$", "SELECT E''\n'\\'', '\\'", "SELECT 1e5$a$;$a$"]

/-- `transaction()` resolves after a COMMIT that commits the second insert and not the
first one. -/
theorem callback_spans_two_transactions :
    (∃ s, run step (initial none 0) (transactionOf chainedCommit) = some s ∧ ¬ s.OneTransaction) ∧
      ∀ text ∈ hidingTexts,
        ∃ s, run step (initial none 0) (transactionOf (hiddenRollback text)) = some s ∧
          ¬ s.OneTransaction := by
  have hsplit : ∀ {body : List Action},
      (run step (initial none 0) (transactionOf body)).map
        (fun s => (s.phase, s.openedBlock, s.postgres.committed)) =
          some (.settled .committed, some 1, [2]) →
      ∃ s, run step (initial none 0) (transactionOf body) = some s ∧ ¬ s.OneTransaction := by
    intro body h
    obtain ⟨s, hrun, hs⟩ := Option.map_eq_some_iff.mp h
    simp only [Prod.mk.injEq] at hs
    obtain ⟨hphase, hopened, hcommitted⟩ := hs
    exact ⟨s, hrun, not_oneTransaction hphase hopened hcommitted (by decide)⟩
  have hhidden : ∀ text ∈ hidingTexts,
      (run step (initial none 0) (transactionOf (hiddenRollback text))).map
        (fun s => (s.phase, s.openedBlock, s.postgres.committed)) =
          some (.settled .committed, some 1, [2]) := by decide +kernel
  exact ⟨hsplit (by decide +kernel), fun text hmem => hsplit (hhidden text hmem)⟩

end Oliphaunt.WasixTs
