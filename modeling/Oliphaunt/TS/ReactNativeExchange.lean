import Oliphaunt.TS.ReactNative

/-!
# Oliphaunt — what the exchanges of the React Native database can do

One lemma for each function that sends something: which commands reach the
native module (`Exchanged`), and what is known about PostgreSQL and the health
of the database afterwards. The common form of the second part is `Safe`: the
session is outside a block, or the database is poisoned.
-/

namespace Oliphaunt.ReactNative

/-- The record of an exchange that is sent now. -/
def State.entry (s : State) (call : Nat) (command : Command) : Sent where
  call := call
  command := command
  pending := s.handle.tail.length
  rollbackCalled := s.handle.rollbackCalled

/-- The commands of `call` reached the native module; nothing but PostgreSQL and the
health of the database has changed. -/
structure Exchanged (call : Nat) (commands : List Command) (s t : State) : Prop where
  frame : t = { s with
    inBlock := t.inBlock
    poisoned := t.poisoned
    sent := s.sent ++ commands.map (s.entry call) }
  poisoned : s.poisoned.isSome = true → t.poisoned.isSome = true

/-- PostgreSQL is outside a block or nothing can reach it any more. -/
def State.Safe (s : State) : Prop := s.inBlock = false ∨ s.poisoned.isSome = true

variable {call : Nat} {s : State}

theorem Exchanged.rfl : Exchanged call [] s s where
  frame := by simp
  poisoned h := h

variable {commands : List Command} {t : State}

theorem Exchanged.handle (h : Exchanged call commands s t) : t.handle = s.handle := by rw [h.frame]

variable {u : State}

theorem Exchanged.trans (h : Exchanged call commands s t) (h' : Exchanged call commands' t u) :
    Exchanged call (commands ++ commands') s u where
  frame := by
    have hentry : t.entry call = s.entry call := by
      funext command
      simp only [State.entry, h.handle]
    rw [h'.frame, hentry, h.frame]
    simp
  poisoned hs := h'.poisoned (h.poisoned hs)

theorem poison_frame (s : State) (cause : Failure) (replace : Bool) :
    s.poison cause replace = { s with poisoned := (s.poison cause replace).poisoned } := by
  unfold State.poison
  split <;> split <;> rfl

/-- A poisoned database stays poisoned. -/
theorem poison_mono (cause : Failure) (replace : Bool)
    (h : s.poisoned.isSome = true) : (s.poison cause replace).poisoned.isSome = true := by
  unfold State.poison
  split <;> split <;> first | exact h | rfl

/-- Only a failure of a request that was not started does not poison. -/
theorem poison_isSome (s : State) (replace : Bool) (h : ¬ cause.NotStarted) :
    (s.poison cause replace).poisoned.isSome = true := by
  unfold State.poison
  split
  · split
    · rfl
    · rename_i hreopen
      simp [Failure.NotStarted, hreopen] at h
  · split
    · rename_i hpoisoned
      exact hpoisoned.2
    · rfl

theorem poison_caused (s : State) (message : String) (cause : Failure) (replace : Bool) :
    (s.poison (.caused message cause) replace).poisoned.isSome = true :=
  poison_isSome s replace id

theorem Exchanged.poison (h : Exchanged call commands s t) (cause : Failure) (replace : Bool) :
    Exchanged call commands s (t.poison cause replace) where
  frame := by rw [poison_frame, h.frame]
  poisoned hs := poison_mono cause replace (h.poisoned hs)

/-- Sending one command. -/
theorem send_exchanged (s : State) (call : Nat) (command : Command) (o : Outcome Failure) :
    Exchanged call [command] s (s.send call command o) where
  frame := Eq.refl _
  poisoned h := h

/-- What the result of an exchange tells about the session. -/
def Observed {β : Type} (s t : State) :
    Except (Failure × Option ReadyStatus) (β × ReadyStatus) → Prop
  | .ok (_, status) => t.inBlock = decide (status ≠ .idle)
  | .error (_, some status) => t.inBlock = decide (status ≠ .idle)
  | .error (failure, none) =>
    t.poisoned.isSome = true ∨ (failure.NotStarted ∧ t.inBlock = s.inBlock)

variable {status : ReadyStatus} {β : Type}

/-- A status that was read stays known when the response is refused for another reason. -/
theorem Observed.of_ok {value : β} (h : Observed s t (.ok (value, status))) (failure : Failure) :
    @Observed γ s t (.error (failure, some status)) := h

variable {managed : Bool} {response : Response}

theorem inspect_ready (h : (if managed then inspectManagedTransactionResponse response
      else inspectReadyForQuery response) = .ok status) : response.ready = .ok status := by
  split at h
  · exact (inspectManagedTransactionResponse_ok h).1
  · exact h

variable {o : Outcome Failure}

theorem honest_inBlock (h : o.Honest) (hresult : o.result = .ok response)
    (hready : response.ready = .ok status) : o.inBlock = decide (status ≠ .idle) := by
  simpa [Outcome.Honest, hresult, hready] using h

variable {command : Command}

/-- One exchange whose outcome is known: PostgreSQL is where the status says, or the database
is poisoned. -/
theorem runKnownExchange_spec {r : Except (Failure × Option ReadyStatus) (β × ReadyStatus)}
    (h : runKnownExchange s call command managed o parse = some (t, r)) :
    Exchanged call [command] s t ∧ Observed s t r := by
  have hsend := send_exchanged s call command o
  unfold runKnownExchange at h
  split at h <;> try cases h
  rename_i hbelievable
  obtain ⟨hhonest, hnotStarted⟩ := not_not.mp hbelievable
  split at h
  · rename_i failure hresult
    cases h
    refine ⟨hsend.poison failure false, ?_⟩
    by_cases hstarted : failure.NotStarted
    · refine .inr ⟨hstarted, ?_⟩
      rw [poison_frame]
      simp only [hresult] at hnotStarted
      exact hnotStarted hstarted
    · exact .inl (poison_isSome _ false hstarted)
  · rename_i response hresult
    split at h
    · cases h
      exact ⟨hsend.poison _ false, .inl (poison_isSome _ false id)⟩
    · rename_i status hinspect
      have hblock := honest_inBlock hhonest hresult (inspect_ready hinspect)
      split at h <;> cases h
      · exact ⟨hsend, hblock⟩
      · exact ⟨hsend, hblock⟩
      · refine ⟨hsend.poison _ false, ?_⟩
        rw [poison_frame]
        exact hblock

variable {failure : Failure} {status : Option ReadyStatus}

/-- A failure of a request that was not started is the native module's own. -/
theorem runKnownExchange_notStarted {parse : Response → Parsed β}
    (h : runKnownExchange s call command managed o parse = some (t, .error (failure, status)))
    (hstarted : failure.NotStarted) : o.result = .error failure := by
  unfold runKnownExchange at h
  split at h <;> try cases h
  split at h
  · rename_i hresult
    cases h
    exact hresult
  · split at h
    · cases h
      exact absurd hstarted id
    · split at h <;> cases h
      · exact absurd hstarted id
      · exact absurd hstarted id

theorem runControl_spec (h : runControl s call command o = some (t, r)) :
    Exchanged call [command] s t ∧ Observed s t r :=
  runKnownExchange_spec h

variable {r : Option Failure}

/-- A recovery ends outside a block or in poison. -/
theorem recoverToIdle_spec (h : recoverToIdle s call primary o = some (t, r)) :
    Exchanged call [.rollback] s t ∧ t.Safe := by
  unfold recoverToIdle at h
  split at h <;> try cases h
  · rename_i hcontrol
    obtain ⟨hsent, -⟩ := runControl_spec hcontrol
    exact ⟨hsent.poison _ true, .inr (poison_isSome _ true id)⟩
  · rename_i u tag status hcontrol
    obtain ⟨hsent, hobserved⟩ := runControl_spec hcontrol
    split at h <;> cases h
    · rename_i hidle
      obtain ⟨rfl, -⟩ := hidle
      exact ⟨hsent, .inl hobserved⟩
    · exact ⟨hsent.poison _ true, .inr (poison_isSome _ true id)⟩

variable {recovery : Outcome Failure}

/-- A failure after a status that was observed ends safely; without a status it sends
nothing. -/
theorem failRecovered_spec (h : failRecovered s call failure status recovery = some (t, r))
    (hstatus : ∀ seen ∈ status, s.inBlock = decide (seen ≠ .idle)) :
    (∃ commands, (commands = [] ∨ commands = [.rollback]) ∧ Exchanged call commands s t) ∧
      r.isSome = true ∧ (t.Safe ∨ (status = none ∧ t = s)) := by
  unfold failRecovered at h
  split at h
  · split at h <;> cases h
    · rename_i hrecover
      obtain ⟨hsent, hsafe⟩ := recoverToIdle_spec hrecover
      exact ⟨⟨_, .inr rfl, hsent⟩, rfl, .inl hsafe⟩
    · rename_i hrecover
      obtain ⟨hsent, hsafe⟩ := recoverToIdle_spec hrecover
      exact ⟨⟨_, .inr rfl, hsent⟩, rfl, .inl hsafe⟩
  · rename_i hidle
    cases h
    refine ⟨⟨[], .inl rfl, .rfl⟩, rfl, ?_⟩
    cases status with
    | none => exact .inr ⟨rfl, rfl⟩
    | some seen =>
      have hblock := hstatus seen rfl
      cases seen with
      | idle => exact .inl (.inl hblock)
      | transaction => exact absurd (.inl rfl) hidle
      | failed => exact absurd (.inr rfl) hidle

/-- An exchange that fails, with the recovery it asks for. -/
theorem failed_exchange_spec (hsent : Exchanged call [first] s t)
    (hobserved : @Observed β s t (.error (failure, status)))
    (h : failRecovered t call failure status recovery = some (u, r)) :
    (∃ commands, (commands = [] ∨ commands = [.rollback]) ∧
      Exchanged call ([first] ++ commands) s u) ∧ r.isSome = true ∧ (s.Safe → u.Safe) := by
  obtain ⟨⟨commands, hcommands, hsent'⟩, hr, hsafe⟩ := failRecovered_spec h fun seen hseen => by
    cases hseen
    exact hobserved
  have hall := hsent.trans hsent'
  refine ⟨⟨commands, hcommands, hall⟩, hr, fun hs => ?_⟩
  rcases hs with hs | hs
  · rcases hsafe with hsafe | ⟨rfl, rfl⟩
    · exact hsafe
    · rcases hobserved with hpoisoned | ⟨-, hblock⟩
      · exact .inr hpoisoned
      · exact .inl (hblock.trans hs)
  · exact .inr (hall.poisoned hs)

/-- The exchanges of an ordinary call, which end safely. A recovery is the last of them,
and the call then fails. -/
def OrdinaryRun (call : Nat) (s : State) (r : Option Failure) (t : State) : Prop :=
  (∃ count recovery, (recovery = [] ∨ r.isSome = true ∧ recovery = [Command.rollback]) ∧
    Exchanged call (List.replicate count .ordinary ++ recovery) s t) ∧ (s.Safe → t.Safe)

theorem OrdinaryRun.trans (h : OrdinaryRun call s none t) (h' : OrdinaryRun call t r u) :
    OrdinaryRun call s r u := by
  obtain ⟨⟨count, recovery, hrecovery, hsent⟩, hsafe⟩ := h
  obtain ⟨⟨count', recovery', hrecovery', hsent'⟩, hsafe'⟩ := h'
  obtain rfl : recovery = [] := hrecovery.resolve_right (by simp)
  have hall := hsent.trans hsent'
  rw [List.append_nil, ← List.append_assoc, List.replicate_append_replicate] at hall
  exact ⟨⟨_, recovery', hrecovery', hall⟩, fun hs => hsafe' (hsafe hs)⟩

theorem OrdinaryRun.fails (h : OrdinaryRun call s none t) : OrdinaryRun call s r t := by
  obtain ⟨⟨count, recovery, hrecovery, hsent⟩, hsafe⟩ := h
  exact ⟨⟨count, recovery, .inl (hrecovery.resolve_right (by simp)), hsent⟩, hsafe⟩

variable {reply : Reply}

/-- An ordinary exchange, with the recovery of a block that it left open. -/
theorem runOrdinaryExchange_spec (h : runOrdinaryExchange s call reply recovery = some (t, r)) :
    OrdinaryRun call s r t := by
  have hfailed : ∀ {u failure status}, Exchanged call [.ordinary] s u →
      @Observed Unit s u (.error (failure, status)) →
      failRecovered u call failure status recovery = some (t, r) →
      OrdinaryRun call s r t := by
    intro u failure status hsent hobserved h
    obtain ⟨⟨commands, hcommands, hall⟩, hr, hsafe⟩ := failed_exchange_spec hsent hobserved h
    exact ⟨⟨1, commands, hcommands.imp_right (⟨hr, ·⟩), hall⟩, hsafe⟩
  unfold runOrdinaryExchange at h
  split at h <;> try cases h
  · rename_i hexchange
    obtain ⟨hsent, hobserved⟩ := runKnownExchange_spec hexchange
    exact hfailed hsent hobserved h
  · rename_i u status hexchange
    obtain ⟨hsent, hobserved⟩ := runKnownExchange_spec hexchange
    split at h
    · rename_i hidle
      cases h
      subst hidle
      exact ⟨⟨1, [], .inl rfl, hsent⟩, fun _ => .inl hobserved⟩
    · exact hfailed hsent (hobserved.of_ok _) h

/-- A reply that the plan's exchanges may get. -/
def Replies.Has (replies : Replies) (plan : Plan) (reply : Reply) : Prop :=
  reply = replies.exchange ∨ (plan = .describe ∧ reply = replies.describe)

variable {replies : Replies} {plan : Plan}

/-- A plan of one or two exchanges has what each exchange has, if it composes. -/
theorem runQueryPlan_spec {P : State → Option Failure → State → Prop}
    (htrans : ∀ {s t u r}, P s none t → P t r u → P s r u)
    (hfails : ∀ {s t r}, P s none t → P s r t)
    (hexchange : ∀ {s t reply r}, replies.Has plan reply → exchange s reply = some (t, r) →
      P s r t)
    (h : runQueryPlan exchange s plan replies = some (t, r)) : P s r t := by
  unfold runQueryPlan at h
  split at h
  · exact hexchange (.inl rfl) h
  · split at h <;> try cases h
    · rename_i hdescribe
      exact hexchange (.inr ⟨rfl, rfl⟩) hdescribe
    · rename_i hdescribe
      split at h
      · cases h
        exact hfails (hexchange (.inr ⟨rfl, rfl⟩) hdescribe)
      · exact htrans (hexchange (.inr ⟨rfl, rfl⟩) hdescribe) (hexchange (.inl rfl) h)

/-- A raw exchange; what it does to the transaction block is up to its sender. -/
theorem runRaw_spec (h : runRaw s call o = some t) :
    Exchanged call [.ordinary] s t ∧
      (s.Safe → ¬ (o.result.isOk = true ∧ o.inBlock = true) → t.Safe) := by
  have hsend := send_exchanged s call .ordinary o
  unfold runRaw at h
  split at h <;> try cases h
  rename_i hbelievable
  obtain ⟨-, hnotStarted⟩ := not_not.mp hbelievable
  split at h <;> cases h
  · rename_i failure hresult
    have hpoison := hsend.poison failure false
    refine ⟨hpoison, fun hs _ => ?_⟩
    by_cases hstarted : failure.NotStarted
    · rcases hs with hs | hs
      · refine .inl ?_
        rw [poison_frame]
        simp only [hresult] at hnotStarted
        exact (hnotStarted hstarted).trans hs
      · exact .inr (hpoison.poisoned hs)
    · exact .inr (poison_isSome _ false hstarted)
  · rename_i response hresult
    refine ⟨hsend, fun _ hleft => .inl ?_⟩
    show o.inBlock = false
    simpa [hresult, Except.isOk, Except.toBool] using hleft

theorem runBackup_spec (s : State) (call : Nat) (o : Outcome Failure) :
    OrdinaryRun call s none (runBackup s call o) := by
  have hsend := send_exchanged s call .ordinary { o with inBlock := s.inBlock }
  have hsafe : s.Safe → (s.send call .ordinary { o with inBlock := s.inBlock }).Safe := id
  unfold runBackup
  split
  · refine ⟨⟨1, [], .inl rfl, hsend.poison _ false⟩, fun hs => ?_⟩
    rcases hsafe hs with hs | hs
    · exact .inl (by rw [poison_frame]; exact hs)
    · exact .inr (poison_mono _ false hs)
  · exact ⟨⟨1, [], .inl rfl, hsend⟩, hsafe⟩

/-- `BEGIN`, undone when its response is not the expected one. -/
theorem beginControl_spec (h : beginControl s call o recovery = some (t, r)) :
    (∃ commands, (commands = [.begin] ∨ commands = [.begin, .rollback]) ∧
      Exchanged call commands s t ∧ (r = none → commands = [.begin])) ∧
      (r.isSome = true → s.Safe → t.Safe) := by
  have hfailed : ∀ {u failure status}, Exchanged call [.begin] s u →
      @Observed (Option String) s u (.error (failure, status)) →
      failRecovered u call failure status recovery = some (t, r) →
      (∃ commands, (commands = [.begin] ∨ commands = [.begin, .rollback]) ∧
        Exchanged call commands s t ∧ (r = none → commands = [.begin])) ∧
        (r.isSome = true → s.Safe → t.Safe) := by
    intro u failure status hsent hobserved h
    obtain ⟨⟨commands, hcommands, hall⟩, hr, hsafe⟩ := failed_exchange_spec hsent hobserved h
    refine ⟨⟨_, ?_, hall, fun hnone => by simp [hnone] at hr⟩, fun _ => hsafe⟩
    rcases hcommands with rfl | rfl
    · exact .inl rfl
    · exact .inr rfl
  unfold beginControl at h
  split at h <;> try cases h
  · rename_i hcontrol
    obtain ⟨hsent, hobserved⟩ := runControl_spec hcontrol
    exact hfailed hsent hobserved h
  · rename_i u tag status hcontrol
    obtain ⟨hsent, hobserved⟩ := runControl_spec hcontrol
    split at h
    · cases h
      exact ⟨⟨_, .inl rfl, hsent, fun _ => rfl⟩, nofun⟩
    · exact hfailed hsent (hobserved.of_ok _) h

/-- A control command that is admitted ends safely. -/
theorem commitControlBody_spec
    {r : Except Failure Committed} (h : commitControlBody s call o = some (t, r)) :
    Exchanged call [.commit] s t ∧ t.Safe := by
  unfold commitControlBody at h
  split at h <;> try cases h
  · rename_i hcontrol
    exact ⟨(runControl_spec hcontrol).1.poison _ false, .inr (poison_caused ..)⟩
  · rename_i u tag status hcontrol
    obtain ⟨hsent, hobserved⟩ := runControl_spec hcontrol
    split at h
    · rename_i hidle
      cases h
      obtain ⟨-, rfl⟩ := hidle
      exact ⟨hsent, .inl hobserved⟩
    · split at h <;> cases h
      · rename_i hidle
        obtain ⟨-, rfl⟩ := hidle
        exact ⟨hsent, .inl hobserved⟩
      · exact ⟨hsent.poison _ false, .inr (poison_isSome _ false id)⟩

/-- A `ROLLBACK` that fails poisons. -/
theorem rollbackControlBody_spec (h : rollbackControlBody s call o = some (t, r)) :
    Exchanged call [.rollback] s t ∧ t.Safe ∧ (r.isSome = true → t.poisoned.isSome = true) := by
  unfold rollbackControlBody at h
  split at h <;> try cases h
  · rename_i hcontrol
    exact ⟨(runControl_spec hcontrol).1.poison _ false, .inr (poison_caused ..),
      fun _ => poison_caused ..⟩
  · rename_i u tag status hcontrol
    obtain ⟨hsent, hobserved⟩ := runControl_spec hcontrol
    split at h <;> cases h
    · rename_i hidle
      obtain ⟨-, rfl⟩ := hidle
      exact ⟨hsent, .inl hobserved, nofun⟩
    · exact ⟨(hsent.poison _ false).poison _ false, .inr (poison_caused ..),
        fun _ => poison_caused ..⟩

/-- What is known when a control command is not admitted. -/
def Refused (s : State) (admission : Admission) : Prop :=
  admission ≠ .inTime ∨ s.poisoned.isSome = true ∨
    (s.broker = true ∧ s.closeTeardownStarted = true)

variable {admission : Admission}

/-- An admission is refused to a poisoned database or because it expired. -/
theorem admit_error (h : s.admitted admission = some (.error failure)) : Refused s admission := by
  unfold State.admitted at h
  split at h
  · rename_i htimer
    exact .inl (by simp [htimer])
  · split at h
    · rename_i hunhealthy
      refine .inr (.inl ?_)
      unfold State.assertHealthy at hunhealthy
      split at hunhealthy <;> try cases hunhealthy
      rename_i hpoisoned
      simp [hpoisoned]
    · split at h
      · rename_i hteardown
        exact .inr (.inr hteardown)
      · split at h <;> try cases h
        rename_i hlate
        exact .inl (by simp [hlate])

theorem admit_ok (h : s.admitted admission = some (.ok ())) :
    s.poisoned = none ∧ admission = .inTime := by
  unfold State.admitted at h
  split at h
  · split at h <;> cases h
  · rename_i htimer
    split at h <;> try cases h
    rename_i hhealthy
    split at h <;> try cases h
    split at h
    · split at h <;> cases h
    · rename_i hlate
      constructor
      · unfold State.assertHealthy at hhealthy
        split at hhealthy <;> try cases hhealthy
        assumption
      · cases admission with
        | inTime => rfl
        | timer => exact absurd rfl htimer
        | late => exact absurd rfl hlate

/-- A commit that is not admitted changes nothing; one that is sent leaves the session safe. -/
theorem commitControl_spec {r : Except Failure Committed}
    (h : commitControl s call admission o = some (t, r)) :
    (t = s ∧ Refused s admission) ∨
      (s.poisoned = none ∧ Exchanged call [.commit] s t ∧ t.Safe) := by
  unfold commitControl at h
  split at h <;> try cases h
  · rename_i hadmit
    exact .inl ⟨rfl, admit_error hadmit⟩
  · rename_i hadmit
    exact .inr ⟨(admit_ok hadmit).1, commitControlBody_spec h⟩

/-- The same for a rollback. -/
theorem rollbackControl_spec (h : rollbackControl s call admission o = some (t, r)) :
    (t = s ∧ r.isSome = true ∧ Refused s admission) ∨
      (s.poisoned = none ∧ Exchanged call [.rollback] s t ∧ t.Safe ∧
        (r.isSome = true → t.poisoned.isSome = true)) := by
  unfold rollbackControl at h
  split at h <;> try cases h
  · rename_i hadmit
    exact .inl ⟨rfl, rfl, admit_error hadmit⟩
  · rename_i hadmit
    exact .inr ⟨(admit_ok hadmit).1, rollbackControlBody_spec h⟩

/-- The native module did not start the request. -/
def Reply.NotStarted (reply : Reply) : Prop :=
  match reply.outcome.result with
  | .error failure => failure.NotStarted
  | .ok _ => False

instance (reply : Reply) : Decidable reply.NotStarted := by
  unfold Reply.NotStarted
  split <;> infer_instance

/-- The exchanges of a statement of the handle; `notStarted` says that one of them was
not started. -/
structure StatementRun (call : Nat) (notStarted : Prop) (s t : State) : Prop where
  sent : ∃ commands : List Command, (∀ command ∈ commands, command = .statement) ∧
    t = { s with
      inBlock := t.inBlock
      poisoned := t.poisoned
      sent := s.sent ++ commands.map (s.entry call)
      handle := { s.handle with state := t.handle.state, failure := t.handle.failure } }
  poisoned : s.poisoned.isSome = true → t.poisoned.isSome = true
  /-- the handle keeps its state or fails -/
  state : (t.handle.state = s.handle.state ∧ t.handle.failure = s.handle.failure) ∨
    (t.handle.state = .failed ∧ t.handle.failure.isSome = true)
  /-- the first failure is kept -/
  kept : ∀ {first}, s.handle.failure = some first → t.handle.failure = some first
  /-- a failure that asks for no ROLLBACK comes with poison -/
  unrolled : ∀ {failure}, t.handle.failure = some (failure, false) →
    s.handle.failure = some (failure, false) ∨ t.poisoned.isSome = true ∨ notStarted

variable {notStarted : Prop}

theorem StatementRun.of_exchanged
    (h : Exchanged call [.statement] s t) : StatementRun call notStarted s t := by
  refine ⟨⟨[.statement], by simp, ?_⟩, h.poisoned, .inl ⟨by rw [h.handle], by rw [h.handle]⟩,
    fun hs => by rw [h.handle, hs], fun hs => .inl (h.handle ▸ hs)⟩
  rw [h.handle]
  exact h.frame

theorem StatementRun.trans
    (h : StatementRun call notStarted s t) (h' : StatementRun call notStarted t u) :
    StatementRun call notStarted s u := by
  obtain ⟨commands, hstatement, hframe⟩ := h.sent
  obtain ⟨commands', hstatement', hframe'⟩ := h'.sent
  refine ⟨⟨commands ++ commands', fun c hc => ?_, ?_⟩, fun hs => h'.poisoned (h.poisoned hs), ?_,
    fun hs => h'.kept (h.kept hs), fun hu => ?_⟩
  · rcases List.mem_append.mp hc with hc | hc
    · exact hstatement c hc
    · exact hstatement' c hc
  · have hentry : t.entry call = s.entry call := by
      rw [hframe]
      rfl
    rw [hframe', hentry, hframe]
    simp
  · rcases h'.state with ⟨hstate, hfailure⟩ | hfailed
    · rw [hstate, hfailure]
      exact h.state
    · exact .inr hfailed
  · rcases h'.unrolled hu with ht | ht | ht
    · rcases h.unrolled ht with hs | hs | hs
      · exact .inl hs
      · exact .inr (.inl (h'.poisoned hs))
      · exact .inr (.inr hs)
    · exact .inr (.inl ht)
    · exact .inr (.inr ht)

theorem StatementRun.markFailed (h : Exchanged call [.statement] s t)
    (hframe : u = { t.setHandle (t.handle.markFailed failure needsRollback) with
      poisoned := u.poisoned }) (hpoisoned : t.poisoned.isSome = true → u.poisoned.isSome = true)
    (hunrolled : needsRollback = false → u.poisoned.isSome = true ∨ notStarted) :
    StatementRun call notStarted s u := by
  have hhandle : u.handle = s.handle.markFailed failure needsRollback := by
    rw [hframe, ← h.handle]
    rfl
  refine ⟨⟨[.statement], by simp, ?_⟩, fun hs => hpoisoned (h.poisoned hs),
    .inr ⟨by rw [hhandle]; rfl, by rw [hhandle]; rfl⟩, fun hs => ?_, fun hu => ?_⟩
  · rw [hframe, h.frame]
    rfl
  · rw [hhandle]
    simp [Handle.markFailed, hs]
  · rw [hhandle] at hu
    simp only [Handle.markFailed, Option.some.injEq] at hu
    cases hs : s.handle.failure with
    | some first =>
      rw [hs] at hu
      exact .inl (congrArg some hu)
    | none =>
      rw [hs] at hu
      exact .inr (hunrolled (congrArg Prod.snd hu))

/-- A statement of a handle, which may mark it as failed. -/
theorem runTransactionExchange_spec (h : runTransactionExchange s call reply = some (t, r)) :
    StatementRun call reply.NotStarted s t := by
  unfold runTransactionExchange at h
  split at h <;> try cases h
  · rename_i u failure status hexchange
    obtain ⟨hsent, hobserved⟩ := runKnownExchange_spec hexchange
    split at h <;> cases h
    · refine .markFailed hsent (by rw [poison_frame]) (fun hu => poison_mono failure false hu)
        fun _ => ?_
      by_cases hstarted : failure.NotStarted
      · right
        unfold Reply.NotStarted
        rw [runKnownExchange_notStarted hexchange hstarted]
        exact hstarted
      · exact .inl (poison_isSome _ false hstarted)
    · exact .of_exchanged hsent
  · rename_i u status hexchange
    obtain ⟨hsent, hobserved⟩ := runKnownExchange_spec hexchange
    split at h
    · cases h
      exact .of_exchanged hsent
    · rename_i htransaction
      cases status with
      | transaction => exact absurd rfl htransaction
      | idle =>
        dsimp only at h
        rw [if_pos rfl] at h
        cases h
        exact .markFailed hsent (poison_frame ..) (fun hu => poison_mono _ false hu)
          fun _ => .inl (poison_isSome _ false id)
      | failed =>
        cases h
        exact .markFailed hsent rfl id nofun

/-- A statement of the handle, with both exchanges of a described one. -/
theorem runStatement_spec
    (h : runQueryPlan (fun s => runTransactionExchange s call) s plan replies = some (t, r)) :
    StatementRun call (∃ reply, replies.Has plan reply ∧ reply.NotStarted) s t := by
  refine runQueryPlan_spec (P := fun s _ t => StatementRun call _ s t) .trans id
    (fun hhas hexchange => ?_) h
  have hrun := runTransactionExchange_spec hexchange
  exact ⟨hrun.sent, hrun.poisoned, hrun.state, hrun.kept,
    fun hu => (hrun.unrolled hu).imp_right (.imp_right fun hstarted => ⟨_, hhas, hstarted⟩)⟩

end Oliphaunt.ReactNative
