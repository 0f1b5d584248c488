import Oliphaunt.TS.ReactNativeExchange

/-!
# Oliphaunt — the turns of the React Native database

The three kinds of step that send something are the turn of a database call, the
turn of an operation of the transaction handle, and the settlement of a drained
transaction. Each of them is described here by one inductive proposition with a
case for everything it can do, and `Stepped` has a case for every kind of step; the
invariants are proved over these cases.
-/

namespace Oliphaunt.ReactNative

/-- A transaction that has not expired. -/
def Queued.live (q : Queued) : Bool := q.operation = .transaction && !q.expired

/-- The raw traffic of the call ends well and inside a block. -/
def LeavesBlockOpen (op : Operation) (replies : Replies) : Prop :=
  (op = .execProtocolRaw ∨ op = .execProtocolRawStream) ∧
    replies.exchange.outcome.result.isOk = true ∧ replies.exchange.outcome.inBlock = true

instance (op : Operation) (replies : Replies) : Decidable (LeavesBlockOpen op replies) :=
  inferInstanceAs (Decidable (_ ∧ _))

/-- A step of the callers of the database: neither a transaction nor PostgreSQL nor the
records change. -/
def Quiet (s t : State) : Prop :=
  t = { s with
    closed := t.closed
    closing := t.closing
    closeTeardownStarted := t.closeTeardownStarted
    activeTransaction := t.activeTransaction
    operationTail := t.operationTail
    nextCall := t.nextCall }

theorem callOperation_quiet (s : State) (op : Operation) : Quiet s (callOperation s op) := by
  unfold callOperation
  split
  · rfl
  · split <;> rfl

theorem startClose_quiet (s : State) : Quiet s (startClose s) := by
  unfold startClose
  split <;> rfl

theorem finishClose_quiet (s : State) (closes : Bool) : Quiet s (finishClose s closes) := by
  unfold finishClose
  split <;> rfl

variable {s t : State}

theorem expireOperation_quiet (h : expireOperation s index = some t) : Quiet s t := by
  unfold expireOperation at h
  split at h <;> try cases h
  split at h <;> cases h
  rfl

/-! ## The turn of a database call -/

/-- What the turn of `q` can do, from a state `s` in which it has left the chain. -/
inductive Started (s : State) (q : Queued) (replies : Replies) : State → Prop where
  /-- the place was given up, or its call is refused -/
  | skipped : Started s q replies
      { s with activeTransaction := if q.live then false else s.activeTransaction }
  | ordinary (t : State) (count : Nat) (recovery : List Command) : q.live = false →
      (recovery = [] ∨ recovery = [.rollback]) →
      Exchanged q.call (List.replicate count .ordinary ++ recovery) s t →
      (s.Safe → ¬ LeavesBlockOpen q.operation replies → t.Safe) → Started s q replies t
  | begun (t : State) : q.live = true → s.poisoned = none →
      Exchanged q.call [.begin] (s.setHandle .fresh) t →
      Started s q replies { t with running := some (q.call, .body) }
  | failed (t : State) (commands : List Command) (error : Option Failure) : q.live = true →
      (commands = [.begin] ∨ commands = [.begin, .rollback]) →
      Exchanged q.call commands (s.setHandle .fresh) t → (s.Safe → t.Safe) →
      Started s q replies (t.settle q.call error)

variable {replies : Replies} {q : Queued} {w : Waiting}

/-- What a database call can do once its admission holds. -/
theorem runBody_cases (hexpired : q.expired = false) (hhealthy : s.poisoned = none)
    (h : runBody s q.call q.operation replies = some t) : Started s q replies t := by
  have hordinary : ∀ {r}, q.operation ≠ .transaction → OrdinaryRun q.call s r t →
      Started s q replies t := by
    rintro r hop ⟨⟨count, recovery, hrecovery, hsent⟩, hsafe⟩
    exact .ordinary t count recovery (by simp [Queued.live, hop])
      (hrecovery.imp_right And.right) hsent fun hs _ => hsafe hs
  have hraw : LeavesBlockOpen q.operation replies ↔
      (q.operation = .execProtocolRaw ∨ q.operation = .execProtocolRawStream) ∧
        replies.exchange.outcome.result.isOk = true ∧ replies.exchange.outcome.inBlock = true :=
    Iff.rfl
  unfold runBody at h
  split at h
  · rename_i plan hop
    obtain ⟨⟨u, r⟩, hplan, rfl⟩ := Option.map_eq_some_iff.mp h
    refine hordinary (r := r) (by simp [hop]) ?_
    exact runQueryPlan_spec (P := OrdinaryRun q.call) .trans .fails
      (fun _ hexchange => runOrdinaryExchange_spec hexchange) hplan
  · rename_i hop
    obtain ⟨hsent, hsafe⟩ := runRaw_spec h
    refine .ordinary t 1 [] (by simp [Queued.live, hop]) (.inl rfl) hsent fun hs hleft =>
      hsafe hs fun hopen => hleft (hraw.mpr ⟨.inl hop, hopen⟩)
  · rename_i hop
    obtain ⟨hsent, hsafe⟩ := runRaw_spec h
    refine .ordinary t 1 [] (by simp [Queued.live, hop]) (.inl rfl) hsent fun hs hleft =>
      hsafe hs fun hopen => hleft (hraw.mpr ⟨.inr hop, hopen⟩)
  · rename_i hop
    cases h
    exact hordinary (by simp [hop]) (runBackup_spec s q.call _)
  · rename_i hop
    have hlive : q.live = true := by simp [Queued.live, hop, hexpired]
    split at h <;> cases h
    · rename_i u failure hbegin
      obtain ⟨⟨commands, hcommands, hsent, -⟩, hsafe⟩ := beginControl_spec hbegin
      exact .failed u commands _ hlive hcommands hsent fun hs => hsafe rfl hs
    · rename_i u hbegin
      obtain ⟨⟨commands, -, hsent, hnone⟩, -⟩ := beginControl_spec hbegin
      obtain rfl := hnone rfl
      exact .begun u hlive hhealthy hsent

variable {late : Bool}

/-- What the turn of a database call can do. -/
theorem startOperation_cases (h : startOperation s q rest late replies = some t) :
    Started { s with operationTail := rest } q replies t := by
  unfold startOperation at h
  dsimp only at h
  split at h
  · rename_i hexpired
    cases h
    have hlive : q.live = false := by simp [Queued.live, hexpired]
    have hskipped : Started { s with operationTail := rest } q replies _ := .skipped
    simpa [hlive] using hskipped
  · rename_i hexpired
    split at h <;> try cases h
    · have hskipped : Started { s with operationTail := rest } q replies _ := .skipped
      by_cases hop : q.operation = .transaction
      · have hlive : q.live = true := by simp [Queued.live, hop, hexpired]
        simpa [hlive, hop] using hskipped
      · have hlive : q.live = false := by simp [Queued.live, hop]
        simpa [hlive, hop] using hskipped
    · rename_i hadmit
      exact runBody_cases (by simpa using hexpired) (admit_ok hadmit).1 h

/-! ## The turn of an operation of the handle -/

/-- One of the exchanges of a statement was not started. -/
def Replies.NotStarted (replies : Replies) (plan : Plan) : Prop :=
  replies.exchange.NotStarted ∨ (plan = .describe ∧ replies.describe.NotStarted)

instance (replies : Replies) (plan : Plan) : Decidable (replies.NotStarted plan) :=
  inferInstanceAs (Decidable (_ ∨ _))

/-- The handle has its first failure. -/
def State.noteFailure (s : State) (first : Option Failure) : State :=
  s.setHandle { s.handle with firstFailure := first }

/-- What the turn of `w` can do, from a state `s` in which it has left the chain. -/
inductive HandleStarted (s : State) (call : Nat) (w : Waiting) (late : Bool)
    (control : Admission) (replies : Replies) : State → Prop where
  | skipped (first : Option Failure) :
      (w.expired = true ∨ Refused s (if late then .late else .inTime)) →
      HandleStarted s call w late control replies (s.noteFailure first)
  | statement (t : State) (plan : Plan) (first : Option Failure) :
      w.operation = .statement plan → StatementRun call (replies.NotStarted plan) s t →
      HandleStarted s call w late control replies (t.noteFailure first)
  | rolledBack (t : State) : w.operation = .rollback → s.poisoned = none →
      Exchanged call [.rollback] s t → t.Safe →
      HandleStarted s call w late control replies
        (t.setHandle { t.handle with state := .rolledBack })
  /-- the `ROLLBACK` was not admitted -/
  | rollbackRefused (failure : Failure) (first : Option Failure) : w.operation = .rollback →
      Refused s control →
      HandleStarted s call w late control replies
        ((s.setHandle (s.handle.markFailed failure false)).noteFailure first)
  | rollbackFailed (t : State) (failure : Failure) (first : Option Failure) :
      w.operation = .rollback → s.poisoned = none → Exchanged call [.rollback] s t →
      t.poisoned.isSome = true →
      HandleStarted s call w late control replies
        ((t.setHandle (t.handle.markFailed failure false)).noteFailure first)

variable {call : Nat} {control : Admission}

theorem runHandleBody_cases (first : Option Failure)
    (h : runHandleBody s call w.operation control replies = some (t, r))
    (hfirst : r = none → first = t.handle.firstFailure) :
    HandleStarted s call w late control replies (t.noteFailure first) := by
  unfold runHandleBody at h
  split at h
  · rename_i plan hop
    refine .statement t plan first hop ?_
    have hrun := runStatement_spec h
    refine ⟨hrun.sent, hrun.poisoned, hrun.state, hrun.kept, fun hu =>
      (hrun.unrolled hu).imp_right (.imp_right ?_)⟩
    rintro ⟨reply, rfl | ⟨hplan, rfl⟩, hstarted⟩
    · exact .inl hstarted
    · exact .inr ⟨hplan, hstarted⟩
  · rename_i hop
    split at h <;> cases h
    · rename_i u failure hcontrol
      rcases rollbackControl_spec hcontrol with ⟨rfl, -, hrefused⟩ | ⟨hhealthy, hsent, -, hpoisoned⟩
      · exact .rollbackRefused failure first hop hrefused
      · exact .rollbackFailed u failure first hop hhealthy hsent (hpoisoned rfl)
    · rename_i u hcontrol
      rcases rollbackControl_spec hcontrol with ⟨rfl, hr, -⟩ | ⟨hhealthy, hsent, hsafe, -⟩
      · cases hr
      · rw [hfirst rfl]
        exact .rolledBack u hop hhealthy hsent hsafe

/-- What the turn of a handle's operation can do. -/
theorem startHandleOperation_cases
    (h : startHandleOperation s call w rest late control replies = some t) :
    HandleStarted (s.setHandle { s.handle with tail := rest }) call w late control replies t := by
  unfold startHandleOperation at h
  dsimp only at h
  split at h
  · rename_i hexpired
    cases h
    exact .skipped _ (.inl hexpired)
  · split at h <;> try cases h
    · rename_i hadmit
      exact .skipped _ (.inr (admit_error hadmit))
    · split at h <;> cases h
      · rename_i hbody
        exact runHandleBody_cases _ hbody nofun
      · rename_i u hbody
        exact runHandleBody_cases _ hbody fun _ => rfl

/-! ## The settlement of a transaction -/

/-- The settlement ends with `COMMIT` or `ROLLBACK`. -/
def Settlement.needsControl : Settlement → Bool
  | .ready => true
  | .rolledBack => false
  | .failed _ needsRollback => needsRollback

/-- What the settlement of the drained transaction `call` can do. -/
inductive Drained (s : State) (call : Nat) (control : Admission) : State → Prop where
  | uncontrolled (error : Option Failure) : s.handle.settlement.needsControl = false →
      Drained s call control (s.settle call error)
  | refused (error : Option Failure) : Refused s control →
      s.handle.settlement.needsControl = true → Drained s call control (s.settle call error)
  | committed (t : State) (error : Option Failure) : s.handle.settlement = .ready →
      s.poisoned = none → Exchanged call [.commit] s t → t.Safe →
      Drained s call control (t.settle call error)
  | rolledBack (t : State) (error : Option Failure) :
      s.handle.settlement.needsControl = true → s.poisoned = none →
      Exchanged call [.rollback] s t → t.Safe → Drained s call control (t.settle call error)

variable {o : Outcome Failure}

theorem settleRollback_cases (hneeds : s.handle.settlement.needsControl = true)
    (h : settleRollback s call primary control o = some t) : Drained s call control t := by
  have hcases : ∀ {u : State} {r : Option Failure} (error : Option Failure),
      rollbackControl s call control o = some (u, r) →
      Drained s call control (u.settle call error) := by
    intro u r error hcontrol
    rcases rollbackControl_spec hcontrol with ⟨rfl, -, hrefused⟩ | ⟨hhealthy, hsent, hsafe, -⟩
    · exact .refused error hrefused hneeds
    · exact .rolledBack u error hneeds hhealthy hsent hsafe
  unfold settleRollback at h
  split at h <;> cases h
  · rename_i hcontrol
    exact hcases _ hcontrol
  · rename_i hcontrol
    exact hcases _ hcontrol

/-- The settlement of a callback that threw, -/
theorem settleThrown_cases (h : settleThrown s call thrown control o = some t) :
    Drained s call control t := by
  unfold settleThrown at h
  split at h
  · rename_i hready
    exact settleRollback_cases (by rw [hready]; rfl) h
  · rename_i hfailed
    split at h
    · rename_i hneeds
      exact settleRollback_cases (by rw [hfailed]; exact hneeds) h
    · rename_i hneeds
      have hno : s.handle.settlement.needsControl = false := by
        rw [hfailed]
        exact Bool.eq_false_iff.mpr hneeds
      split at h <;> cases h
      · exact .uncontrolled _ hno
      · exact .uncontrolled _ hno
  · rename_i hrolledBack
    cases h
    exact .uncontrolled _ (by rw [hrolledBack]; rfl)

/-- and of one that returned. -/
theorem settleReturned_cases (h : settleReturned s call control o = some t) :
    Drained s call control t := by
  unfold settleReturned at h
  split at h
  · rename_i hrolledBack
    cases h
    exact .uncontrolled _ (by rw [hrolledBack]; rfl)
  · rename_i hfailed
    split at h
    · rename_i hneeds
      exact settleRollback_cases (by rw [hfailed]; exact hneeds) h
    · rename_i hneeds
      cases h
      refine .uncontrolled _ ?_
      rw [hfailed]
      exact Bool.eq_false_iff.mpr hneeds
  · rename_i hready
    have hcases : ∀ {u : State} {r : Except Failure Committed} (error : Option Failure),
        commitControl s call control o = some (u, r) →
        Drained s call control (u.settle call error) := by
      intro u r error hcontrol
      rcases commitControl_spec hcontrol with ⟨rfl, hrefused⟩ | ⟨hhealthy, hsent, hsafe⟩
      · exact .refused error hrefused (by rw [hready]; rfl)
      · exact .committed u error hready hhealthy hsent hsafe
    split at h <;> cases h
    · rename_i hcontrol
      exact hcases _ hcontrol
    · rename_i hcontrol
      exact hcases _ hcontrol
    · rename_i hcontrol
      exact hcases _ hcontrol

/-- What an action can do. -/
inductive Stepped (s : State) : Action → State → Prop where
  | call (op : Operation) : Stepped s (.call op) (callOperation s op)
  | handleCall (op : HandleOperation) :
      Stepped s (.handleCall op) (s.setHandle (s.handle.enqueue op))
  /-- the callback has returned or thrown -/
  | sealed {a : Action} (call : Nat) (phase : Phase) : s.running = some (call, .body) →
      Stepped s a { s with running := some (call, phase), handle := s.handle.seal }
  | close : Stepped s .close (startClose s)
  | expire {index : Nat} {t : State} : expireOperation s index = some t →
      Stepped s (.expire index) t
  | handleExpire {index : Nat} {w : Waiting} (first : Option Failure) :
      s.handle.tail[index]? = some w →
      Stepped s (.handleExpire index) (s.setHandle { s.handle with
        tail := s.handle.tail.set index { w with expired := true }, firstFailure := first })
  | start {q : Queued} {rest : List Queued} {late : Bool} {replies : Replies} {t : State} :
      s.running = none → s.operationTail = q :: rest →
      Started { s with operationTail := rest } q replies t → Stepped s (.start late replies) t
  | handleStart {call : Nat} {phase : Phase} {w : Waiting} {rest : List Waiting} {late : Bool}
      {control : Admission} {replies : Replies} {t : State} :
      s.running = some (call, phase) → s.handle.tail = w :: rest →
      HandleStarted (s.setHandle { s.handle with tail := rest }) call w late control replies t →
      Stepped s (.handleStart late control replies) t
  | drained {call : Nat} {phase : Phase} {control : Admission} {o : Outcome Failure} {t : State} :
      s.running = some (call, phase) → s.handle.tail = [] → Drained s call control t →
      Stepped s (.drained control o) t
  | closeSettles (closes : Bool) : s.closing = true →
      Stepped s (.closeSettles closes) (finishClose s closes)

/-- **Every step is one of the listed kinds.** -/
theorem step_cases (h : step s a = some t) : Stepped s a t := by
  cases a
  all_goals simp only [step] at h
  case call op =>
    cases h
    exact .call op
  case handleCall op =>
    cases h
    exact .handleCall op
  case callbackReturns | callbackThrows failure =>
    split at h <;> cases h
    rename_i call hrunning
    exact .sealed call _ hrunning
  case close =>
    cases h
    exact .close
  case expire index => exact .expire h
  case handleExpire index =>
    simp only [expireHandleOperation] at h
    split at h <;> try cases h
    rename_i w hw
    split at h <;> cases h
    exact .handleExpire _ hw
  case start late replies =>
    split at h <;> try cases h
    rename_i q rest hidle htail
    exact .start hidle htail (startOperation_cases h)
  case handleStart late control replies =>
    split at h <;> try cases h
    rename_i hrunning htail
    exact .handleStart hrunning htail (startHandleOperation_cases h)
  case drained control o =>
    split at h <;> try cases h
    · rename_i hrunning htail
      exact .drained hrunning htail (settleReturned_cases h)
    · rename_i hrunning htail
      exact .drained hrunning htail (settleThrown_cases h)
  case closeSettles closes =>
    split at h <;> cases h
    rename_i hclosing
    exact .closeSettles closes hclosing.1

end Oliphaunt.ReactNative
