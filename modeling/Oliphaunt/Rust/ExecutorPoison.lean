import Oliphaunt.Rust.PinOwner

/-!
# Oliphaunt — engine calls of a poisoned native Rust session

`transaction_poisoned` is the executor's statement that the state of the
PostgreSQL session is unknown. `send` refuses work once it is set, but the
commands that were admitted before are still in the FIFO, and of the commands
the owner executes only the controls look at the flag again: work reaches the
engine when it passes the checks of its own command (`dispatches`).

The last result is about a session that is not poisoned: the block of a callback
transaction is entered by its own commands only (`block_entered_by_owner`).

* `poisoned_work_refused_iff` — when a poisoned session refuses all work;
* `poisoned_session_calls_engine` — a run in which it does not.
-/

namespace Oliphaunt.Rust

open Transition Option Bool

/-- `Exec`, `StructuredExec`, `PinnedStructuredExec`, `Stream` and `Begin`, with
or without a cancellation request. -/
def Command.isWork : Command → Bool
  | .cancellable command _ => command.isWork
  | .exec _ | .structuredExec .. | .pinnedStructuredExec .. | .stream _ | .begin _ => true
  | _ => false

def Answer.isError : Answer → Bool
  | some (.error _) => true
  | _ => false

/-- The checks `execute_command` makes before it hands work to the engine: the
pin, the guard of a statement, the token space of a `Begin`. -/
def State.dispatches (s : State) : Command → Bool
  | .cancellable command request => !s.cancelled request && s.dispatches command
  | .exec _ | .structuredExec .. | .stream _ => s.activePin.isNone
  | .begin _ => s.activePin.isNone && decide (s.nextPin + 1 < 2 ^ 64)
  | .pinnedStructuredExec token client _ _ =>
    decide (s.activePin = some token) && decide ((s.guards client).state = .active)
  | _ => false

/-! ## Engine calls of the single operations -/

section

variable (s : State)

include s

@[simp] theorem poison_calls : s.poison.calls = s.calls := rfl

@[simp] theorem setGuard_calls (c : Nat) (g : TransactionGuard) :
    (s.setGuard c g).calls = s.calls := rfl

@[simp] theorem setClient_calls (c : Nat) (v : Client) : (s.setClient c v).calls = s.calls := rfl

@[simp] theorem exchange_calls (who : BlockOwner) (inBlock : Bool) :
    (s.exchange who inBlock).calls = s.calls + 1 := rfl

@[simp] theorem exchangeBegin_calls (token : Nat) (inBlock : Bool) :
    (s.exchangeBegin token inBlock).calls = s.calls + 1 := rfl

@[simp] theorem rememberFailure_calls (error : Error) :
    (s.rememberFailure error).calls = s.calls := by
  cases error <;> rfl

@[simp] theorem sendBegin_calls (c : Nat) (value : Except Error Nat) :
    (s.sendBegin c value).1.calls = s.calls := by
  unfold State.sendBegin
  split <;> rfl

@[simp] theorem sendControl_calls (c : Nat) (value : Except Error Response) :
    (s.sendControl c value).calls = s.calls := by
  unfold State.sendControl
  split <;> rfl

@[simp] theorem sendRelease_calls (c : Nat) (value : Except Error Unit) :
    (s.sendRelease c value).calls = s.calls := by
  unfold State.sendRelease
  split <;> rfl

@[simp] theorem dropCommand_calls (command : Command) :
    (s.dropCommand command).calls = s.calls := by
  induction command with
  | cancellable command request ih => exact ih
  | releasePin token reply =>
    cases reply with
    | none => rfl
    | some c => exact sendRelease_calls s c _
  | begin c => exact sendBegin_calls s c _
  | pinnedExec token c control => exact sendControl_calls s c _
  | _ => rfl

theorem executeRawOperation_calls (who : BlockOwner) (e : Engine) :
    s.calls < (executeRawOperation s who e).1.calls := by
  unfold executeRawOperation
  split
  · split <;> simp
  · simp

theorem executeStructuredOperation_calls (operation : String) (e : Engine) :
    s.calls < (executeStructuredOperation s operation e).1.calls := by
  unfold executeStructuredOperation
  split
  · simp
  · split
    · simp
    · simp
    · split <;> exact Nat.lt_succ_of_lt (Nat.lt_succ_self s.calls)

theorem executeStream_calls (e : Engine) : s.calls < (executeStream s e).1.calls := by
  unfold executeStream
  split <;> simp

theorem executeTransactionStructuredOperation_calls (token client : Nat) (operation : String)
    (e : Engine) (hactive : (s.guards client).state = .active) :
    s.calls < (executeTransactionStructuredOperation s token client operation e).1.calls := by
  unfold executeTransactionStructuredOperation
  rw [if_neg (not_not.mpr hactive)]
  split
  · simp [failTransactionGuard]
  · split <;> simp [failTransactionGuard]

theorem beginTransaction_calls (token : Nat) (e : Engine) :
    s.calls < (beginTransaction s token e).1.calls := by
  unfold beginTransaction
  split
  · simp
  · split
    · simp
    · split
      · simp
      · simp
      · split <;> exact Nat.lt_succ_of_lt (Nat.lt_succ_self s.calls)

theorem rollbackActivePin_calls_le (token : Nat) (o : Outcome Error) :
    s.calls ≤ (rollbackActivePin s token o).calls := by
  unfold rollbackActivePin
  split
  · exact Nat.le_refl _
  · split
    · exact Nat.le_refl _
    · split <;> simp

/-- Work that passes the checks reaches the engine. -/
theorem executeCommand_dispatched (e : Engine) (command : Command)
    (hdispatch : s.dispatches command = true) : s.calls < (executeCommand s e command).1.calls := by
  induction command with
  | cancellable command request ih =>
    simp only [State.dispatches, and_eq_true, not_eq_true'] at hdispatch
    simp only [executeCommand, hdispatch.1, false_eq_true, if_false]
    exact ih hdispatch.2
  | exec op =>
    simp only [State.dispatches, isNone_iff_eq_none] at hdispatch
    simp only [executeCommand, hdispatch, isSome_none, false_eq_true, if_false]
    exact executeRawOperation_calls s .other e
  | structuredExec op operation =>
    simp only [State.dispatches, isNone_iff_eq_none] at hdispatch
    simp only [executeCommand, hdispatch, isSome_none, false_eq_true, if_false]
    exact executeStructuredOperation_calls s operation e
  | stream op =>
    simp only [State.dispatches, isNone_iff_eq_none] at hdispatch
    simp only [executeCommand, hdispatch, isSome_none, false_eq_true, if_false]
    exact executeStream_calls s e
  | pinnedStructuredExec token client op operation =>
    simp only [State.dispatches, and_eq_true, decide_eq_true_eq] at hdispatch
    simp only [executeCommand, hdispatch.1, if_true]
    exact executeTransactionStructuredOperation_calls s token client operation e hdispatch.2
  | begin client =>
    simp only [State.dispatches, and_eq_true, isNone_iff_eq_none,
      decide_eq_true_eq] at hdispatch
    have hcalled := beginTransaction_calls { s with nextPin := s.nextPin + 1 } s.nextPin e
    have hpin : s.activePin.isSome = false := by rw [hdispatch.1]; rfl
    simp only [executeCommand, hpin, false_eq_true, if_false, allocatePin, hdispatch.2,
      if_true]
    split
    · simpa using hcalled
    · split
      · simpa using hcalled
      · exact Nat.lt_of_lt_of_le (by simpa using hcalled) (rollbackActivePin_calls_le _ _ _)
  | _ => simp [State.dispatches] at hdispatch

/-- Work that does not pass the checks is answered with an error and does not
reach the engine. -/
theorem executeCommand_refused (e : Engine) (command : Command) (hwork : command.isWork = true)
    (hrefused : s.dispatches command = false) : (executeCommand s e command).1.calls = s.calls ∧
      (executeCommand s e command).2.isError = true := by
  induction command with
  | cancellable command request ih =>
    simp only [executeCommand]
    by_cases hcancelled : s.cancelled request = true
    · simp [hcancelled, Answer.isError]
    · simp only [State.dispatches, hcancelled, Bool.not_false, Bool.true_and] at hrefused
      simp only [hcancelled, false_eq_true, if_false]
      exact ih hwork hrefused
  | exec op | structuredExec op operation | stream op =>
    have hpinned : s.activePin.isSome = true := by
      simpa [State.dispatches, isSome_iff_ne_none] using hrefused
    simp [executeCommand, hpinned, Answer.isError]
  | pinnedStructuredExec token client op operation =>
    simp only [executeCommand]
    by_cases hpin : s.activePin = some token
    · have hguard : (s.guards client).state ≠ .active := by
        simpa [State.dispatches, hpin] using hrefused
      simp [hpin, executeTransactionStructuredOperation, hguard, answerOf, Answer.isError,
        Except.map]
    · simp [hpin, Answer.isError]
  | begin client =>
    simp only [executeCommand]
    by_cases hpin : s.activePin = none
    · have hspace : ¬ s.nextPin + 1 < 2 ^ 64 := by
        simpa [State.dispatches, hpin] using hrefused
      simp only [hpin, allocatePin, if_neg hspace, Answer.isError]
      simp
    · have hpinned : s.activePin.isSome = true := isSome_iff_ne_none.mpr hpin
      simp [hpinned, Answer.isError]
  | _ => simp [Command.isWork] at hwork

end

/-- In a poisoned state the owner answers work with an error and leaves the
engine alone. -/
def RefusesWhenPoisoned (s : State) : Action → Prop
  | .execute e =>
    ∀ command ∈ s.current, s.transactionPoisoned = true → command.isWork = true →
      (executeCommand { s with current := none } e command).1.calls = s.calls ∧
        (executeCommand { s with current := none } e command).2.isError = true
  | _ => True

instance (s : State) : ∀ a, Decidable (RefusesWhenPoisoned s a)
  | .execute _ => decidableForallMemOption _
  | .receive | .submit .. | .dropOp _ | .cancel _ | .close | .dropHandle | .transaction _
  | .pollSend _ | .pollBegin _ | .statement .. | .rollback _ | .pollRollback _
  | .abandonRollback _ | .finishBody .. | .settle _ | .pollCommit _ | .pollRelease _
  | .drop _ => isTrue trivial

/-- No poisoned owner step meets work that passes the checks of its command. -/
def NoPoisonedDispatch (s : State) : Action → Prop
  | .execute _ => ∀ command ∈ s.current, s.transactionPoisoned = true →
      s.dispatches command = false
  | _ => True

theorem isWork_of_dispatches {s : State} (hdispatch : s.dispatches command = true) :
    command.isWork = true := by
  induction command with
  | cancellable command request ih =>
    simp only [State.dispatches, and_eq_true] at hdispatch
    exact ih hdispatch.2
  | exec | structuredExec | pinnedStructuredExec | stream | begin => rfl
  | _ => cases hdispatch

section

variable (s : State)

include s

/-- Taking the command off the owner's hands changes none of its checks. -/
@[simp] theorem dispatches_received (command : Command) :
    State.dispatches { s with current := none } command = s.dispatches command := by
  induction command with
  | cancellable command request ih => simp only [State.dispatches, ih]
  | _ => rfl

/-- One step: work is refused while poisoned unless it passes the checks of its command. -/
theorem refusesWhenPoisoned_iff (a : Action) :
    RefusesWhenPoisoned s a ↔ NoPoisonedDispatch s a := by
  cases a with
  | execute e =>
    constructor
    · intro hrefuses command hcurrent hpoisoned
      rw [← not_eq_true]
      intro hdispatch
      have hcalls :=
        (hrefuses command hcurrent hpoisoned (isWork_of_dispatches hdispatch)).1
      have hcalled := executeCommand_dispatched { s with current := none } e command
        (by rw [dispatches_received, hdispatch])
      exact Nat.lt_irrefl _ (hcalls ▸ hcalled)
    · intro hnone command hcurrent hpoisoned hwork
      exact executeCommand_refused { s with current := none } e command hwork
        (by rw [dispatches_received, hnone command hcurrent hpoisoned])
  | _ => exact Iff.rfl

/-- **Poisoned sessions.** From every state and along every schedule, a poisoned
session refuses all work without calling the engine if and only if no poisoned
owner step meets work that passes the checks of its command. -/
theorem poisoned_work_refused_iff (schedule : List Action) :
    Along step RefusesWhenPoisoned s schedule ↔ Along step NoPoisonedDispatch s schedule :=
  along_congr refusesWhenPoisoned_iff s schedule

end

/-- An engine whose every exchange fails in transport. -/
def transportFailure : Engine where
  first := { result := .error (.engine "connection reset"), inBlock := false }
  second := { result := .error (.engine "connection reset"), inBlock := false }
  stream := .sessionStateUnknown (.engine "connection reset")
  streamInBlock := false
  callbackPanic := none
  backup := .error (.engine "connection reset")

/-- Two raw requests are admitted; the first one fails and poisons. -/
def queuedBehindFailure : List Action :=
  [.submit .exec none, .submit .exec none, .receive, .execute transportFailure, .receive,
    .execute transportFailure]

/-- The second request still reaches the engine. -/
theorem poisoned_session_calls_engine :
    (run step start queuedBehindFailure).isSome = true ∧
      ¬ Along step RefusesWhenPoisoned start queuedBehindFailure := by
  decide

/-- The commands of the callback transaction `token`, and the close that ends it. -/
def Command.actsFor (token : Nat) : Command → Bool
  | .pinnedExec t .. | .pinnedStructuredExec t .. | .rollbackAndReleasePin t => t = token
  | .close => true
  | _ => false

/-- **The block is the transaction's own.** While PostgreSQL is in the block of a callback
transaction and the session is not poisoned, that transaction has the pin, and the owner
calls the engine (for an exchange, a stream or a backup) only for its commands or to end
it at a close. -/
theorem block_entered_by_owner {schedule : List Action} {s : State} {token : Nat}
    (hpolled : Along step (fun s a => ¬ DropsUnpolledBegin s a) start schedule)
    (hrun : run step start schedule = some s) (hknown : s.transactionPoisoned = false)
    (hblock : s.block = some (.pin token)) :
    s.activePin = some token ∧ ∀ e t, step s (.execute e) = some t → t.calls ≠ s.calls →
      ∃ command ∈ s.current, command.actsFor token = true := by
  have hs : Inv s.custody := run_invariant_along (P := fun s => Inv s.custody)
    (fun s a t hs ha hstep => inv_step hs ha hstep) inv_start hpolled hrun
  have hpin : s.activePin = some token := (hs.clean hknown).block_pin token hblock
  refine ⟨hpin, fun e t hstep hcalled => ?_⟩
  rw [step, ownerExecute] at hstep
  split at hstep
  · cases hstep
  rename_i command hcurrent
  obtain ⟨-, hstep⟩ := Option.ite_none_right_eq_some.mp hstep
  obtain rfl := Option.some.inj hstep
  refine ⟨command, hcurrent, by_contra fun hother => hcalled ?_⟩
  -- every other command is refused at the pin
  cases command with
  | cancellable command request =>
    have hplain := hs.held.wrapped command request
      (by simp [State.custody, State.pending, hcurrent])
    rw [executeCommand]
    split
    · exact dropCommand_calls _ command
    · cases command <;> simp_all [executeCommand, Command.IsPlain]
  | releasePin t reply =>
    cases reply <;> simp only [executeCommand] <;> split <;> simp
  | rollbackAndReleasePin t | pinnedExec t | pinnedStructuredExec t =>
    have hne : token ≠ t := fun h => hother (by simp [Command.actsFor, h])
    simp [executeCommand, rollbackActivePin, hpin, hne]
  | close => exact absurd rfl hother
  | _ => simp [executeCommand, hpin]

/-- The statement of a callback. -/
theorem block_entered_by_statement :
    ∃ s, run step start (committed.take 7) = some s ∧ s.activePin = some 1 ∧
      ∃ t, step s (.execute (completing "INSERT 0 1" .transaction)) = some t ∧
        t.calls ≠ s.calls ∧ ∃ command ∈ s.current, command.actsFor 1 = true := by
  have hpolled : Along step (fun s a => ¬ DropsUnpolledBegin s a) start (committed.take 7) := by
    refine along_of_forall_mem _ fun a ha s => ?_
    simp only [committed, List.take, List.mem_cons, List.not_mem_nil] at ha
    rcases ha with rfl | rfl | rfl | rfl | rfl | rfl | rfl | ⟨⟨⟩⟩ <;> exact id
  have howner := fun s => @block_entered_by_owner (committed.take 7) s 1 hpolled
  obtain ⟨hpin, hcommand⟩ := howner _ rfl rfl rfl
  refine ⟨_, rfl, hpin, _, rfl, ?_, hcommand (completing "INSERT 0 1" .transaction) _ rfl ?_⟩
  · exact Nat.succ_ne_self _
  · exact Nat.succ_ne_self _

end Oliphaunt.Rust
