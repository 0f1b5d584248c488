import Mathlib.Logic.Function.Basic
import Oliphaunt.Model.Transition

/-!
# Handle calls, retirement and raw streams

A process has one resident handle. Calls on it are counted under
`global_instance_mutex`. A detach installs the retirement gate, which new calls
are refused at, and waits until the counted ones have ended. A raw stream is
counted first and sets `streaming` later, under the handle's own mutex; its
callback runs with no mutex held and may call the library again.

A step is one critical section of one thread. A thread in `pthread_cond_wait` has
no step as long as it has to wait.

Detach and close look at `streaming` before they wait, but a stream that was counted
before the gate was installed can still start behind it. A detach by its callback
then waits at the gate, whose owner waits for the stream.

* `callback_never_deadlocks` — while no stream starts behind a gate, no callback is
  ever blocked;
* `detach_behind_gate_deadlocks` — a run in which one does;
* `wait_ends_without_calls` — in every run, no detach or close gets past its wait
  while a counted call is under way.
-/

namespace Oliphaunt.Native.HandleCalls

open Option Bool

inductive GlobalState where
  | unused
  | active
  | spent
deriving DecidableEq

inductive Call where
  | exec
  | rawStream
  | detach
  | close
  | closeIfGeneration (generation : Nat)
  | init
deriving DecidableEq

/-- Where a thread stands. -/
inductive Pc where
  | user
  /-- before the first critical section of a call -/
  | entering (call : Call)
  /-- counted, and before the handle's mutex -/
  | leased (stream : Bool)
  /-- waits for the response of the backend -/
  | executing
  | streaming
  /-- before `oliphaunt_end_handle_call` -/
  | ending
  /-- has installed the gate and waits for the counted calls -/
  | retiring
  | detaching
  | resetting
  /-- before `oliphaunt_end_handle_retirement` -/
  | retired
  | claimed
  /-- waits for the counted calls before it frees the handle -/
  | closing
  | starting
deriving DecidableEq

structure Thread where
  pc : Pc
  /-- the callback of a stream runs on this thread -/
  callback : Bool
  /-- `owned_retirement_handle` is the resident handle -/
  ownsRetirement : Bool
  /-- `retiring` of `run_detach_operation` -/
  retiring : Bool
  /-- what the last call returned, or its error -/
  result : Except String Nat

structure State where
  global : GlobalState
  /-- `global_instance` is the resident handle -/
  published : Bool
  activeCalls : Nat
  retirement : Bool
  streaming : Bool
  logicalActive : Bool
  closing : Bool
  backendExited : Bool
  backupModeExitUnconfirmed : Bool
  generation : Nat
  threads : Nat → Thread

def State.initial : State :=
  ⟨.unused, false, 0, false, false, false, false, false, false, 0,
    fun _ => ⟨.user, false, false, false, .ok 0⟩⟩

def State.set (s : State) (i : Nat) (t : Thread) : State :=
  { s with threads := Function.update s.threads i t }

def State.goto (s : State) (i : Nat) (pc : Pc) : State := s.set i { s.threads i with pc := pc }

/-- Where a call goes when its work is over: a counted one to the end of its count, a
close to the detach that has promoted itself to it. -/
def Thread.exit (t : Thread) : Pc :=
  match t.pc with
  | .leased _ | .executing | .streaming => .ending
  | _ => if t.retiring then .retired else .user

def State.leave (s : State) (i : Nat) (result : Except String Nat) : State :=
  s.set i { s.threads i with pc := (s.threads i).exit, result := result }

/-- The error of the first check that refuses. -/
def refusal : List (Bool × String) → Option String
  | [] => none
  | (refuses, error) :: rest => if refuses then some error else refusal rest

/-- Go on with `next` unless a check refuses. -/
def State.unless (s : State) (i : Nat) (checks : List (Bool × String)) (next : State) : State :=
  match refusal checks with
  | some error => s.leave i (.error error)
  | none => next

def busy : String := "native liboliphaunt handle is busy delivering a raw protocol stream"

def State.currentInstance (s : State) : Bool := s.global = .active && s.published

/-- `set_stale_handle_error` for another instance than the current one. -/
def State.staleHandle (s : State) : Bool × String :=
  (!s.currentInstance, "native liboliphaunt handle is stale or terminally closed")

/-- What `oliphaunt_exec_protocol_impl` and the raw stream check alike. -/
def State.unusable (s : State) : List (Bool × String) :=
  [(!s.logicalActive, "native liboliphaunt logical handle is closed"),
    (s.backupModeExitUnconfirmed,
      "native liboliphaunt backup-mode exit is unconfirmed; close the database and restart " ++
        "the process before reopening it"),
    (s.backendExited, "native backend is not running")]

def beginHandleCall (s : State) (i : Nat) (stream : Bool) : State :=
  s.unless i
    [s.staleHandle, (s.retirement && !(s.threads i).ownsRetirement,
      "native liboliphaunt logical handle is closing")]
    ({ s with activeCalls := s.activeCalls + 1 }.goto i (.leased stream))

def execProtocol (s : State) (i : Nat) : State :=
  s.unless i ((s.streaming, busy) :: s.unusable) (s.goto i .executing)

/-- The start of a raw stream. The gate is not looked at. -/
def rawStream (s : State) (i : Nat) : State :=
  s.unless i (s.unusable ++ [(s.streaming, "native liboliphaunt stream queue is busy")])
    ({ s with streaming := true }.goto i .streaming)

/-- `oliphaunt_begin_handle_retirement` up to its second wait. -/
def beginHandleRetirement (s : State) (i : Nat) : Option State :=
  if s.currentInstance && s.retirement && !(s.threads i).ownsRetirement then none
  else some (s.unless i
    [s.staleHandle, (s.retirement,
      "native liboliphaunt logical retirement is already active on this thread"),
      (s.streaming, busy)]
    ({ s with retirement := true }.set i
      { s.threads i with pc := .retiring, ownsRetirement := true }))

/-- `oliphaunt_detach_impl` up to the commands that reset the session. -/
def detach (s : State) (i : Nat) : State :=
  s.unless i [(s.streaming, busy)]
    (if s.logicalActive then
      s.goto i (if s.backupModeExitUnconfirmed then .entering .close else .resetting)
    else s.leave i (.ok 0))

def claimGlobalInstanceForClose (s : State) (i : Nat) (generation : Option Nat) : Option State :=
  -- both pointers are the resident handle or null
  if s.retirement && (s.threads i).ownsRetirement != s.published then none
  else if s.global = .spent then some (s.leave i (.ok 0))
  else if !s.currentInstance || generation.any (· != s.generation) then
    some (s.leave i (.ok (if generation.isSome then 1 else 0)))
  else some (s.unless i [(s.streaming, busy)]
    ({ s with published := false, global := .spent, retirement := false }.set i
      { s.threads i with
        pc := .claimed, ownsRetirement := (s.threads i).ownsRetirement && !s.retirement }))

def reopenResidentRuntime (s : State) (i : Nat) : State :=
  s.unless i
    [(s.logicalActive, "native liboliphaunt already has an active logical direct handle"),
      (s.backendExited || s.closing, "native liboliphaunt resident runtime has already shut down"),
      (s.generation = 18446744073709551615,
        "native liboliphaunt logical generation space is exhausted")]
    ({ s with logicalActive := true, generation := s.generation + 1 }.leave i (.ok 0))

def acquireGlobalInstance (s : State) (i : Nat) : Option State :=
  if s.retirement then none
  else some (s.unless i
    [(s.global = .active && !s.published,
      "native liboliphaunt already has an active process-wide instance"),
      (s.global = .spent, "native liboliphaunt process lifetime has already been used")]
    (if s.published then reopenResidentRuntime s i
    else { s with global := .active }.goto i .starting))

def enter (s : State) (i : Nat) : Call → Option State
  | .exec => some (beginHandleCall s i false)
  | .rawStream => some (beginHandleCall s i true)
  | .detach => beginHandleRetirement s i
  | .close => claimGlobalInstanceForClose s i none
  | .closeIfGeneration 0 =>
    some (s.leave i (.error "invalid oliphaunt_close_if_generation generation"))
  | .closeIfGeneration generation => claimGlobalInstanceForClose s i (some generation)
  | .init => acquireGlobalInstance s i

/-- The next critical section of a thread inside the library. -/
def advance (s : State) (i : Nat) : Option State :=
  match (s.threads i).pc with
  | .user => none
  | .entering call => enter s i call
  | .leased false => some (execProtocol s i)
  | .leased true => some (rawStream s i)
  | .executing => some (s.leave i (.ok 0))
  | .streaming => some ({ s with streaming := false }.leave i (.ok 0))
  | .ending => some ({ s with activeCalls := s.activeCalls - 1 }.leave i (s.threads i).result)
  | .retiring =>
    if s.activeCalls = 0 then some (s.set i { s.threads i with pc := .detaching, retiring := true })
    else none
  | .detaching => some (detach s i)
  | .resetting => some ({ s with logicalActive := false }.leave i (.ok 0))
  | .retired => some ({ s with retirement := false }.set i
      { s.threads i with pc := .user, ownsRetirement := false, retiring := false })
  | .claimed => some ({ s with logicalActive := false, closing := true }.goto i .closing)
  | .closing => if s.activeCalls = 0 then some (s.leave i (.ok 0)) else none
  | .starting => some ({ s with
      published := s.published || decide (s.global = GlobalState.active)
      logicalActive := true
      generation := s.generation + 1 }.leave i (.ok 0))

/-- Something outside fails the call: an argument, the backend's answer, a reset
command, the start of the backend, the configuration of a reopen. -/
def fails (s : State) (i : Nat) (error : String) (spent : Bool) : Option State :=
  match (s.threads i).pc with
  | .leased _ | .executing | .resetting => some (s.leave i (.error error))
  | .streaming => some ({ s with streaming := false }.leave i (.error error))
  | .starting => some ({ s with
      global := if spent then .spent else .unused
      published := false
      retirement := false }.leave i (.error error))
  | .entering .init =>
    if !s.retirement && s.currentInstance then some (s.leave i (.error error)) else none
  | _ => none

inductive Action where
  | call (thread : Nat) (call : Call)
  | advance (thread : Nat)
  | fails (thread : Nat) (error : String) (spent : Bool)
  /-- the stream of a thread calls its callback -/
  | deliver (thread : Nat)
  | callbackReturns (thread : Nat)
  /-- the backend exits, or a backup leaves its mode unconfirmed -/
  | backend (exited unconfirmed : Bool)

def step (s : State) : Action → Option State
  | .call i call =>
    match (s.threads i).pc with
    | .user => some (s.goto i (.entering call))
    | _ => none
  | .advance i => advance s i
  | .fails i error spent => fails s i error spent
  | .deliver i =>
    match (s.threads i).pc with
    | .streaming => some (s.set i { s.threads i with pc := .user, callback := true })
    | _ => none
  | .callbackReturns i =>
    match (s.threads i).pc, (s.threads i).callback with
    | .user, true => some (s.set i { s.threads i with pc := .streaming, callback := false })
    | _, _ => none
  | .backend exited unconfirmed =>
    some { s with backendExited := exited, backupModeExitUnconfirmed := unconfirmed }

/-- A thread inside the library that waits for the backend or for a condition. -/
def Blocked (s : State) (i : Nat) : Prop :=
  (s.threads i).pc = .executing ∨ (s.threads i).pc ≠ .user ∧ advance s i = none

/-- A thread that waits for the counted calls to end. -/
def AwaitsCalls (s : State) (i : Nat) : Prop :=
  ((s.threads i).pc = .retiring ∨ (s.threads i).pc = .closing) ∧ s.activeCalls ≠ 0

/-- A stream callback is blocked, and another thread waits for the call of its stream. -/
def CallbackDeadlock (s : State) : Prop :=
  ∃ i j, i ≠ j ∧ (s.threads i).callback = true ∧ Blocked s i ∧ AwaitsCalls s j

/-- A step that starts a raw stream is taken only while no retirement gate is installed. -/
def StreamStartsUngated (s : State) (a : Action) : Prop :=
  (step s a).any (·.streaming) = true → s.streaming = true ∨ s.retirement = false

instance (s : State) (a : Action) : Decidable (StreamStartsUngated s a) :=
  inferInstanceAs (Decidable (_ → _))

/-- Points that only the stream itself, or a call that found no stream, reaches. -/
def Pc.exclusive : Pc → Bool
  | .executing | .streaming | .retiring | .claimed | .closing => true
  | _ => false

/-- The thread is in a raw stream, in its loop or in its callback. -/
def Thread.Streams (t : Thread) : Prop := t.callback = true ∨ t.pc = .streaming

structure Inv (s : State) : Prop where
  streams : ∀ i, (s.threads i).Streams → s.streaming = true
  unique : ∀ i j, (s.threads i).Streams → (s.threads j).Streams → i = j
  callback : ∀ i, (s.threads i).callback = true → (s.threads i).pc.exclusive = false

theorem Inv.initial : Inv .initial where
  streams i h := by rcases h with h | h <;> cases h
  unique i j h _ := by rcases h with h | h <;> cases h
  callback i h := by cases h

section Steps

variable {s s' : State} {i : Nat}

@[simp] theorem threads_set_self (t : Thread) : (s.set i t).threads i = t :=
  Function.update_self ..

theorem threads_set_of_ne (hji : j ≠ i) (t : Thread) : (s.set i t).threads j = s.threads j :=
  Function.update_of_ne hji ..

theorem Inv.same (hs : Inv s) (hstreaming : s'.streaming = s.streaming)
    (hthreads : s'.threads = s.threads) : Inv s' := by
  obtain ⟨hstreams, hunique, hcallback⟩ := hs
  rw [← hthreads] at hstreams hunique hcallback
  exact ⟨hstreaming ▸ hstreams, hunique, hcallback⟩

variable {t : Thread} {checks : List (Bool × String)}

/-- A step of thread `i` that neither starts nor ends a stream: it comes to an exclusive
point only when no stream is active, or from one. -/
theorem Inv.set (hs : Inv s) (hcallback : t.callback = (s.threads i).callback)
    (hpc : t.pc.exclusive = true →
      t.pc ≠ .streaming ∧ (s.streaming = false ∨ (s.threads i).pc.exclusive = true)) :
    Inv (s.set i t) := by
  have hstreams : ∀ j, ((s.set i t).threads j).Streams → (s.threads j).Streams := by
    intro j hj
    by_cases hji : j = i
    · subst hji
      rw [threads_set_self] at hj
      rcases hj with hj | hj
      · exact .inl (hcallback ▸ hj)
      · exact absurd hj (hpc (hj ▸ rfl)).1
    · exact threads_set_of_ne hji t ▸ hj
  refine ⟨fun j hj => hs.streams j (hstreams j hj),
    fun j k hj hk => hs.unique j k (hstreams j hj) (hstreams k hk), fun j hj => ?_⟩
  by_cases hji : j = i
  · subst hji
    rw [threads_set_self] at hj ⊢
    rw [hcallback] at hj
    -- its stream is active, so it stood at no exclusive point and found no way to one
    rw [← not_eq_true]
    intro hexclusive
    rcases (hpc hexclusive).2 with hfree | hbefore
    · exact false_ne_true (hfree.symm.trans (hs.streams j (.inl hj)))
    · exact false_ne_true ((hs.callback j hj).symm.trans hbefore)
  · rw [threads_set_of_ne hji] at hj ⊢
    exact hs.callback j hj

theorem Inv.goto (hs : Inv s) (hpc : pc.exclusive = false) : Inv (s.goto i pc) :=
  hs.set rfl fun h => absurd (hpc.symm.trans h) false_ne_true

theorem exit_exclusive (t : Thread) : t.exit.exclusive = false := by
  unfold Thread.exit
  split
  · rfl
  · rfl
  · rfl
  · split <;> rfl

theorem Inv.leave (hs : Inv s) : Inv (s.leave i result) :=
  hs.set rfl fun h => absurd ((exit_exclusive _).symm.trans h) false_ne_true

theorem refusal_none (h : refusal checks = none) : ∀ check ∈ checks, check.1 = false := by
  induction checks with
  | nil => exact fun _ hmem => absurd hmem List.not_mem_nil
  | cons check rest ih =>
    obtain ⟨refuses, error⟩ := check
    cases refuses with
    | true => cases h
    | false =>
      intro check hmem
      rcases List.mem_cons.mp hmem with rfl | hmem
      · rfl
      · exact ih h check hmem

/-- One rule for every function that checks first: what follows may use that no check
refused. -/
theorem Inv.unless (hs : Inv s) (h : (∀ check ∈ checks, check.1 = false) → Inv s') :
    Inv (s.unless i checks s') := by
  unfold State.unless
  split
  · exact hs.leave
  · rename_i hnone
    exact h (refusal_none hnone)

/-- Every entry point keeps the invariant: it refuses at once, or goes on to a place that is
not exclusive. -/
theorem Inv.enter (hs : Inv s) (h : enter s i call = some s') : Inv s' := by
  have hclaim : ∀ generation, claimGlobalInstanceForClose s i generation = some s' → Inv s' := by
    intro generation h
    unfold claimGlobalInstanceForClose at h
    split at h <;> try cases h
    split at h
    · exact Option.some.inj h ▸ hs.leave
    · split at h
      · exact Option.some.inj h ▸ hs.leave
      · refine Option.some.inj h ▸ hs.unless fun hnone => ?_
        exact .set (hs.same rfl rfl) rfl fun _ =>
          ⟨Pc.noConfusion, .inl (hnone _ (.head _))⟩
  unfold HandleCalls.enter at h
  split at h
  · exact Option.some.inj h ▸ hs.unless fun _ => .goto (hs.same rfl rfl) rfl
  · exact Option.some.inj h ▸ hs.unless fun _ => .goto (hs.same rfl rfl) rfl
  · obtain ⟨_, h⟩ := ite_none_left_eq_some.mp h
    refine Option.some.inj h ▸ hs.unless fun hnone => ?_
    have hfree : s.streaming = false := hnone (s.streaming, busy) (by simp)
    exact .set (hs.same rfl rfl) rfl fun _ => ⟨Pc.noConfusion, .inl hfree⟩
  · exact hclaim _ h
  · exact Option.some.inj h ▸ hs.leave
  · exact hclaim _ h
  · obtain ⟨_, h⟩ := ite_none_left_eq_some.mp h
    refine Option.some.inj h ▸ hs.unless fun _ => ?_
    split
    · exact hs.unless fun _ => .leave (hs.same rfl rfl)
    · exact .goto (hs.same rfl rfl) rfl

/-- A stream starts: nobody else was in one. -/
theorem Inv.rawStream (hs : Inv s) : Inv (rawStream s i) := by
  refine hs.unless fun hnone => ?_
  have hfree : s.streaming = false := hnone _ (List.mem_append_right _ (.head _))
  have hidle : ∀ j, ¬ (s.threads j).Streams := fun j hj =>
    false_ne_true (hfree.symm.trans (hs.streams j hj))
  have honly : ∀ j, (({ s with streaming := true }.goto i .streaming).threads j).Streams →
      j = i := by
    intro j hj
    by_contra hji
    exact hidle j (threads_set_of_ne hji _ ▸ hj)
  refine ⟨fun _ _ => rfl, fun j k hj hk => (honly j hj).trans (honly k hk).symm, fun j hj => ?_⟩
  obtain rfl := honly j (.inl hj)
  rw [State.goto, threads_set_self] at hj
  exact absurd (.inl hj) (hidle j)

theorem Inv.streamEnds (hs : Inv s) (hpc : (s.threads i).pc = .streaming)
    (result : Except String Nat) : Inv ({ s with streaming := false }.leave i result) := by
  have hidle :
      ∀ j, ¬ ((({ s with streaming := false } : State).leave i result).threads j).Streams := by
    intro j hj
    by_cases hji : j = i
    · subst hji
      rw [State.leave, threads_set_self] at hj
      rcases hj with hj | hj
      · have hexclusive := hs.callback j hj
        rw [hpc] at hexclusive
        cases hexclusive
      · exact absurd ((exit_exclusive _).symm.trans (congrArg Pc.exclusive hj)) false_ne_true
    · exact hji (hs.unique j i (threads_set_of_ne hji _ ▸ hj) (.inr hpc))
  exact ⟨fun j hj => absurd hj (hidle j), fun j _ hj => absurd hj (hidle j),
    fun j hj => absurd (.inl hj) (hidle j)⟩

/-- The next critical section of a thread inside a call keeps the invariant. -/
theorem Inv.advance (hs : Inv s) (h : advance s i = some s') : Inv s' := by
  unfold HandleCalls.advance at h
  split at h
  · cases h
  · exact hs.enter h
  · refine Option.some.inj h ▸ hs.unless fun hnone => ?_
    exact hs.set rfl fun _ => ⟨Pc.noConfusion, .inl (hnone _ (.head _))⟩
  · exact Option.some.inj h ▸ hs.rawStream
  · exact Option.some.inj h ▸ hs.leave
  · rename_i hpc
    exact Option.some.inj h ▸ hs.streamEnds hpc _
  · exact Option.some.inj h ▸ .leave (hs.same rfl rfl)
  · obtain ⟨_, h⟩ := ite_none_right_eq_some.mp h
    exact Option.some.inj h ▸ hs.set rfl fun h => Bool.noConfusion h
  · refine Option.some.inj h ▸ hs.unless fun _ => ?_
    split
    · exact hs.goto (by split <;> rfl)
    · exact hs.leave
  · exact Option.some.inj h ▸ .leave (hs.same rfl rfl)
  · exact Option.some.inj h ▸
      .set (hs.same rfl rfl) rfl fun h => Bool.noConfusion h
  · rename_i hpc
    exact Option.some.inj h ▸
      .set (hs.same rfl rfl) rfl fun _ => ⟨Pc.noConfusion, .inr (hpc ▸ rfl)⟩
  · obtain ⟨_, h⟩ := ite_none_right_eq_some.mp h
    exact Option.some.inj h ▸ hs.leave
  · exact Option.some.inj h ▸ .leave (hs.same rfl rfl)

theorem Inv.fails (hs : Inv s) (h : fails s i error spent = some s') : Inv s' := by
  unfold HandleCalls.fails at h
  split at h
  · exact Option.some.inj h ▸ hs.leave
  · exact Option.some.inj h ▸ hs.leave
  · exact Option.some.inj h ▸ hs.leave
  · rename_i hpc
    exact Option.some.inj h ▸ hs.streamEnds hpc _
  · exact Option.some.inj h ▸ .leave (hs.same rfl rfl)
  · obtain ⟨_, h⟩ := ite_none_right_eq_some.mp h
    exact Option.some.inj h ▸ hs.leave
  · cases h

theorem Inv.turn (hs : Inv s) (hbefore : (s.threads i).Streams)
    (ht : t.callback = true → t.pc.exclusive = false) : Inv (s.set i t) := by
  have hstreams : ∀ j, ((s.set i t).threads j).Streams → (s.threads j).Streams := by
    intro j hj
    by_cases hji : j = i
    · exact hji ▸ hbefore
    · exact threads_set_of_ne hji t ▸ hj
  refine ⟨fun j hj => hs.streams j (hstreams j hj),
    fun j k hj hk => hs.unique j k (hstreams j hj) (hstreams k hk), fun j hj => ?_⟩
  by_cases hji : j = i
  · subst hji
    rw [threads_set_self] at hj ⊢
    exact ht hj
  · rw [threads_set_of_ne hji] at hj ⊢
    exact hs.callback j hj

/-- Every step of every thread keeps the invariant. -/
theorem Inv.step (hs : Inv s) (h : step s a = some s') : Inv s' := by
  unfold HandleCalls.step at h
  split at h
  · split at h
    · exact Option.some.inj h ▸ hs.goto rfl
    · cases h
  · exact hs.advance h
  · exact hs.fails h
  · split at h
    · rename_i hpc
      exact Option.some.inj h ▸ hs.turn (.inr hpc) fun _ => rfl
    · cases h
  · split at h
    · rename_i hcallback
      exact Option.some.inj h ▸ hs.turn (.inl hcallback) fun h => Bool.noConfusion h
    · cases h
  · exact Option.some.inj h ▸ ⟨hs.streams, hs.unique, hs.callback⟩

/-- Without a gate, only the waits for the backend and for counted calls block. -/
theorem advance_ne_none (hungated : s.retirement = false) (huser : (s.threads i).pc ≠ .user)
    (hexclusive : (s.threads i).pc.exclusive = false) : advance s i ≠ none := by
  unfold HandleCalls.advance
  cases hpc : (s.threads i).pc with
  | user => exact absurd hpc huser
  | retiring | closing =>
    rw [hpc] at hexclusive
    cases hexclusive
  | entering call =>
    show HandleCalls.enter s i call ≠ none
    unfold HandleCalls.enter
    split <;>
      simp [beginHandleRetirement, claimGlobalInstanceForClose, acquireGlobalInstance, hungated,
        ← isSome_iff_ne_none, apply_ite Option.isSome]
  | leased stream => cases stream <;> exact some_ne_none _
  | executing | streaming | ending | detaching | resetting | retired | claimed | starting =>
    exact some_ne_none _

/-- While a retirement gate is installed, no stream is active. -/
def GateShut (s : State) : Prop := s.retirement = true → s.streaming = false

/-- While the gate shuts out streams, a thread in its callback always has a step: it cannot be
waiting for the gate, since no gate is up while it streams. -/
theorem Inv.not_blocked (hs : Inv s) (hgate : GateShut s)
    (hcallback : (s.threads i).callback = true) : ¬ Blocked s i := by
  have hexclusive := hs.callback i hcallback
  rintro (hpc | ⟨huser, hnone⟩)
  · rw [hpc] at hexclusive
    cases hexclusive
  · -- the stream is active, so no gate is installed
    have hungated : s.retirement = false := by
      rw [← not_eq_true]
      intro hret
      exact false_ne_true ((hgate hret).symm.trans (hs.streams i (.inl hcallback)))
    exact advance_ne_none hungated huser hexclusive hnone

end Steps

def Pc.counted : Pc → Bool
  | .leased _ | .executing | .streaming | .ending => true
  | _ => false

/-- The counted calls of a thread: the one it is in, and the stream whose callback it runs. -/
def Thread.calls (t : Thread) : Nat := t.callback.toNat + t.pc.counted.toNat

/-- `active_handle_calls` counts the calls of all threads. -/
def Counted (s : State) : Prop :=
  ∃ calls : List Nat, calls.length = s.activeCalls ∧ ∀ i, calls.count i = (s.threads i).calls

/-- Only thread `i` moves, the count with its calls, and a new gate finds no stream. -/
structure Moves (s s' : State) (i : Nat) : Prop where
  others : ∀ j, j ≠ i → s'.threads j = s.threads j
  calls : (s'.threads i).calls = (s.threads i).calls ∧ s'.activeCalls = s.activeCalls ∨
    (s'.threads i).calls = (s.threads i).calls + 1 ∧ s'.activeCalls = s.activeCalls + 1 ∨
    (s'.threads i).calls + 1 = (s.threads i).calls ∧ s'.activeCalls = s.activeCalls - 1
  gate : s'.retirement = true → s.retirement = true ∨ s'.streaming = false

section Moves

variable {s s' : State}

theorem Counted.moved (h : Counted s) (hmoves : Moves s s' i) : Counted s' := by
  obtain ⟨calls, hlength, hcount⟩ := h
  have hothers : ∀ j, j ≠ i → calls.count j = (s'.threads j).calls := fun j hji => by
    rw [hcount, hmoves.others j hji]
  rcases hmoves.calls with ⟨hcalls, hactive⟩ | ⟨hcalls, hactive⟩ | ⟨hcalls, hactive⟩
  · exact ⟨calls, by omega, fun j => by grind⟩
  · exact ⟨i :: calls, by grind, fun j => by grind⟩
  · have hmem : i ∈ calls := List.count_pos_iff.mp (by rw [hcount]; omega)
    exact ⟨calls.erase i, by grind, fun j => by grind⟩

/-- Every step moves one thread and the count with it. -/
theorem step_moves (hs : Inv s) (h : step s a = some s') : ∃ i, Moves s s' i := by
  cases a with
  | call i | deliver i | callbackReturns i =>
    -- a stream does not run inside the callback of another
    have hcallback := hs.callback i
    refine ⟨i, ?_⟩
    simp only [step] at h
    split at h <;> cases h
    constructor <;> simp_all [State.goto, State.set, Thread.calls, Pc.counted, Pc.exclusive]
  | advance i | fails i =>
    refine ⟨i, ?_⟩
    simp only [step, advance, enter, beginHandleCall, execProtocol, rawStream,
      beginHandleRetirement, detach, claimGlobalInstanceForClose, acquireGlobalInstance,
      reopenResidentRuntime, fails, State.unless, State.leave, State.goto, State.set] at h
    repeat' split at h
    all_goals cases h
    all_goals cases hretiring : (s.threads i).retiring
    all_goals constructor
    all_goals try simp_all [Thread.calls, Pc.counted, Thread.exit]
    -- what is left is a detach that installs its gate: it was not refused as busy
    all_goals exact .inr (refusal_none ‹_› (s.streaming, busy) (by simp))
  | backend exited unconfirmed =>
    cases h
    exact ⟨0, fun _ _ => rfl, .inl ⟨rfl, rfl⟩, .inl⟩

theorem GateShut.step (hs : Inv s) (hgate : GateShut s) (hC : StreamStartsUngated s a)
    (h : step s a = some s') : GateShut s' := by
  intro hret
  obtain ⟨i, hmoves⟩ := step_moves hs h
  rw [← not_eq_true]
  intro hstreaming
  have hungated : s.retirement = false := by
    rcases hC (by rw [h]; exact hstreaming) with hbefore | hungated
    · rw [← not_eq_true]
      intro hbehind
      exact false_ne_true ((hgate hbehind).symm.trans hbefore)
    · exact hungated
  rcases hmoves.gate hret with hbehind | hfree
  · exact false_ne_true (hungated.symm.trans hbehind)
  · exact false_ne_true (hfree.symm.trans hstreaming)

end Moves

/-- **No callback deadlock.** While no raw stream starts behind a retirement gate, no
callback is blocked inside the library while another thread waits for the call of its
stream: not in `exec`, not at the gate of a detach, and not in a close. -/
theorem callback_never_deadlocks {schedule : List Action} {t : State}
    (hungated : Transition.Along step StreamStartsUngated .initial schedule)
    (hrun : Transition.run step .initial schedule = some t) : ¬ CallbackDeadlock t := by
  have hstart : Inv .initial ∧ GateShut .initial := ⟨Inv.initial, Bool.noConfusion⟩
  have ht := Transition.run_invariant_along (P := fun s => Inv s ∧ GateShut s)
    (fun _ _ _ hs hC h => ⟨hs.1.step h, hs.2.step hs.1 hC h⟩) hstart hungated hrun
  rintro ⟨i, _, _, hcallback, hblocked, _⟩
  exact ht.1.not_blocked ht.2 hcallback hblocked

/-- Thread 0 opens the database and streams; its callback detaches. -/
def detachInCallback : List Action :=
  [.call 0 .init, .advance 0, .advance 0, .call 0 .rawStream, .advance 0, .advance 0, .deliver 0,
    .call 0 .detach, .advance 0]

/-- A callback that detaches while its own stream runs is refused as busy: the condition holds
along the run, and no callback is blocked at its end. -/
theorem detach_in_callback_is_busy :
    ∃ t, Transition.run step .initial detachInCallback = some t ∧
      (t.threads 0).result = .error busy ∧ ¬ CallbackDeadlock t :=
  have hungated : Transition.Along step StreamStartsUngated .initial detachInCallback := by
    decide +kernel
  ⟨_, rfl, rfl, callback_never_deadlocks hungated rfl⟩

/-- Thread 1 installs the gate between the count and the start of the stream of thread 0,
whose callback then detaches. -/
def detachBehindGate : List Action :=
  [.call 0 .init, .advance 0, .advance 0, .call 0 .rawStream, .advance 0, .call 1 .detach,
    .advance 1, .advance 0, .deliver 0, .call 0 .detach]

/-- A stream is counted before a detach installs its gate and starts behind it. The detach
then waits for the stream, and a detach by the stream's callback waits at the gate. -/
theorem detach_behind_gate_deadlocks :
    ∃ t, Transition.run step .initial detachBehindGate = some t ∧ CallbackDeadlock t :=
  ⟨_, rfl, 0, 1, Nat.zero_ne_one, rfl, .inr ⟨Pc.noConfusion, rfl⟩, .inl rfl, Nat.one_ne_zero⟩

/-- **No early free.** The waits of detach and close do their work: neither gets past its
wait while some thread is in a counted call, or in the callback of its stream. A stream
that starts behind the gate is no exception, since it was counted before. -/
theorem wait_ends_without_calls {schedule : List Action} {t : State} {i : Nat}
    (hrun : Transition.run step .initial schedule = some t)
    (hwaits : (t.threads i).pc = .retiring ∨ (t.threads i).pc = .closing)
    (hgoes : advance t i ≠ none) (j : Nat) :
    (t.threads j).callback = false ∧ (t.threads j).pc.counted = false := by
  have hinv := Transition.run_invariant (P := fun s => Inv s ∧ Counted s)
    (fun s a s' hs h => ⟨hs.1.step h, (step_moves hs.1 h).elim fun _ => hs.2.moved⟩)
    ⟨Inv.initial, [], rfl, fun _ => rfl⟩ hrun
  obtain ⟨calls, hlength, hcount⟩ := hinv.2
  have hzero : t.activeCalls = 0 := by
    by_contra hne
    rcases hwaits with hpc | hpc <;> simp [advance, hpc, hne] at hgoes
  obtain rfl : calls = [] := List.length_eq_zero_iff.mp (hlength.trans hzero)
  obtain ⟨hcallback, hplace⟩ := Nat.add_eq_zero_iff.mp (hcount j).symm
  exact ⟨toNat_eq_zero.mp hcallback, toNat_eq_zero.mp hplace⟩

/-- Thread 0 is in an admitted `exec` when thread 1 installs its gate. -/
def detachDuringExec : List Action :=
  [.call 0 .init, .advance 0, .advance 0, .call 0 .exec, .advance 0, .call 1 .detach, .advance 1,
    .advance 0]

/-- The detach waits for the `exec`, and goes on when it has ended. -/
theorem wait_ends_without_calls_after_exec :
    ∃ s, Transition.run step .initial detachDuringExec = some s ∧ AwaitsCalls s 1 ∧
      (s.threads 0).pc = .executing ∧
      ∃ t, Transition.run step .initial (detachDuringExec ++ [.advance 0, .advance 0]) = some t ∧
        (t.threads 1).pc = .retiring ∧
        ∀ j, (t.threads j).callback = false ∧ (t.threads j).pc.counted = false :=
  ⟨_, rfl, ⟨.inl rfl, Nat.one_ne_zero⟩, rfl, _, rfl, rfl,
    @wait_ends_without_calls (detachDuringExec ++ [.advance 0, .advance 0]) _ 1 rfl (.inl rfl)
      (some_ne_none _)⟩

end Oliphaunt.Native.HandleCalls
