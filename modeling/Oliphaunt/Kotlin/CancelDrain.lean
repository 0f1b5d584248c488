import Oliphaunt.Model.Transition

/-!
# Oliphaunt — `cancel()` against `close()` in the Kotlin SDK

`OliphauntDatabase.cancel` counts itself under the state mutex, runs `session.cancel()`,
and counts itself out in a `finally` that takes the mutex again. `close` waits for the
count to be zero before it closes the session.

A section under the mutex that does not suspend is one step, taken while the mutex is
free; `held` is a section of anybody else in progress. The last lock of `cancel` is not
under `NonCancellable`: where a cancelled coroutine would have to wait, `lock` throws,
and the call ends without being counted out. `cancellation_drains` is about the runs in
which that does not happen.

* `cancellation_drains` — a close starts with no call left, in those runs;
* `close_waits_for_nobody` — a close that waits for a call which is over.
-/

namespace Oliphaunt.Kotlin

open Transition

/-- A `cancel()` call that was admitted. -/
structure CancelCall where
  /-- its coroutine was cancelled -/
  cancelled : Bool := false
  /-- it waits for the mutex in `finishCancellationAdmission` -/
  finishing : Bool := false
deriving DecidableEq, Repr

/-- Where `close` is once it is admitted; `closing` is set while it is anywhere. -/
inductive Closer where
  | none
  /-- behind the operations admitted before it -/
  | queued
  /-- `cancellationDrain.await()` -/
  | draining
  /-- `session.close()` -/
  | closing
deriving DecidableEq, Repr

structure State where
  held : Bool := false
  activeCancellationCount : Nat := 0
  cancellationDrainWaiter : Bool := false
  closed : Bool := false
  closeTeardownStarted : Bool := false
  calls : List CancelCall := []
  closer : Closer := .none
deriving DecidableEq, Repr

inductive Action where
  | lock
  | unlock
  | cancel
  | cancelCoroutine (i : Nat)
  /-- `session.cancel()` returns or throws -/
  | sessionCancelled (i : Nat)
  | resume (i : Nat)
  | close (activeTransaction : Bool)
  | beginTeardown
  | sessionClosed
  /-- `close` throws before or in `session.close()` -/
  | closeFails (usable : Bool)
deriving DecidableEq, Repr

/-- The section of `finishCancellationAdmission`, and the end of call `i`. -/
def State.finishCancellationAdmission (s : State) (i : Nat) : State :=
  let calls := s.calls.eraseIdx i
  let activeCancellationCount := s.activeCancellationCount - 1
  -- `check(activeCancellationCount > 0)`
  if s.activeCancellationCount = 0 then { s with calls }
  else if activeCancellationCount = 0 ∧ s.cancellationDrainWaiter then
    { s with calls, activeCancellationCount, cancellationDrainWaiter := false, closer := .closing }
  else { s with calls, activeCancellationCount }

/-- A section that leads to `t`, taken while the mutex is free. -/
def State.locked (s t : State) : Option State := if s.held then none else some t

def step (s : State) : Action → Option State
  | .lock => s.locked { s with held := true }
  | .unlock => if s.held then some { s with held := false } else none
  | .cancel =>
    s.locked
      (if s.closed ∨ s.closeTeardownStarted then s
      else
        { s with
          activeCancellationCount := s.activeCancellationCount + 1
          calls := s.calls ++ [{}] })
  | .cancelCoroutine i =>
    match s.calls[i]? with
    | none => none
    | some call =>
      if call.finishing then some { s with calls := s.calls.eraseIdx i }
      else some { s with calls := s.calls.set i { call with cancelled := true } }
  | .sessionCancelled i =>
    match s.calls[i]? with
    | none => none
    | some call =>
      if call.finishing then none
      else if ¬ s.held then some (s.finishCancellationAdmission i)
      else if call.cancelled then some { s with calls := s.calls.eraseIdx i }
      else some { s with calls := s.calls.set i { call with finishing := true } }
  | .resume i =>
    if ∃ call ∈ s.calls[i]?, call.finishing then s.locked (s.finishCancellationAdmission i)
    else none
  | .close activeTransaction =>
    s.locked
      (if s.closed ∨ s.closer ≠ .none ∨ activeTransaction then s else { s with closer := .queued })
  | .beginTeardown =>
    if s.closer = .queued then
      s.locked
        (if s.activeCancellationCount = 0 then
          { s with closeTeardownStarted := true, closer := .closing }
        else
          { s with
            closeTeardownStarted := true
            cancellationDrainWaiter := true
            closer := .draining })
    else none
  | .sessionClosed =>
    if s.closer = .closing then s.locked { s with closed := true, closer := .none }
    else none
  | .closeFails usable =>
    if s.closer = .queued ∨ s.closer = .closing then
      s.locked
        { s with
          closed := s.closed || !usable
          closeTeardownStarted := false
          closer := .none }
    else none

/-- No coroutine is cancelled while its `cancel()` waits for the mutex in its `finally`, or
comes to wait there when it is. -/
def Prompt (s : State) : Action → Prop
  | .cancelCoroutine i => ∀ call ∈ s.calls[i]?, call.finishing = false
  | .sessionCancelled i => ∀ call ∈ s.calls[i]?, call.cancelled = true → s.held = false
  | _ => True

instance (s : State) : ∀ a, Decidable (Prompt s a)
  | .cancelCoroutine _ | .sessionCancelled _ => inferInstanceAs (Decidable (∀ _ ∈ _, _))
  | .lock | .unlock | .cancel | .resume _ | .close _ | .beginTeardown | .sessionClosed
  | .closeFails _ => isTrue trivial

structure Inv (s : State) : Prop where
  counted : s.activeCancellationCount = s.calls.length
  waiter : s.cancellationDrainWaiter = true ↔ s.closer = .draining
  draining : s.closer = .draining → s.calls ≠ []

variable {s t : State} {i : Nat}

theorem eq_of_locked (h : s.locked t = some u) : t = u :=
  Option.some.inj (Option.ite_none_left_eq_some.mp h).2

/-- A step that leaves the calls and the drain alone. -/
theorem Inv.same (h : Inv s) (hcount : t.activeCancellationCount = s.activeCancellationCount)
    (hcalls : t.calls = s.calls) (hwaiter : t.cancellationDrainWaiter = s.cancellationDrainWaiter)
    (hcloser : t.closer = .draining ↔ s.closer = .draining) : Inv t :=
  ⟨by rw [hcount, hcalls, h.counted], by rw [hwaiter, hcloser, h.waiter],
    fun hd => hcalls ▸ h.draining (hcloser.mp hd)⟩

theorem Inv.set (h : Inv s) (call : CancelCall) : Inv { s with calls := s.calls.set i call } where
  counted := h.counted.trans List.length_set.symm
  waiter := h.waiter
  draining := fun hd hnil => h.draining hd (by simpa using hnil)

theorem Inv.finish (h : Inv s) (hi : i < s.calls.length) :
    Inv (s.finishCancellationAdmission i) := by
  have hlength := List.length_eraseIdx_of_lt hi
  have hcount := h.counted
  unfold State.finishCancellationAdmission
  dsimp only
  split
  · omega
  · split
    · exact ⟨hcount ▸ hlength.symm, by simp, nofun⟩
    · rename_i hdrain
      refine ⟨hcount ▸ hlength.symm, h.waiter, fun hd hnil => hdrain ⟨?_, h.waiter.mpr hd⟩⟩
      rw [show s.calls.eraseIdx i = [] from hnil, List.length_nil] at hlength
      omega

theorem inv_step (s : State) (a : Action) (t : State) (h : Inv s) (ha : Prompt s a)
    (hstep : step s a = some t) : Inv t := by
  cases a with
  | lock => exact eq_of_locked hstep ▸ h.same rfl rfl rfl .rfl
  | unlock =>
    exact Option.some.inj (Option.ite_none_right_eq_some.mp hstep).2 ▸ h.same rfl rfl rfl .rfl
  | cancel =>
    obtain rfl := eq_of_locked hstep
    split
    · exact h
    · exact ⟨by simp [h.counted], h.waiter, by simp⟩
  | cancelCoroutine i =>
    simp only [step] at hstep
    split at hstep
    · cases hstep
    · rename_i call hcall
      rw [ha call hcall] at hstep
      exact Option.some.inj hstep ▸ h.set _
  | sessionCancelled i =>
    simp only [step] at hstep
    split at hstep
    · cases hstep
    · rename_i call hcall
      have hi := (List.getElem?_eq_some_iff.mp hcall).1
      split at hstep
      · cases hstep
      split at hstep
      · exact Option.some.inj hstep ▸ h.finish hi
      split at hstep
      · rename_i hheld hcancelled
        exact absurd (ha call hcall hcancelled) (by simpa using hheld)
      · exact Option.some.inj hstep ▸ h.set _
  | resume i =>
    obtain ⟨⟨call, hcall, -⟩, hstep⟩ := Option.ite_none_right_eq_some.mp hstep
    exact eq_of_locked hstep ▸ h.finish (List.getElem?_eq_some_iff.mp hcall).1
  | close activeTransaction =>
    obtain rfl := eq_of_locked hstep
    split
    · exact h
    · rename_i hopen
      simp only [ne_eq, not_or, not_not] at hopen
      exact h.same rfl rfl rfl (by simp [hopen.2.1])
  | beginTeardown =>
    obtain ⟨hqueued, hstep⟩ := Option.ite_none_right_eq_some.mp hstep
    obtain rfl := eq_of_locked hstep
    split
    · exact h.same rfl rfl rfl (by simp [hqueued])
    · rename_i hcount
      refine ⟨h.counted, by simp, fun _ hnil => hcount ?_⟩
      rw [h.counted, show s.calls = [] from hnil, List.length_nil]
  | sessionClosed =>
    obtain ⟨hclosing, hstep⟩ := Option.ite_none_right_eq_some.mp hstep
    exact eq_of_locked hstep ▸ h.same rfl rfl rfl (by simp [hclosing])
  | closeFails usable =>
    obtain ⟨hplace, hstep⟩ := Option.ite_none_right_eq_some.mp hstep
    refine eq_of_locked hstep ▸ h.same rfl rfl rfl ?_
    rcases hplace with hplace | hplace <;> simp [hplace]

/-- Along runs without such a wait the count is that of the calls that have not returned,
and `close` waits for the drain only while one of them is running. -/
theorem cancellation_drains {as : List Action} {s : State} (hrun : run step {} as = some s)
    (hprompt : Along step Prompt {} as) :
    s.activeCancellationCount = s.calls.length ∧ ¬ (s.closer = .draining ∧ s.calls = []) := by
  have hs : Inv s := run_invariant_along inv_step ⟨rfl, by simp, by simp⟩ hprompt hrun
  exact ⟨hs.counted, fun ⟨hd, hnil⟩ => hs.draining hd hnil⟩

/-- A cancelled call whose mutex is free drains. -/
theorem cancellation_drains_free : ∃ s, run step {} [.cancel, .cancelCoroutine 0, .close false,
    .beginTeardown, .sessionCancelled 0] = some s ∧
    s.activeCancellationCount = s.calls.length ∧ ¬ (s.closer = .draining ∧ s.calls = []) :=
  ⟨_, rfl, @cancellation_drains [.cancel, .cancelCoroutine 0, .close false, .beginTeardown,
    .sessionCancelled 0] _ rfl (by decide)⟩

/-- The mutex is held when the cancelled call gets to its `finally`: the call is over, and
`close` waits for it. -/
theorem close_waits_for_nobody : ∃ s, run step {} [.cancel, .cancelCoroutine 0, .lock,
    .sessionCancelled 0, .unlock, .close false, .beginTeardown] = some s ∧
    s.activeCancellationCount = 1 ∧ s.calls = [] ∧ s.closer = .draining :=
  ⟨_, rfl, rfl, rfl, rfl⟩

end Oliphaunt.Kotlin
