import Oliphaunt.Model.Transition
import Oliphaunt.Rust.Executor

/-!
# Oliphaunt — cancellation against teardown

`cancellation.rs`: the gate counts the cancellation calls it admitted. Whoever tears a
session down (`close` and drop of the blocking handle, the owner's `Close`, an owner that
failed) first stops the gate, then waits for the count to be zero, then closes the session.

Every section under the gate's lock is one step, and any number of cancelling threads and
of teardowns take their steps in any order. An admission may be dropped without its call:
by a thread that was not started, or by a panic. A sleeping teardown may wake at any time.

* `cancellation_excluded` — no admitted call is left once a teardown has waited, and none is
  admitted after.
-/

namespace Oliphaunt.Rust.Cancellation

open Transition

inductive CancellationTarget where
  | uninitialized
  | unsupported
  | available
deriving DecidableEq, Repr

/-- `CancellationTarget::from` of an optional target. -/
def CancellationTarget.of (supported : Bool) : CancellationTarget :=
  if supported then .available else .unsupported

structure CancellationState where
  accepting : Bool := true
  activeCancellations : Nat := 0
  target : CancellationTarget
deriving DecidableEq, Repr

def usizeMax : Nat := 2 ^ 64 - 1

namespace CancellationState

variable (g : CancellationState)

def installTarget (supported : Bool) : Except Error CancellationState :=
  if ¬ g.accepting then .error .engineStopped
  else if g.target ≠ .uninitialized then
    .error (.engine "database cancellation target was initialized more than once")
  else .ok { g with target := .of supported }

def admitCall : Except Error CancellationState :=
  if ¬ g.accepting then .error .engineStopped
  else if usizeMax ≤ g.activeCancellations then
    .error (.engine "too many concurrent cancellation requests")
  else
    match g.target with
    | .available => .ok { g with activeCancellations := g.activeCancellations + 1 }
    | .unsupported => .error (.engine "query cancellation is not supported by this engine")
    | .uninitialized => .error (.engine "database cancellation target is not initialized")

def stopAccepting : CancellationState :=
  if ¬ g.accepting then g else { g with accepting := false, target := .unsupported }

/-- The part of `CancellationAdmission::drop` under the lock. -/
def settle : CancellationState :=
  if 0 < g.activeCancellations then { g with activeCancellations := g.activeCancellations - 1 }
  else g

end CancellationState

/-- A `CancellationAdmission`: its call may be running, and its target is released before
it is counted down. -/
inductive Admission where
  | admitted
  | calling
  | returned
  | released
deriving DecidableEq, Repr

/-- A teardown, from `stop_accepting` on. -/
inductive Teardown where
  | stopped
  | asleep
  /-- `wait_for_idle` has returned -/
  | idle
  /-- the session is closed -/
  | closed
deriving DecidableEq, Repr

structure State where
  gate : CancellationState
  admissions : List Admission
  teardowns : List Teardown
deriving DecidableEq, Repr

inductive Action where
  | install (supported : Bool)
  | admitCall
  | call (i : Nat)
  | returns (i : Nat)
  | release (i : Nat)
  | settle (i : Nat)
  | stop
  | wait (j : Nat)
  | close (j : Nat)
deriving DecidableEq, Repr

/-- The admission at `i` moves on from one of the given places. -/
def State.move (s : State) (i : Nat) (places : List Admission) (next : Admission) : Option State :=
  if ∃ a ∈ s.admissions[i]?, a ∈ places then some { s with admissions := s.admissions.set i next }
  else none

def step (s : State) : Action → Option State
  | .install supported =>
    match s.gate.installTarget supported with
    | .ok gate => some { s with gate }
    | .error _ => some s
  | .admitCall =>
    match s.gate.admitCall with
    | .ok gate => some { s with gate, admissions := s.admissions ++ [.admitted] }
    | .error _ => some s
  | .call i => s.move i [.admitted] .calling
  | .returns i => s.move i [.calling] .returned
  | .release i => s.move i [.admitted, .returned] .released
  | .settle i =>
    if s.admissions[i]? = some .released then
      some { s with gate := s.gate.settle, admissions := s.admissions.eraseIdx i }
    else none
  | .stop => some { s with gate := s.gate.stopAccepting, teardowns := s.teardowns ++ [.stopped] }
  | .wait j =>
    if s.teardowns[j]? = some .stopped ∨ s.teardowns[j]? = some .asleep then
      some { s with teardowns :=
        s.teardowns.set j (if s.gate.activeCancellations = 0 then .idle else .asleep) }
    else none
  | .close j =>
    if s.teardowns[j]? = some .idle then some { s with teardowns := s.teardowns.set j .closed }
    else none

/-- `CancellationGate::with_target` and `CancellationGate::pending`. -/
def start (target : CancellationTarget) : State := ⟨{ target }, [], []⟩

/-- `wait_for_idle` has returned in some teardown. -/
def State.Idle (s : State) : Prop := .idle ∈ s.teardowns ∨ .closed ∈ s.teardowns

/-- The count is the number of admissions, and none is left where a teardown is idle. -/
structure Inv (s : State) : Prop where
  counted : s.gate.activeCancellations = s.admissions.length
  stopped : s.teardowns ≠ [] → s.gate.accepting = false
  idle : s.Idle → s.admissions = []

variable {s t : State}

theorem State.Idle.ne_nil (h : s.Idle) : s.teardowns ≠ [] := by
  rcases h with h | h <;> exact List.ne_nil_of_mem h

theorem Inv.move (h : Inv s) (hmove : s.move i places next = some t) : Inv t := by
  rw [State.move, Option.ite_none_right_eq_some] at hmove
  obtain ⟨⟨a, ha, -⟩, ⟨⟩⟩ := hmove
  refine ⟨h.counted.trans (List.length_set).symm, h.stopped, fun hidle => ?_⟩
  rw [h.idle hidle] at ha
  cases ha

theorem inv_step (s : State) (a : Action) (t : State) (h : Inv s) (hstep : step s a = some t) :
    Inv t := by
  cases a with
  | install supported =>
    simp only [step, CancellationState.installTarget] at hstep
    split at hstep <;> cases hstep
    · rename_i gate hgate
      split_ifs at hgate with haccepting
      cases hgate
      exact ⟨h.counted, h.stopped, h.idle⟩
    · exact h
  | admitCall =>
    simp only [step] at hstep
    split at hstep <;> cases hstep
    · rename_i gate hgate
      rw [CancellationState.admitCall] at hgate
      split_ifs at hgate with haccepting hmax
      split at hgate <;> cases hgate
      -- a gate that admits was not stopped
      have hopen : s.teardowns = [] := by
        by_contra hne
        rw [h.stopped hne] at haccepting
        cases haccepting
      refine ⟨?_, h.stopped, fun hidle => absurd hopen hidle.ne_nil⟩
      rw [List.length_append, ← h.counted]
      rfl
    · exact h
  | call | returns | release => exact h.move hstep
  | settle i =>
    obtain ⟨hreleased, ⟨⟩⟩ := Option.ite_none_right_eq_some.mp hstep
    obtain ⟨hlt, -⟩ := List.getElem?_eq_some_iff.mp hreleased
    have hpos : 0 < s.gate.activeCancellations := by
      rw [h.counted]
      omega
    rw [CancellationState.settle, if_pos hpos]
    refine ⟨?_, h.stopped, fun hidle => ?_⟩
    · rw [List.length_eraseIdx_of_lt hlt, ← h.counted]
    · rw [h.idle hidle] at hlt
      cases hlt
  | stop =>
    cases hstep
    have hgate : s.gate.stopAccepting.accepting = false ∧
        s.gate.stopAccepting.activeCancellations = s.gate.activeCancellations := by
      rw [CancellationState.stopAccepting]
      split <;> simp_all
    refine ⟨hgate.2.trans h.counted, fun _ => hgate.1, fun hidle => h.idle ?_⟩
    simpa [State.Idle] using hidle
  | wait j =>
    obtain ⟨hplace, ⟨⟩⟩ := Option.ite_none_right_eq_some.mp hstep
    have hne : s.teardowns ≠ [] := by
      rintro hnil
      simp [hnil] at hplace
    refine ⟨h.counted, fun _ => h.stopped hne, fun hidle => ?_⟩
    by_cases hzero : s.gate.activeCancellations = 0
    · exact List.length_eq_zero_iff.mp (h.counted.symm.trans hzero)
    · rw [if_neg hzero] at hidle
      refine h.idle (hidle.imp ?_ ?_)
      · exact fun hmem => (List.mem_or_eq_of_mem_set hmem).resolve_right nofun
      · exact fun hmem => (List.mem_or_eq_of_mem_set hmem).resolve_right nofun
  | close j =>
    obtain ⟨hplace, ⟨⟩⟩ := Option.ite_none_right_eq_some.mp hstep
    have hidle : s.Idle := .inl (List.mem_of_getElem? hplace)
    exact ⟨h.counted, fun _ => h.stopped hidle.ne_nil, fun _ => h.idle hidle⟩

/-- In every state of every run: the counter is the number of admissions that are not
dropped; once `wait_for_idle` has returned there is none, so no call is running or left to
run; and from the cutoff on a cancellation is refused as a stopped engine. -/
theorem cancellation_excluded (target : CancellationTarget) (as : List Action) (s : State)
    (hrun : run step (start target) as = some s) :
    s.gate.activeCancellations = s.admissions.length ∧
      (s.Idle → s.admissions = [] ∧ s.gate.activeCancellations = 0) ∧
      (s.teardowns ≠ [] → s.gate.admitCall = .error .engineStopped) := by
  have hstart : Inv (start target) := ⟨rfl, fun h => absurd rfl h, fun _ => rfl⟩
  have h : Inv s := run_invariant inv_step hstart hrun
  refine ⟨h.counted, fun hidle => ⟨h.idle hidle, ?_⟩, fun hne => ?_⟩
  · rw [h.counted, h.idle hidle]
    rfl
  · rw [CancellationState.admitCall, h.stopped hne]
    rfl

/-- A call is admitted before the cutoff; the teardown sleeps until it is dropped. -/
theorem cancellation_excluded_waits :
    ∃ s, run step (start .available) [.admitCall, .call 0, .stop, .wait 0, .returns 0, .release 0,
        .settle 0, .wait 0, .close 0] = some s ∧ s.teardowns = [.closed] ∧ s.admissions = [] := by
  refine exists_run (f := fun s => s.teardowns) (v := [.closed]) (by decide +kernel)
    fun s hrun hclosed => ⟨hclosed, ((cancellation_excluded .available _ s hrun).2.1 ?_).1⟩
  rw [State.Idle, hclosed]
  decide

end Oliphaunt.Rust.Cancellation
