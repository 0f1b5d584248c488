import Oliphaunt.TS.ReactNativeChains

/-!
# Oliphaunt — React Native transactions end idle or poisoned

When the promise of a callback transaction settles, PostgreSQL is to be outside
any block, or the database poisoned so that nothing reaches the block that was
left behind. Exchange, handle and settlement each decide whether a failure needs
a `ROLLBACK`, needs poison or is harmless, and they do not agree about failures
that require no reopening (`Abandons`):

* a statement that was not started marks the handle as failed without asking for
  a `ROLLBACK`, and `#poison` ignores it;
* the admission of `COMMIT` or `ROLLBACK` that expires throws before the code is
  entered that poisons.

A block that raw traffic leaves open is entered by the next transaction and is
the third exception.

* `transactions_end_idle_or_poisoned` — so they do in every run without the exceptions;
* `transaction_abandons_block` — each of the exceptions leaves a block behind.
-/

namespace Oliphaunt.ReactNative

open Transition

/-- Every transaction that had its turn ended outside a block or with a poisoned
database, and while none runs nothing can enter a block that was left behind. -/
def State.EndsClean (s : State) : Prop :=
  (∀ r ∈ s.settled, r.inBlock = false ∨ r.poisoned = true) ∧ (s.running = none → s.Safe)

/-- The turn of the handle's operation fails in a way that leaves the block to nobody. -/
def HandleAbandons (h : Handle) (control : Admission) (replies : Replies) : Prop :=
  match h.tail with
  | [] => False
  | w :: _ =>
    match w.operation with
    | .statement plan => h.failure = none ∧ replies.NotStarted plan
    | .rollback => control ≠ .inTime

instance (h : Handle) (control : Admission) (replies : Replies) :
    Decidable (HandleAbandons h control replies) := by
  unfold HandleAbandons
  split
  · infer_instance
  · split <;> infer_instance

/-- On a healthy database: raw traffic ends inside a block, a statement of the handle is
not started, or the admission of a control command expires. -/
def Abandons (s : State) (a : Action) : Prop :=
  s.poisoned = none ∧
    match a with
    | .start _ replies => ∃ q ∈ s.operationTail.head?, LeavesBlockOpen q.operation replies
    | .handleStart _ control replies => HandleAbandons s.handle control replies
    | .drained control _ => control ≠ .inTime ∧ s.handle.settlement.needsControl = true
    | _ => False

instance (s : State) (a : Action) : Decidable (Abandons s a) := by
  unfold Abandons
  split <;> infer_instance

/-- Whoever gives up the block leaves it safe. -/
structure Guarded (s : State) : Prop where
  idle : s.running = none → s.Safe
  rolledBack : s.handle.state = .rolledBack → s.Safe
  /-- a failure that asks for no ROLLBACK has poisoned the database -/
  unrolled : ∀ {failure}, s.handle.failure = some (failure, false) → s.poisoned.isSome = true
  retained : s.handle.state = .failed → s.handle.failure.isSome = true
  settled : ∀ r ∈ s.settled, r.inBlock = false ∨ r.poisoned = true

theorem guarded_opened (broker timeout : Bool) : Guarded (opened broker timeout) where
  idle _ := .inl rfl
  rolledBack h := by cases h
  unrolled h := by cases h
  retained h := by cases h
  settled _ h := by cases h

variable {s t : State}

/-- Steps that send nothing and settle nothing keep the guard. -/
theorem Guarded.quiet (h : Guarded s) (hquiet : Quiet s t) : Guarded t := by
  rw [hquiet]
  exact ⟨h.idle, h.rolledBack, h.unrolled, h.retained, h.settled⟩

theorem Guarded.setHandle (h : Guarded s) (hfailure : handle.failure = s.handle.failure)
    (hstate : handle.state = s.handle.state ∨ handle.state = .finishing) :
    Guarded (s.setHandle handle) where
  idle := h.idle
  rolledBack hs := by
    rcases hstate with hstate | hstate
    · exact h.rolledBack (hstate ▸ hs)
    · exact absurd (hstate.symm.trans hs) (by decide)
  unrolled hs := h.unrolled (hfailure ▸ hs)
  retained hs := by
    rcases hstate with hstate | hstate
    · exact hfailure ▸ h.retained (hstate ▸ hs)
    · exact absurd (hstate.symm.trans hs) (by decide)
  settled := h.settled

theorem enqueue_spec (h : Handle) (op : HandleOperation) :
    (h.enqueue op).failure = h.failure ∧
      ((h.enqueue op).state = h.state ∨ (h.enqueue op).state = .finishing) := by
  unfold Handle.enqueue
  split
  · cases op with
    | statement => exact ⟨rfl, .inl rfl⟩
    | rollback => exact ⟨rfl, .inr rfl⟩
  · exact ⟨rfl, .inl rfl⟩

theorem seal_spec (h : Handle) :
    h.seal.failure = h.failure ∧ (h.seal.state = h.state ∨ h.seal.state = .finishing) := by
  unfold Handle.seal
  split
  · exact ⟨rfl, .inr rfl⟩
  · exact ⟨rfl, .inl rfl⟩

variable {call : Nat}

theorem Guarded.sealed (h : Guarded s) (phase : Phase) :
    Guarded { s with running := some (call, phase), handle := s.handle.seal } := by
  obtain ⟨hfailure, hstate⟩ := seal_spec s.handle
  have hset := h.setHandle hfailure hstate
  exact ⟨nofun, hset.rolledBack, hset.unrolled, hset.retained, hset.settled⟩

/-- A transaction may settle when the block is closed or the database poisoned. -/
theorem Guarded.settle (hsafe : s.Safe)
    (hunrolled : ∀ {failure}, s.handle.failure = some (failure, false) → s.poisoned.isSome = true)
    (hsettled : ∀ r ∈ s.settled, r.inBlock = false ∨ r.poisoned = true) (call : Nat)
    (error : Option Failure) : Guarded (s.settle call error) where
  idle _ := hsafe
  rolledBack hs := by cases hs
  unrolled := hunrolled
  retained hs := by cases hs
  settled r hr := by
    rcases List.mem_append.mp hr with hr | hr
    · exact hsettled r hr
    · obtain rfl := List.mem_singleton.mp hr
      exact hsafe

variable {replies : Replies} {phase : Phase}

/-- Starting an operation keeps the guard, unless raw traffic leaves a block open. -/
theorem Guarded.started (h : Guarded s) (hidle : s.running = none)
    (hleft : s.poisoned = none → ¬ LeavesBlockOpen q.operation replies)
    (hstarted : Started { s with operationTail := rest } q replies t) : Guarded t := by
  have hsafe : s.Safe := h.idle hidle
  cases hstarted with
  | skipped => exact ⟨h.idle, h.rolledBack, h.unrolled, h.retained, h.settled⟩
  | ordinary _ count recovery _ _ hsent hend =>
    have ht : t.Safe := by
      cases hpoisoned : s.poisoned with
      | none => exact hend hsafe (hleft hpoisoned)
      | some failure => exact .inr (hsent.poisoned (by simp [hpoisoned]))
    refine ⟨fun _ => ht, fun _ => ht, fun hs => ?_, ?_, ?_⟩
    · exact hsent.poisoned (h.unrolled (hsent.handle ▸ hs))
    · rw [hsent.handle]
      exact h.retained
    · rw [hsent.frame]
      exact h.settled
  | begun u _ _ hsent =>
    have hhandle : u.handle = .fresh := hsent.handle
    refine ⟨nofun, fun hs => ?_, fun hs => ?_, fun hs => ?_, ?_⟩
    · simp [hhandle, Handle.fresh] at hs
    · simp [hhandle, Handle.fresh] at hs
    · simp [hhandle, Handle.fresh] at hs
    · rw [hsent.frame]
      exact h.settled
  | failed u commands error _ _ hsent hend =>
    have hhandle : u.handle = .fresh := hsent.handle
    refine .settle (hend hsafe) (fun hs => ?_) ?_ q.call error
    · simp [hhandle, Handle.fresh] at hs
    · rw [hsent.frame]
      exact h.settled

variable {control : Admission}

/-- A control command that was refused although it came in time met a poisoned database. -/
theorem poisoned_of_refused (hrefused : Refused s control)
    (hcontrol : s.poisoned = none → control = .inTime)
    (hteardown : s.closeTeardownStarted = false) : s.poisoned.isSome = true := by
  cases hpoisoned : s.poisoned with
  | some failure => rfl
  | none =>
    rcases hrefused with hlate | hsome | ⟨-, hstarted⟩
    · exact absurd (hcontrol hpoisoned) hlate
    · rw [hpoisoned] at hsome
      cases hsome
    · rw [hteardown] at hstarted
      cases hstarted

/-- An operation of a handle keeps the guard, unless it is abandoned without being sent. -/
theorem Guarded.handleStarted (h : Guarded s) (hchains : Chains s)
    (hrunning : s.running = some (call, phase)) (htail : s.handle.tail = w :: rest)
    (hheld : s.poisoned = none → ¬ HandleAbandons s.handle control replies)
    (hstarted : HandleStarted (s.setHandle { s.handle with tail := rest }) call w late control
      replies t) : Guarded t := by
  have hsame : t.running = s.running ∧ t.settled = s.settled := by
    rw [hstarted.frame]
    exact ⟨rfl, rfl⟩
  have hrunning' : t.running ≠ none := by simp [hsame.1, hrunning]
  have hsettled : ∀ r ∈ t.settled, r.inBlock = false ∨ r.poisoned = true := hsame.2 ▸ h.settled
  cases hstarted with
  | skipped first =>
    exact ⟨fun hnone => absurd hnone hrunning', h.rolledBack, h.unrolled, h.retained, hsettled⟩
  | statement u plan first hop hrun =>
    refine ⟨fun hnone => absurd hnone hrunning', fun hs => ?_, fun hs => ?_, fun hs => ?_, hsettled⟩
    · -- The chain was not drained, so the handle had not been rolled back.
      rcases hrun.state with ⟨hstate, -⟩ | ⟨hfailed, -⟩
      · rw [hchains.handle.rolledBack_drained (hstate.symm.trans hs)] at htail
        cases htail
      · exact absurd (hfailed.symm.trans hs) (by decide)
    · rcases hrun.unrolled hs with hold | hpoisoned | hstarted
      · exact hrun.poisoned (h.unrolled hold)
      · exact hpoisoned
      · cases hpoisoned : s.poisoned with
        | some failure => exact hrun.poisoned (by simp [State.setHandle, hpoisoned])
        | none =>
          cases hfailure : s.handle.failure with
          | none =>
            refine absurd ?_ (hheld hpoisoned)
            simp only [HandleAbandons, htail, hop]
            exact ⟨hfailure, hstarted⟩
          | some first =>
            obtain rfl : first = _ := Option.some.inj ((hrun.kept hfailure).symm.trans hs)
            exact hrun.poisoned (h.unrolled hfailure)
    · rcases hrun.state with ⟨hstate, hfailure⟩ | ⟨-, hfailure⟩
      · exact (congrArg Option.isSome hfailure).trans (h.retained (hstate.symm.trans hs))
      · exact hfailure
  | rolledBack u hop _ hsent hsafe =>
    have hhandle := hsent.handle
    refine ⟨fun hnone => absurd hnone hrunning', fun _ => hsafe, fun hs => ?_, fun hs => ?_,
      hsettled⟩
    · exact hsent.poisoned (h.unrolled ((congrArg Handle.failure hhandle).symm.trans hs))
    · cases hs
  | rollbackRefused failure first hop hrefused =>
    have hpoisoned : s.poisoned.isSome = true := by
      refine poisoned_of_refused hrefused (fun hnone => ?_)
        (hchains.calls.not_teardown (by simp [hrunning]))
      by_contra hlate
      refine hheld hnone ?_
      simp only [HandleAbandons, htail, hop]
      exact hlate
    exact ⟨fun hnone => absurd hnone hrunning', nofun, fun _ => hpoisoned,
      fun _ => rfl, hsettled⟩
  | rollbackFailed u failure first hop _ hsent hpoisoned =>
    exact ⟨fun hnone => absurd hnone hrunning', nofun, fun _ => hpoisoned,
      fun _ => rfl, hsettled⟩

/-- The settlement keeps the guard, unless the admission of its control expires. -/
theorem Guarded.drained (h : Guarded s) (hchains : Chains s)
    (hrunning : s.running = some (call, phase)) (hheld : s.poisoned = none →
      ¬ (control ≠ .inTime ∧ s.handle.settlement.needsControl = true))
    (hdrained : Drained s call control t) : Guarded t := by
  have hsent : ∀ {u : State} {commands : List Command} (error : Option Failure),
      Exchanged call commands s u → u.Safe → Guarded (u.settle call error) := by
    intro u commands error hu hsafe
    refine .settle hsafe (fun hs => ?_) ?_ call error
    · exact hu.poisoned (h.unrolled (hu.handle ▸ hs))
    · rw [hu.frame]
      exact h.settled
  cases hdrained with
  | uncontrolled error hno =>
    refine .settle ?_ h.unrolled h.settled call error
    unfold Handle.settlement at hno
    split at hno
    · rename_i hstate
      exact h.rolledBack hstate
    · rename_i hfailure
      obtain rfl : _ = false := hno
      exact .inr (h.unrolled hfailure)
    · rename_i hstate hfailure
      have hsome := h.retained hstate
      rw [hfailure] at hsome
      cases hsome
    · cases hno
  | refused error hrefused hneeds =>
    refine .settle (.inr ?_) h.unrolled h.settled call error
    refine poisoned_of_refused hrefused (fun hnone => ?_)
      (hchains.calls.not_teardown (by simp [hrunning]))
    by_contra hlate
    exact hheld hnone ⟨hlate, hneeds⟩
  | committed u error _ _ hu hsafe => exact hsent error hu hsafe
  | rolledBack u error _ _ hu hsafe => exact hsent error hu hsafe

/-- **One step keeps the guard**, except for the three that abandon a block. -/
theorem guarded_step (h : Guarded s) (hchains : Chains s) (hheld : ¬ Abandons s a)
    (hstep : step s a = some t) : Guarded t := by
  cases step_cases hstep with
  | call op => exact h.quiet (callOperation_quiet s op)
  | handleCall op =>
    obtain ⟨hfailure, hstate⟩ := enqueue_spec s.handle op
    exact h.setHandle hfailure hstate
  | sealed call phase _ => exact h.sealed _
  | close => exact h.quiet (startClose_quiet s)
  | expire hexpire => exact h.quiet (expireOperation_quiet hexpire)
  | handleExpire first _ => exact h.setHandle rfl (.inl rfl)
  | start hidle htail hstarted =>
    refine h.started hidle (fun hnone hleft => hheld ⟨hnone, ?_⟩) hstarted
    exact ⟨_, by simp [htail], hleft⟩
  | handleStart hrunning htail hstarted =>
    exact h.handleStarted hchains hrunning htail (fun hnone habandons => hheld ⟨hnone, habandons⟩)
      hstarted
  | drained hrunning htail hdrained =>
    exact h.drained hchains hrunning (fun hnone hlate => hheld ⟨hnone, hlate⟩) hdrained
  | closeSettles closes _ => exact h.quiet (finishClose_quiet s closes)

/-- In every run of an opened database in which no step abandons a block, every
transaction ends outside a block or with a poisoned database. -/
theorem transactions_end_idle_or_poisoned (broker timeout : Bool) (schedule : List Action)
    (s : State) (hheld : Along step (fun s a => ¬ Abandons s a) (opened broker timeout) schedule)
    (hrun : run step (opened broker timeout) schedule = some s) : s.EndsClean := by
  have hinv : Guarded s ∧ Chains s :=
    run_invariant_along (P := fun s => Guarded s ∧ Chains s)
      (fun _ _ _ hi hheld hstep => ⟨guarded_step hi.1 hi.2 hheld hstep, chains_step hi.2 hstep⟩)
      ⟨guarded_opened broker timeout, chains_opened broker timeout⟩ hheld hrun
  exact ⟨hinv.1.settled, hinv.1.idle⟩

/-- One statement and a commit. -/
theorem transactions_end_idle_or_poisoned_committed :
    ∃ s, run step (opened true true) (begun ++ stated (completes "INSERT 0 1" .transaction) ++
        [.callbackReturns, .drained .inTime (completes "COMMIT" .idle)]) = some s ∧
      s.settled.length = 1 ∧ s.EndsClean := by
  refine exists_run (f := fun s => s.settled.length) (v := 1)
    (by decide +kernel) fun s hrun hs => ?_
  exact ⟨hs, transactions_end_idle_or_poisoned true true _ s (by decide +kernel) hrun⟩

/-- The broker did not start the request; PostgreSQL is still in its block. -/
def notStarted : Outcome Failure where
  result := .error (.broker "broker operation deadline" "deadline" false)
  inBlock := true

/-- A statement that was not started ends the transaction inside its block with neither
`ROLLBACK` nor poison, and so does a `COMMIT` whose admission expires. -/
theorem transaction_abandons_block :
    (∃ s, run step (opened true true) (begun ++ stated notStarted ++
        [.callbackReturns, .drained .inTime (completes "COMMIT" .idle)]) = some s ∧
      ¬ s.EndsClean) ∧
      ∃ s, run step (opened true true) (begun ++ stated (completes "INSERT 0 1" .transaction) ++
          [.callbackReturns, .drained .late (completes "COMMIT" .idle)]) = some s ∧
        ¬ s.EndsClean := by
  have habandoned : ∀ {schedule : List Action},
      (run step (opened true true) schedule).map
        (fun s => s.settled.map fun r => (r.inBlock, r.poisoned)) = some [(true, false)] →
      ∃ s, run step (opened true true) schedule = some s ∧ ¬ s.EndsClean := by
    intro schedule h
    obtain ⟨s, hrun, hs⟩ := Option.map_eq_some_iff.mp h
    refine ⟨s, hrun, fun hclean => ?_⟩
    obtain ⟨r, hr, hvalues⟩ : ∃ r ∈ s.settled, (r.inBlock, r.poisoned) = (true, false) :=
      List.mem_map.mp (hs ▸ List.mem_singleton_self _)
    rcases hclean.1 r hr with hblock | hpoisoned
    · exact absurd (congrArg Prod.fst hvalues) (by simp [hblock])
    · exact absurd (congrArg Prod.snd hvalues) (by simp [hpoisoned])
  exact ⟨habandoned (by decide +kernel), habandoned (by decide +kernel)⟩

end Oliphaunt.ReactNative
