import Oliphaunt.Rust.WasixMessages

/-!
# Oliphaunt — WASIX Rust transaction ownership over whole runs

When no `transaction()` future is alive and the owner has handled its queue, no
transaction is active, and no block of a dropped future is open unless the
session is marked unknown. This holds in every run in which no future is dropped
between the delivery of its `Begin` reply and the poll that takes it, and fails
for that one drop: `oneshot::Sender::send` succeeded, so the owner does not
compensate, and no handle exists yet whose drop would.

* `no_transaction_leak` — no transaction is left, in those runs;
* `transaction_leaks_after_unpolled_begin` — one is left after that drop.
-/

namespace Oliphaunt.Wasix

open Transition

variable {s : State}

/-- The messages that clear the ownership have no receiver to look at. -/
theorem not_releases_of_abandoned {m : OwnerMessage} (h : s.isAbandoned m = true) (t : Nat) :
    ¬ m.Releases t := by
  cases m <;> simp_all [State.isAbandoned, OwnerMessage.Releases]

/-- Taking a message off the queue keeps custody: it becomes the current one. -/
theorem inv_ownerReceive {t : State} (h : Inv s) (hstep : ownerReceive s = some t) : Inv t := by
  unfold ownerReceive at hstep
  split at hstep <;> try cases hstep
  rename_i m rest halive hcurrent hqueue
  have hpending : s.pending = m :: rest := by
    rw [State.pending, hcurrent, hqueue]
    rfl
  have htaken : Custody (m :: State.pending { s with queue := rest }) { s with queue := rest } := by
    rw [show State.pending { s with queue := rest } = rest by rw [State.pending, hcurrent]; rfl,
      ← hpending]
    exact { h with }
  dsimp only at hstep
  split at hstep
  · rename_i habandoned
    split at hstep <;> cases hstep
    · exact inv_finishAbandoned htaken (by rintro _ ⟨⟩)
    · exact htaken.drop fun t ht => absurd ht (not_releases_of_abandoned habandoned t)
  · cases hstep
    rw [Inv, hpending] at h
    exact { h with }

/-- Whatever the engine answers to the current message, custody is kept. -/
theorem inv_ownerExecute {t : State} {e : Engine} (h : Inv s) (hstep : ownerExecute s e = some t) :
    Inv t := by
  unfold ownerExecute at hstep
  split at hstep <;> try cases hstep
  rename_i m halive hcurrent
  split at hstep <;> cases hstep
  rename_i he
  have htaken : Custody (m :: State.pending { s with current := none })
      { s with current := none } := by
    rw [Inv, State.pending, hcurrent] at h
    exact { h with }
  cases m with
  | command op work => exact inv_command htaken e
  | statement token client op operation => exact inv_statement htaken e
  | begin token client => exact inv_begin htaken halive he
  | finish token client commit => exact inv_finish htaken he
  | finishObserved token => exact inv_finishObserved htaken e
  | finishAbandoned token client => exact inv_finishAbandoned htaken fun t ht => ht.symm
  | rollbackBestEffort token client => exact inv_rollbackBestEffort htaken he
  | abandonFailed token reply => exact inv_abandonFailed htaken e
  | close => exact inv_close htaken rfl e
  | shutdown => exact inv_shutdown htaken rfl he

/-- **One step keeps the custody invariant**, unless it drops a future whose `Begin` reply was
delivered and not taken. -/
theorem inv_step {t : State} {a : Action} (h : Inv s) (ha : ¬ DropsUnpolledBegin s a)
    (hstep : step s a = some t) : Inv t := by
  cases a
  all_goals simp only [step] at hstep
  case start c =>
    split at hstep <;> cases hstep
    rename_i hc
    exact inv_startTransaction h hc.1
  case admitBegin c =>
    split at hstep <;> try cases hstep
    rename_i token epoch hc
    exact inv_admitBegin h hc hstep
  case pollBegin c =>
    split at hstep <;> try cases hstep
    rename_i token reply hc
    exact inv_observeBegin h hc hstep
  case statement c operation =>
    split at hstep <;> try cases hstep
    refine inv_submit h ?_ hstep
    exact fun _ _ => trivial
  case rollback c =>
    split at hstep <;> try cases hstep
    rename_i token hc
    split at hstep <;> cases hstep
    rename_i hactive
    exact inv_startFinish false false h hc hactive
  case cancelRollback c =>
    split at hstep <;> cases hstep
    rename_i token reply hc
    exact inv_cancelRollback h hc
  case pollFinish c =>
    split at hstep <;> try cases hstep
    rename_i token settling reply hc
    exact inv_takeFinish h hc hstep
  case callback c ok =>
    split at hstep <;> cases hstep
    rename_i token hc
    exact inv_settle ok h hc
  case pollRetired c =>
    split at hstep <;> cases hstep
    rename_i token reply hne hc
    exact inv_endTransaction h (by rw [hc]; rfl)
  case drop c => exact inv_drop h ha hstep
  case submit work =>
    refine inv_submit h ?_ hstep
    exact fun _ _ => trivial
  case dropOperation op =>
    cases hstep
    exact { h with }
  case close =>
    split at hstep <;> cases hstep
    refine Custody.push ?_ trivial
    exact { h with }
  case shutdown =>
    split at hstep <;> cases hstep
    exact h.push trivial
  case receive => exact inv_ownerReceive h hstep
  case execute e => exact inv_ownerExecute h hstep

/-- Nobody is left who could act on a transaction: no future and no handle is
alive, and the owner has handled its whole queue. -/
def Quiet (s : State) : Prop := s.pending = [] ∧ ∀ c, ¬ (s.clients c).Alive

/-- No transaction is active, and PostgreSQL has no block of a future unless the
session is marked unknown. -/
def NoTransactionLeft (s : State) : Prop :=
  s.activeTransaction = none ∧ (s.database.transactionOutcomeUnknown = true ∨
    ∀ t, s.database.block ≠ some (.transaction t))

/-- In a quiet state no client can own a transaction and no message is left that would release
one. -/
theorem Custody.noTransactionLeft (h : Inv s) (hquiet : Quiet s) : NoTransactionLeft s := by
  have hactive : s.activeTransaction = none := by
    cases hactive : s.activeTransaction with
    | none => rfl
    | some t =>
      rcases h.owned t hactive with ⟨c, hown⟩ | ⟨m, hm, -⟩
      · have halive : (s.clients c).Alive := by
          constructor <;> intro hc <;> rcases hown with hb | ⟨hb, -⟩ <;>
            rw [hc] at hb <;> cases hb
        exact absurd halive (hquiet.2 c)
      · rw [hquiet.1] at hm
        cases hm
  refine ⟨hactive, ?_⟩
  by_cases hunknown : s.database.transactionOutcomeUnknown = true
  · exact .inl hunknown
  · exact .inr (h.no_block hactive (by simpa using hunknown))

/-- In every run in which no future is dropped with an unpolled `Begin` reply,
every quiet state it reaches has no transaction left. -/
theorem no_transaction_leak {schedule : List Action} {s : State}
    (hrun : run step start schedule = some s)
    (hdrops : Along step (fun s a => ¬ DropsUnpolledBegin s a) start schedule)
    (hquiet : Quiet s) : NoTransactionLeft s := by
  refine Custody.noTransactionLeft ?_ hquiet
  exact run_invariant_along (fun _ _ _ h ha hstep => inv_step h ha hstep) inv_start hdrops hrun

/-- An engine that completes one command with the given tag and status. -/
def completing (tag : String) (status : ReadyStatus) : Engine where
  first :=
    { result := .ok { ready := .ok status, tags := .ok [tag], command := .ok (some tag) }
      inBlock := decide (status ≠ .idle) }
  second := { result := .error (.message "no second call"), inBlock := false }
  other := { inBlock := false, unknown := false, exitUnconfirmed := false, result := .ok () }
  teardown := .ok ()

/-- A transaction whose callback runs one statement and commits. -/
def committed : List Action :=
  [.start 0, .admitBegin 0, .receive, .execute (completing "BEGIN" .transaction), .pollBegin 0,
    .statement 0 "execute()", .receive, .execute (completing "INSERT 0 1" .transaction),
    .callback 0 true, .receive, .execute (completing "COMMIT" .idle), .pollFinish 0, .receive,
    .execute (completing "COMMIT" .idle)]

/-- The future is dropped after its `Begin` reply was delivered. -/
def droppedUnpolled : List Action :=
  [.start 0, .admitBegin 0, .receive, .execute (completing "BEGIN" .transaction), .drop 0]

/-- A transaction that runs one statement and commits ends quietly and leaves nothing. -/
theorem no_transaction_leak_committed :
    ∃ s, run step start committed = some s ∧ Quiet s ∧ NoTransactionLeft s := by
  refine ⟨_, rfl, ?quiet, @no_transaction_leak committed _ rfl ?polled ?quiet⟩
  case polled =>
    refine along_of_forall_mem _ fun a ha s => ?_
    simp only [committed, List.mem_cons, List.not_mem_nil, or_false] at ha
    rcases ha with rfl | rfl | rfl | rfl | rfl | rfl | rfl | rfl | rfl | rfl | rfl | rfl | rfl |
      rfl <;> exact id
  case quiet =>
    refine ⟨rfl, fun c => ?_⟩
    cases c with
    | zero => exact fun h => h.2 rfl
    | succ c => exact fun h => h.1 rfl

/-- **The leak.** The future is dropped between the delivery of its `Begin` reply and the poll
that takes it: the transaction stays active and its block open. -/
theorem transaction_leaks_after_unpolled_begin :
    ¬ ∀ schedule s, run step start schedule = some s → Quiet s → NoTransactionLeft s := by
  intro h
  have hleft := h droppedUnpolled _ rfl ⟨rfl, fun c => ?_⟩
  · have hactive := hleft.1
    cases hactive
  · cases c with
    | zero => exact fun h => h.2 rfl
    | succ c => exact fun h => h.1 rfl

end Oliphaunt.Wasix
