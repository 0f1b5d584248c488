import Oliphaunt.Rust.WasixCustody

/-!
# Oliphaunt — what WASIX Rust futures do to the custody of a transaction

Every step of a `transaction()` future, of its handle and of the other handles
keeps the custody invariant, with one exception: the drop of a future whose
`Begin` succeeded and whose reply it has not taken (`DropsUnpolledBegin`).
-/

namespace Oliphaunt.Wasix

open List TransactionOutcomeGuard Custody

variable {s s' : State} {c : Nat} {pending extra : List OwnerMessage}

theorem Custody.append (h : Custody pending s) (hextra : ∀ m ∈ extra, s.Placed m) :
    Custody (pending ++ extra) s where
  __ := h
  placed := fun m hm => (mem_append.mp hm).elim (h.placed m) (hextra m)
  owned := fun t ht => (h.owned t ht).imp_right fun ⟨m, hm, hrel⟩ =>
    ⟨m, mem_append_left extra hm, hrel⟩

theorem Custody.queue (h : Custody (s.pending ++ extra) s) :
    Inv { s with queue := s.queue ++ extra } := by
  rw [Inv, show State.pending { s with queue := s.queue ++ extra } = s.pending ++ extra from
    (append_assoc ..).symm]
  exact { h with }

variable {m : OwnerMessage} {t : Nat} {v : Client} {g : TransactionOutcomeGuard} {settling : Bool}

theorem Custody.push (h : Inv s) (hm : s.Placed m) : Inv (s.push m) :=
  (h.append fun _ hm' => mem_singleton.mp hm' ▸ hm).queue

/-- Work of other handles enters the queue. -/
theorem inv_submit {t : State} (h : Inv s) (hplaced : ∀ op s', State.Placed s' (message op))
    (hstep : s.submit message = some t) : Inv t := by
  unfold State.submit at hstep
  split at hstep <;> cases hstep
  refine push ?_ (hplaced _ _)
  exact { h with }

/-- What `enqueue_control` puts into the queue. -/
def State.accepted (s : State) (messages : List OwnerMessage) : List OwnerMessage :=
  if s.ownerAlive then messages else []

theorem mem_of_accepted (h : m ∈ s.accepted extra) : m ∈ extra := by
  unfold State.accepted at h
  split at h
  · exact h
  · cases h

theorem enqueueControl_eq (s : State) (m : OwnerMessage) :
    s.enqueueControl m = { s with queue := s.queue ++ s.accepted [m] } := by
  unfold State.enqueueControl State.accepted
  split
  · rfl
  · rw [append_nil]

/-- A future that answers for the active transaction finds the owner alive. -/
theorem Custody.accepts (h : Custody pending s) (ht : s.activeTransaction = some t)
    (messages : List OwnerMessage) : s.accepted messages = messages := by
  refine if_pos ?_
  by_contra hdead
  rw [h.stopped (by simpa using hdead)] at ht
  cases ht

@[simp] theorem setClient_self (s : State) (c : Nat) (v : Client) :
    (s.setClient c v).clients c = v := by
  simp [State.setClient]

@[simp] theorem setClient_of_ne (s : State) (hd : d ≠ c) (v : Client) :
    (s.setClient c v).clients d = s.clients d := by
  simp [State.setClient, hd]

@[simp] theorem setGuard_self (s : State) (c : Nat) (g : TransactionOutcomeGuard) :
    (s.setGuard c g).guards c = g := by
  simp [State.setGuard]

@[simp] theorem setGuard_of_ne (s : State) (hd : d ≠ c) (g : TransactionOutcomeGuard) :
    (s.setGuard c g).guards d = s.guards d := by
  simp [State.setGuard, hd]

@[simp] theorem guards_setClient (s : State) (c : Nat) (v : Client) :
    (s.setClient c v).guards = s.guards := rfl

@[simp] theorem clients_setGuard (s : State) (c : Nat) (g : TransactionOutcomeGuard) :
    (s.setGuard c g).clients = s.clients := rfl

theorem setGuard_guards (s : State) (c : Nat) : s.setGuard c (s.guards c) = s := by
  simp [State.setGuard]

theorem setClient_clients (s : State) (c : Nat) : s.setClient c (s.clients c) = s := by
  simp [State.setClient]

/-- The future `c` changes with its guard, and messages enter the queue. -/
theorem Custody.moved (h : Custody pending s)
    (hself : Advance s ((s.setGuard c g).setClient c v) (pending ++ extra) c)
    (hextra : ∀ m ∈ extra, ((s.setGuard c g).setClient c v).Placed m) :
    Custody (pending ++ extra) ((s.setGuard c g).setClient c v) := by
  refine h.move ⟨rfl, rfl, rfl, rfl⟩ (fun d hd => ⟨setClient_of_ne _ hd v, setGuard_of_ne s hd g⟩)
    hself (subset_append_left ..) fun m hm => ?_
  exact (mem_append.mp hm).imp_right (hextra m)

theorem Custody.moves (h : Custody pending s)
    (hself : Advance s ((s.setGuard c g).setClient c v) pending c) :
    Custody pending ((s.setGuard c g).setClient c v) := by
  rw [← append_nil pending] at hself ⊢
  exact h.moved hself nofun

theorem Custody.stands (h : Custody pending s) (hself : Advance s (s.setClient c v) pending c) :
    Custody pending (s.setClient c v) := by
  have hmoves := h.moves (g := s.guards c) (v := v) (c := c)
  rw [setGuard_guards] at hmoves
  exact hmoves hself

/-- A future ends: whatever it answered for has a message in the queue. -/
theorem Advance.of_gone (hgone : s'.clients c = .gone)
    (howner : ∀ t, s'.activeTransaction = some t → s.Owner c t →
      ∃ m ∈ pending, m.Releases t) : Advance s s' pending c where
  token := fun t ht => by rw [hgone] at ht; cases ht
  keeps := fun _ _ => .inr hgone
  gone := fun _ => hgone
  handle := fun t _ ht => by rw [hgone] at ht; cases ht
  settling := fun t b reply hc => by rw [hgone] at hc; cases hc
  unclaimed := fun t ht => by rw [hgone] at ht; cases ht
  settled := fun t ht _ => by rw [hgone] at ht; cases ht
  owner := fun t ht hown => .inr (howner t ht hown)

/-- A future that answers for nothing ends. -/
theorem Custody.leave (h : Inv s) (hnone : ∀ t, ¬ s.Owner c t) : Inv (s.setClient c .gone) :=
  h.stands (.of_gone (setClient_self s c .gone) fun t _ hown => absurd hown (hnone t))

/-- A future keeps its handle while its location or its guard changes. -/
theorem Advance.of_handle (hold : (s.clients c).handle = some t)
    (hnew : (s'.clients c).handle = some t)
    (hsettling : ∀ u b reply, s'.clients c = .finishing u b reply → (s'.guards c).Settling)
    (hunclaimed : (s'.guards c).state = .active → (s'.guards c).settlementObserved = false)
    (hsettled : (s'.clients c).answered = true ∨ (s'.guards c).state = .failed → s'.Settled t)
    (howner : s'.activeTransaction = some t → (s.guards c).Releases →
      (s'.guards c).Releases ∨ ∃ m ∈ pending, m.Releases t) : Advance s s' pending c := by
  have htoken := Client.token_of_handle hold
  have htoken' := Client.token_of_handle hnew
  have hbegun := Client.begun_of_handle hold
  refine
    { token := fun u hu => .inl (by rw [htoken, ← htoken', hu])
      keeps := fun u hu => .inl (by rw [htoken', ← htoken, hu])
      gone := fun hgone => by rw [hgone] at hold; cases hold
      handle := fun u hu _ => by rw [hnew, ← hold, hu]
      settling := hsettling
      unclaimed := fun _ _ => hunclaimed
      settled := fun u hu hor => ?_
      owner := ?_ }
  · cases hnew.symm.trans hu
    exact hsettled hor
  · rintro u hactive (hb | ⟨hhandle, hreleases⟩)
    · cases hbegun.symm.trans hb
    · cases hold.symm.trans hhandle
      rcases howner hactive hreleases with hrel | hqueued
      · exact .inl (.inr ⟨hnew, hrel⟩)
      · exact .inr hqueued

/-! ## The end of a transaction -/

/-- What `Drop for AsyncTransaction` makes of the guard, and the message it sends. -/
def TransactionOutcomeGuard.dropped (g : TransactionOutcomeGuard) (token client : Nat) :
    TransactionOutcomeGuard × List OwnerMessage :=
  if g.settlementStarted ∧ ¬ g.settlementObserved then (g, [.finishAbandoned token client])
  else
    match g.state with
    | .active => ({ g with state := .finishing }, [.rollbackBestEffort token client])
    | .failed => (g, [.abandonFailed token none])
    | _ => (g, [])

theorem dropTransaction_eq (s : State) (c t : Nat) :
    dropTransaction s c t = { s.setGuard c ((s.guards c).dropped t c).1 with
      queue := s.queue ++ s.accepted ((s.guards c).dropped t c).2 } := by
  unfold dropTransaction dropped
  dsimp only
  split
  · rw [setGuard_guards, enqueueControl_eq]
  · have hnone : s.accepted [] = [] := by simp [State.accepted]
    cases (s.guards c).state with
    | active => exact enqueueControl_eq _ _
    | failed =>
      dsimp only
      rw [setGuard_guards, enqueueControl_eq]
    | finishing | rolledBack | committed =>
      rw [setGuard_guards, hnone, append_nil]

/-- A dropped guard that has to release queues a message that does. -/
theorem dropped_releases (h : g.Releases) (t c : Nat) : ∃ m ∈ (g.dropped t c).2, m.Releases t := by
  unfold dropped
  split
  · exact ⟨_, .head _, rfl⟩
  · rename_i hobserved
    split
    · exact ⟨_, .head _, rfl⟩
    · exact ⟨_, .head _, rfl⟩
    · rename_i hactive hfailed
      rcases h with ⟨hstarted, hunobserved⟩ | hstate | hstate
      · exact absurd ⟨hstarted, by simp [hunobserved]⟩ hobserved
      · exact absurd hstate hactive
      · exact absurd hstate hfailed

/-- A message about a token whose future is gone, which failed if it is only retired. -/
theorem placed_of_dropped (hm : m ∈ (g.dropped t c).2) (hgone : s'.clients c = .gone)
    (hfailed : g.state = .failed → t < s'.nextTransaction ∧ s'.NotFresh t ∧ s'.Settled t) :
    s'.Placed m := by
  unfold dropped at hm
  split at hm
  · exact mem_singleton.mp hm ▸ Or.inr hgone
  · split at hm
    · exact mem_singleton.mp hm ▸ Or.inr hgone
    · rename_i hstate
      exact mem_singleton.mp hm ▸ hfailed hstate
    · cases hm

/-- The end of a future does not depend on where it stood. -/
theorem endTransaction_eq (s : State) (c t : Nat) (v : Client) :
    endTransaction (s.setClient c v) c t =
      { (s.setGuard c ((s.guards c).dropped t c).1).setClient c .gone with
        queue := s.queue ++ s.accepted ((s.guards c).dropped t c).2 } := by
  unfold endTransaction
  rw [dropTransaction_eq]
  simp [State.setClient, State.setGuard]
  rfl

/-- The end of a `transaction()` future drops its handle. -/
theorem inv_endTransaction (h : Inv s) (hc : (s.clients c).handle = some t) :
    Inv (endTransaction s c t) := by
  have htoken := Client.token_of_handle hc
  have hgone : ((s.setGuard c ((s.guards c).dropped t c).1).setClient c .gone).clients c = .gone :=
    setClient_self _ c .gone
  rw [← setClient_clients s c, endTransaction_eq]
  refine queue (moved h (.of_gone hgone ?_) fun m hm => ?_)
  · rintro u hactive (hbegun | ⟨hhandle, hreleases⟩)
    · rw [Client.begun_of_handle hc] at hbegun
      cases hbegun
    · obtain rfl : t = u := Option.some.inj (hc.symm.trans hhandle)
      obtain ⟨m, hm, hrel⟩ := dropped_releases hreleases t c
      rw [h.accepts hactive]
      exact ⟨m, mem_append_right _ hm, hrel⟩
  · refine placed_of_dropped (mem_of_accepted hm) hgone fun hfailed =>
      ⟨h.fresh c t htoken, fun d hd => ?_, h.settled c t hc (.inr hfailed)⟩
    by_cases hdc : d = c
    · rw [hdc, hgone] at hd
      cases hd
    · rw [setClient_of_ne _ hdc] at hd
      exact absurd (h.unique d c t hd htoken) hdc

theorem not_owner_of_none (hbegun : (s.clients c).begun = none)
    (hhandle : (s.clients c).handle = none) (t : Nat) : ¬ s.Owner c t := by
  rintro (hb | ⟨hh, -⟩)
  · cases hbegun.symm.trans hb
  · cases hhandle.symm.trans hh

/-- A new future waits with a token of its own. -/
theorem inv_startTransaction (h : Inv s) (hc : s.clients c = .unused) :
    Inv (startTransaction s c) := by
  have hself : (startTransaction s c).clients c = .waiting s.nextTransaction s.closeEpoch := by
    simp [startTransaction, State.setClient]
  have hother : ∀ d, d ≠ c → (startTransaction s c).clients d = s.clients d := by
    intro d hd
    simp [startTransaction, State.setClient, hd]
  have honly : ∀ d, ((startTransaction s c).clients d).token = some s.nextTransaction → d = c := by
    intro d hd
    by_contra hdc
    rw [hother d hdc] at hd
    exact absurd (h.fresh d _ hd) (Nat.lt_irrefl _)
  refine h.advance (fun d => ?_) (Nat.le_succ _)
    (fun d d' hd hd' _ => (honly d hd).trans (honly d' hd').symm) h.stopped
    (fun t ht => .inl ht) (fun _ _ hset => hset) (fun _ hm _ _ _ => hm) (fun _ hm => .inl hm)
    h.blocks h.ready
  by_cases hdc : d = c
  · subst hdc
    constructor <;> try simp [hc, hself, Client.token, Client.handle]
    · exact Nat.lt_succ_self _
    · exact fun u _ hown => absurd hown (not_owner_of_none (by rw [hc]; rfl) (by rw [hc]; rfl) u)
  · exact .of_same h (hother d hdc) rfl fun _ _ hset => hset

variable {t : State} {token : Nat}

/-- `Begin` is queued, refused because of a close since the call, or waits on. -/
theorem inv_admitBegin (h : Inv s) (hc : s.clients c = .waiting token epoch)
    (hstep : admitBegin s c token epoch = some t) : Inv t := by
  have hnone : ∀ u, ¬ s.Owner c u := not_owner_of_none (by rw [hc]; rfl) (by rw [hc]; rfl)
  unfold admitBegin at hstep
  split at hstep
  · cases hstep
    exact h.leave hnone
  · split at hstep <;> cases hstep
    refine push (stands h ?_) (.inl (by simp [Client.token]))
    constructor <;> try simp [hc, Client.token, Client.handle]
    exact fun u _ hown => absurd hown (hnone u)

/-- The reply of `Begin` becomes the handle. -/
theorem inv_observeBegin (h : Inv s) (hc : s.clients c = .beginning token reply)
    (hstep : observeBegin s c token reply = some t) : Inv t := by
  have hleave : ¬ (∃ value, reply = .sent (.ok value)) → Inv (s.setClient c .gone) := by
    intro hfailed
    refine h.leave (not_owner_of_none ?_ (by rw [hc]; rfl))
    rw [hc]
    rcases reply with _ | _ | (_ | _)
    · rfl
    · rfl
    · rfl
    · exact absurd ⟨_, rfl⟩ hfailed
  rcases reply with _ | _ | (error | value)
  · cases hstep
  · cases hstep
    exact hleave (by simp)
  · cases hstep
    exact hleave (by simp)
  · cases hstep
    refine moves h ?_
    constructor
    · simp [hc, Client.token, or_iff_left_of_imp]
    · simp [hc, Client.token]
    · simp [hc]
    · simp [hc, Client.handle]
    · simp
    · simp [active]
    · simp [Client.answered, active]
    · rintro u - (hbegun | ⟨hhandle, -⟩)
      · rw [hc] at hbegun
        refine .inl (.inr ⟨?_, .inr (.inl ?_)⟩)
        · rw [setClient_self]
          exact hbegun
        · rw [guards_setClient, setGuard_self]
          rfl
      · rw [hc] at hhandle
        cases hhandle

@[simp] theorem retainFailure_state (g : TransactionOutcomeGuard) (error : Error) (b : Bool) :
    (g.retainFailure error b).state = .failed := by
  unfold retainFailure
  split <;> rfl

@[simp] theorem retainFailure_started (g : TransactionOutcomeGuard) (error : Error) (b : Bool) :
    (g.retainFailure error b).settlementStarted = g.settlementStarted := by
  unfold retainFailure
  split <;> rfl

@[simp] theorem retainFailure_observed (g : TransactionOutcomeGuard) (error : Error) (b : Bool) :
    (g.retainFailure error b).settlementObserved = g.settlementObserved := by
  unfold retainFailure
  split <;> rfl

/-- A settlement is queued and recorded in the guard. -/
theorem inv_startFinish (commit settling : Bool) (h : Inv s)
    (hc : s.clients c = .body token) (hguard : (s.guards c).state = .active) :
    Inv (startFinish s c token commit settling) := by
  have hhandle : (s.clients c).handle = some token := by rw [hc]; rfl
  have hunobserved := h.unclaimed c token hhandle hguard
  unfold startFinish
  split
  · refine push (moves h (.of_handle hhandle (by simp [Client.handle]) ?_ ?_ ?_ ?_))
      (.inl (by simp [Client.token]))
    · intro u b reply _
      exact ⟨by simp [claim],
        by simpa [claim] using hunobserved,
        by simp [claim]⟩
    · simp [claim]
    · simp [Client.answered, claim]
    · exact fun _ _ => .inl (.inl (by simpa [claim] using hunobserved))
  · rename_i hdead
    have hnever : ∀ u, s.activeTransaction ≠ some u := by
      rw [h.stopped (by simpa using hdead)]
      simp
    have hfailed := moves (c := c) (v := s.clients c)
      (g := (s.guards c).claim.observed.retainFailure ownerStopped false) h
      (.of_handle hhandle (by simpa using hhandle) (by simp [hc]) (by simp)
        (fun _ hactive => absurd hactive (hnever token))
        (fun hactive => absurd hactive (hnever token)))
    rw [← clients_setGuard s c, setClient_clients] at hfailed
    split
    · exact inv_endTransaction hfailed (by simpa using hhandle)
    · exact hfailed

/-- The guard behind an observed outcome is not active, and failed if the
outcome was lost. -/
theorem observeFinish_guard (hg : g.state ≠ .active) (alive : Bool)
    (reply : Option TransactionFinishOutcome) : (g.observeFinish alive reply).state ≠ .active ∧
      (reply = none → (g.observeFinish alive reply).state = .failed) := by
  unfold TransactionOutcomeGuard.observeFinish
  split
  · simp
  · split
    · simp
    · split
      · simpa [observed] using hg
      · simp

variable {slot : Slot TransactionFinishOutcome}

/-- The outcome is taken: the transaction is settled, and either the
acknowledgement is queued or the guard has failed. -/
theorem inv_observeFinish (reply : Option TransactionFinishOutcome) (h : Inv s)
    (hc : s.clients c = .finishing token settling slot) (hslot : slot ≠ .empty) :
    Inv (observeFinish s c token settling reply) := by
  have hhandle : (s.clients c).handle = some token := by rw [hc]; rfl
  have htoken := Client.token_of_handle hhandle
  have hsettled : s.Settled token :=
    h.settled c token hhandle (.inl (by rw [hc]; exact decide_eq_true hslot))
  obtain ⟨hactive, hlost⟩ := observeFinish_guard (h.settling c token settling slot hc).2.2
    s.ownerAlive reply
  let seen := s.setGuard c ((s.guards c).observeFinish s.ownerAlive reply)
  let acknowledgement : List OwnerMessage := if reply.isSome then [.finishObserved token] else []
  let acknowledged : State := { seen with queue := s.queue ++ s.accepted acknowledgement }
  have heq : (if reply.isSome then seen.enqueueControl (.finishObserved token) else seen) =
      acknowledged := by
    cases reply with
    | none => simp [acknowledged, acknowledgement, seen, State.accepted, State.setGuard]
    | some outcome => exact enqueueControl_eq seen (.finishObserved token)
  have hbody : Inv (acknowledged.setClient c (.body token)) := by
    refine queue (s := seen.setClient c (.body token)) (moved h ?_ fun m hm => ?_)
    · refine .of_handle hhandle (by simp [Client.handle]) (by simp) ?_ (fun _ => hsettled) ?_
      · rw [guards_setClient, setGuard_self]
        exact fun hbad => absurd hbad hactive
      · intro hown _
        rw [guards_setClient, setGuard_self, h.accepts hown]
        cases reply with
        | none => exact .inl (.inr (.inr (hlost rfl)))
        | some outcome =>
          exact .inr ⟨_, mem_append_right _ (.head _), rfl⟩
    · have hm := mem_of_accepted hm
      cases reply with
      | none => exact absurd hm not_mem_nil
      | some outcome =>
        obtain rfl := mem_singleton.mp hm
        refine ⟨h.fresh c token htoken, fun d hd => ?_, hsettled⟩
        by_cases hdc : d = c
        · rw [hdc, setClient_self]
          rfl
        · rw [setClient_of_ne _ hdc] at hd
          exact absurd (h.unique d c token hd htoken) hdc
  unfold observeFinish
  dsimp only
  rw [heq]
  split <;> try exact hbody
  have hend := inv_endTransaction (t := token) (c := c) hbody (by simp [Client.handle])
  rw [endTransaction_eq] at hend
  rwa [← setClient_clients acknowledged c, endTransaction_eq]

/-- The future takes the outcome of the settlement. -/
theorem inv_takeFinish (h : Inv s) (hc : s.clients c = .finishing token settling slot)
    (hstep : takeFinish s c token settling slot = some t) : Inv t := by
  cases slot with
  | empty => cases hstep
  | closed =>
    cases hstep
    exact inv_observeFinish none h hc (by simp)
  | sent outcome =>
    cases hstep
    exact inv_observeFinish (some outcome) h hc (by simp)

/-- The future of `rollback()` is dropped inside the callback. -/
theorem inv_cancelRollback (h : Inv s) (hc : s.clients c = .finishing token false slot) :
    Inv (s.setClient c (.body token)) := by
  have hsettling := h.settling c token false slot hc
  have hhandle : (s.clients c).handle = some token := by rw [hc]; rfl
  refine h.stands (.of_handle hhandle (by simp [Client.handle]) (by simp) ?_ ?_ ?_)
  · exact fun hactive => absurd hactive hsettling.2.2
  · rintro (hanswered | hfailed)
    · simp [Client.answered] at hanswered
    · exact h.settled c token hhandle (.inr hfailed)
  · exact fun _ hreleases => .inl hreleases

/-- What a future does when its callback has returned. -/
theorem inv_settle (callbackOk : Bool) (h : Inv s)
    (hc : s.clients c = .body token) : Inv (settle s c token callbackOk) := by
  have hhandle : (s.clients c).handle = some token := by rw [hc]; rfl
  unfold settle
  split
  · rename_i hactive
    exact inv_startFinish callbackOk true h hc hactive
  · rename_i hfailed
    have hsettled := h.settled c token hhandle (.inr hfailed)
    split
    · have hretiring : Inv (s.setClient c (.retiring token .empty)) :=
        h.stands (.of_handle hhandle (by simp [Client.handle]) (by simp)
          (h.unclaimed c token hhandle) (fun _ => hsettled) fun _ hreleases => .inl hreleases)
      refine push hretiring ⟨h.fresh c token (Client.token_of_handle hhandle), ?_, hsettled⟩
      exact hretiring.notFresh (c := c) (by simp [Client.handle])
    · exact inv_endTransaction h hhandle
  · exact inv_endTransaction h hhandle

/-- A future is dropped after its `Begin` succeeded and before it polls the
reply. -/
def DropsUnpolledBegin (s : State) : Action → Prop
  | .drop c => (s.clients c).begun ≠ none
  | _ => False

instance (s : State) (a : Action) : Decidable (DropsUnpolledBegin s a) := by
  unfold DropsUnpolledBegin
  split <;> infer_instance

/-- **A dropped future queues its cleanup**, unless it is dropped with an untaken `Begin`
reply. -/
theorem inv_drop (h : Inv s) (ha : ¬ DropsUnpolledBegin s (.drop c))
    (hstep : step s (.drop c) = some t) : Inv t := by
  have hbegun : (s.clients c).begun = none := by
    simpa [DropsUnpolledBegin] using ha
  simp only [step] at hstep
  split at hstep <;> cases hstep
  · rename_i hc
    exact h.leave (not_owner_of_none hbegun (by rw [hc]; rfl))
  · rename_i hc
    exact h.leave (not_owner_of_none hbegun (by rw [hc]; rfl))
  · rename_i hc
    exact inv_endTransaction h (by rw [hc]; rfl)
  · rename_i hc
    exact inv_endTransaction h (by rw [hc]; rfl)
  · rename_i hc
    exact inv_endTransaction h (by rw [hc]; rfl)

end Oliphaunt.Wasix
