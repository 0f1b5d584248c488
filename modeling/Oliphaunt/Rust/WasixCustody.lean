import Oliphaunt.Rust.WasixTransaction

/-!
# Oliphaunt — custody of the WASIX Rust transaction

`active_transaction` is set by `Begin` and cleared by the messages that settle a
transaction. In between, somebody has to be responsible for it: a future whose
drop queues such a message, or a message already in the queue (`Inv.owned`).
Where ownership is cleared without a PostgreSQL command, the transaction must
have been settled before or the session be known as unknown (`State.Settled`).

The messages are a parameter of the invariant (`Custody`), so that it can also be
stated while the owner holds a message that has left the queue.
-/

namespace Oliphaunt.Wasix

/-- The token a future works for. -/
def Client.token : Client → Option Nat
  | .waiting token _ | .beginning token _ | .body token | .finishing token _ _
  | .retiring token _ => some token
  | _ => none

/-- The token of the `AsyncTransaction` that the future has built. -/
def Client.handle : Client → Option Nat
  | .body token | .finishing token _ _ | .retiring token _ => some token
  | _ => none

/-- The token of a `Begin` that succeeded and whose reply was not taken yet. -/
def Client.begun : Client → Option Nat
  | .beginning token (.sent (.ok ())) => some token
  | _ => none

/-- The `Finish` of the future has been answered. -/
def Client.answered : Client → Bool
  | .finishing _ _ reply => decide (reply ≠ .empty)
  | _ => false

variable {c : Client} {t : Nat}

theorem Client.token_of_handle (h : c.handle = some t) :
    c.token = some t := by
  cases c <;> first | exact h | cases h

theorem Client.token_of_begun (h : c.begun = some t) :
    c.token = some t := by
  unfold Client.begun at h
  split at h
  · exact h
  · cases h

theorem Client.begun_of_handle (h : c.handle = some t) :
    c.begun = none := by
  cases c <;> first | rfl | cases h

/-- Dropping the handle queues a message that clears the ownership. -/
def TransactionOutcomeGuard.Releases (g : TransactionOutcomeGuard) : Prop :=
  (g.settlementStarted = true ∧ g.settlementObserved = false) ∨ g.state = .active ∨
    g.state = .failed

/-- A settlement was started and its outcome not observed yet. -/
def TransactionOutcomeGuard.Settling (g : TransactionOutcomeGuard) : Prop :=
  g.settlementStarted = true ∧ g.settlementObserved = false ∧ g.state ≠ .active

/-- The message clears the ownership of `t`. -/
def OwnerMessage.Releases (t : Nat) : OwnerMessage → Prop
  | .finishObserved token | .finishAbandoned token _ | .rollbackBestEffort token _
  | .abandonFailed token _ => token = t
  | _ => False

/-- The messages not handled yet, the received one first. -/
def State.pending (s : State) : List OwnerMessage := s.current.toList ++ s.queue

/-- The future `c` answers for the ownership of `t`. -/
def State.Owner (s : State) (c t : Nat) : Prop :=
  (s.clients c).begun = some t ∨ ((s.clients c).handle = some t ∧ (s.guards c).Releases)

/-- The ownership of `t` may be cleared without a PostgreSQL command. -/
def State.Settled (s : State) (t : Nat) : Prop :=
  s.activeTransaction = some t → s.database.transactionOutcomeUnknown = true ∨
    s.database.inTransaction = false

/-- No future is still to begin `t`. -/
def State.NotFresh (s : State) (t : Nat) : Prop :=
  ∀ c, (s.clients c).token = some t → (s.clients c).handle = some t

/-- What holds for a message while it waits. -/
def State.Placed (s : State) : OwnerMessage → Prop
  | .begin token c | .finish token c _ | .finishAbandoned token c | .rollbackBestEffort token c =>
    (s.clients c).token = some token ∨ s.clients c = .gone
  | .finishObserved token | .abandonFailed token _ =>
    token < s.nextTransaction ∧ s.NotFresh token ∧ s.Settled token
  | _ => True

structure Custody (pending : List OwnerMessage) (s : State) : Prop where
  stopped : s.ownerAlive = false → s.activeTransaction = none
  fresh : ∀ c t, (s.clients c).token = some t → t < s.nextTransaction
  unique : ∀ c d t, (s.clients c).token = some t → (s.clients d).token = some t → c = d
  placed : ∀ m ∈ pending, s.Placed m
  owned : ∀ t, s.activeTransaction = some t →
    (∃ c, s.Owner c t) ∨ ∃ m ∈ pending, m.Releases t
  settling : ∀ c t b reply, s.clients c = .finishing t b reply → (s.guards c).Settling
  /-- an active guard has no settlement behind it -/
  unclaimed : ∀ c t, (s.clients c).handle = some t → (s.guards c).state = .active →
    (s.guards c).settlementObserved = false
  settled : ∀ c t, (s.clients c).handle = some t →
    (s.clients c).answered = true ∨ (s.guards c).state = .failed → s.Settled t
  /-- an open block of a transaction has its owner -/
  blocks : s.database.transactionOutcomeUnknown = false →
    ∀ t, s.database.block = some (.transaction t) →
      s.activeTransaction = some t ∧ s.database.inTransaction = true
  ready : ∀ t, s.activeTransaction = some t →
    s.database.closed = false ∧ s.database.backupModeExitUnconfirmed = false

/-- Custody between two steps. -/
abbrev Inv (s : State) : Prop := Custody s.pending s

/-- No transaction is active when the owner starts. -/
theorem inv_start : Inv start := by
  constructor <;> simp [start, State.pending, Client.token, Client.handle]

variable {s : State} {pending : List OwnerMessage} {c t : Nat}

theorem Custody.notFresh (h : Custody pending s) (hhandle : (s.clients c).handle = some t) :
    s.NotFresh t := by
  intro d hd
  rw [h.unique d c t hd (Client.token_of_handle hhandle)]
  exact hhandle

/-- What one step does to one future; `pending` are the messages after it. -/
structure Advance (s s' : State) (pending : List OwnerMessage) (c : Nat) : Prop where
  /-- a token is kept, or it is the next one -/
  token : ∀ t, (s'.clients c).token = some t →
    (s.clients c).token = some t ∨ t = s.nextTransaction ∧ t < s'.nextTransaction
  keeps : ∀ t, (s.clients c).token = some t →
    (s'.clients c).token = some t ∨ s'.clients c = .gone
  gone : s.clients c = .gone → s'.clients c = .gone
  handle : ∀ t, (s.clients c).handle = some t → (s'.clients c).token = some t →
    (s'.clients c).handle = some t
  settling : ∀ t b reply, s'.clients c = .finishing t b reply → (s'.guards c).Settling
  unclaimed : ∀ t, (s'.clients c).handle = some t → (s'.guards c).state = .active →
    (s'.guards c).settlementObserved = false
  settled : ∀ t, (s'.clients c).handle = some t →
    (s'.clients c).answered = true ∨ (s'.guards c).state = .failed → s'.Settled t
  owner : ∀ t, s'.activeTransaction = some t → s.Owner c t →
    s'.Owner c t ∨ ∃ m ∈ pending, m.Releases t

variable {s' : State} {pending' : List OwnerMessage}

theorem Advance.of_same (h : Custody pending s) (hclient : s'.clients c = s.clients c)
    (hguard : s'.guards c = s.guards c)
    (hsettled : ∀ t, s.NotFresh t → s.Settled t → s'.Settled t) :
    Advance s s' pending' c where
  token := fun t ht => .inl (hclient ▸ ht)
  keeps := fun t ht => .inl (hclient ▸ ht)
  gone := fun hgone => hclient ▸ hgone
  handle := fun t ht _ => hclient ▸ ht
  settling := fun t b reply hc => by
    rw [hguard]
    exact h.settling c t b reply (hclient ▸ hc)
  unclaimed := fun t ht => by
    rw [hguard]
    exact h.unclaimed c t (hclient ▸ ht)
  settled := fun t ht hor => by
    rw [hclient] at ht hor
    rw [hguard] at hor
    exact hsettled t (h.notFresh ht) (h.settled c t ht hor)
  owner := fun t _ hown => .inl (by
    unfold State.Owner at *
    rwa [hclient, hguard])

/-- **One rule for all steps**: custody is kept if every client advances and the ownership is
accounted for. -/
theorem Custody.advance (h : Custody pending s) (hclients : ∀ c, Advance s s' pending' c)
    (hnext : s.nextTransaction ≤ s'.nextTransaction)
    (hstarted : ∀ c d, (s'.clients c).token = some s.nextTransaction →
      (s'.clients d).token = some s.nextTransaction →
        s.nextTransaction < s'.nextTransaction → c = d)
    (hstopped : s'.ownerAlive = false → s'.activeTransaction = none)
    (hactive : ∀ t, s'.activeTransaction = some t →
      s.activeTransaction = some t ∨ ∃ c, s'.Owner c t)
    (hsettled : ∀ t, s.NotFresh t → s.Settled t → s'.Settled t)
    (hkeep : ∀ m ∈ pending, ∀ t, m.Releases t → s'.activeTransaction = some t → m ∈ pending')
    (hpending : ∀ m ∈ pending', m ∈ pending ∨ s'.Placed m)
    (hblocks : s'.database.transactionOutcomeUnknown = false →
      ∀ t, s'.database.block = some (.transaction t) →
        s'.activeTransaction = some t ∧ s'.database.inTransaction = true)
    (hready : ∀ t, s'.activeTransaction = some t →
      s'.database.closed = false ∧ s'.database.backupModeExitUnconfirmed = false) :
    Custody pending' s' := by
  have hfresh : ∀ c t, (s'.clients c).token = some t → t < s'.nextTransaction := by
    intro c t ht
    rcases (hclients c).token t ht with hold | ⟨-, hlt⟩
    · exact Nat.lt_of_lt_of_le (h.fresh c t hold) hnext
    · exact hlt
  have hplace : ∀ c t, (s.clients c).token = some t ∨ s.clients c = .gone →
      (s'.clients c).token = some t ∨ s'.clients c = .gone := by
    rintro c t (htoken | hgone)
    · exact (hclients c).keeps t htoken
    · exact .inr ((hclients c).gone hgone)
  have hquiet : ∀ t, t < s.nextTransaction ∧ s.NotFresh t ∧ s.Settled t →
      t < s'.nextTransaction ∧ s'.NotFresh t ∧ s'.Settled t := by
    rintro t ⟨hlt, hnot, hset⟩
    refine ⟨Nat.lt_of_lt_of_le hlt hnext, fun c hc => ?_, hsettled t hnot hset⟩
    rcases (hclients c).token t hc with hold | ⟨rfl, -⟩
    · exact (hclients c).handle t (hnot c hold) hc
    · exact absurd hlt (Nat.lt_irrefl _)
  refine
    { stopped := hstopped
      fresh := hfresh
      unique := fun c d t hc hd => ?_
      placed := ?_
      owned := ?_
      settling := fun c => (hclients c).settling
      unclaimed := fun c => (hclients c).unclaimed
      settled := fun c => (hclients c).settled
      blocks := hblocks
      ready := hready }
  · rcases (hclients c).token t hc with hold | ⟨rfl, hlt⟩
    · rcases (hclients d).token t hd with hold' | ⟨rfl, hlt⟩
      · exact h.unique c d t hold hold'
      · exact hstarted c d hc hd hlt
    · exact hstarted c d hc hd hlt
  · intro m hm
    rcases hpending m hm with hold | hnew
    · have hplaced := h.placed m hold
      cases m with
      | begin token c => exact hplace c token hplaced
      | finish token c commit => exact hplace c token hplaced
      | finishAbandoned token c => exact hplace c token hplaced
      | rollbackBestEffort token c => exact hplace c token hplaced
      | finishObserved token => exact hquiet token hplaced
      | abandonFailed token reply => exact hquiet token hplaced
      | _ => trivial
    · exact hnew
  · intro t ht
    rcases hactive t ht with hold | hnew
    · rcases h.owned t hold with ⟨c, hc⟩ | ⟨m, hm, hrel⟩
      · rcases (hclients c).owner t ht hc with hown | hqueued
        · exact .inl ⟨c, hown⟩
        · exact .inr hqueued
      · exact .inr ⟨m, hkeep m hm t hrel ht, hrel⟩
    · exact .inl hnew

/-- Everything but the queue, the futures and the guards. -/
structure SameOwner (s s' : State) : Prop where
  next : s'.nextTransaction = s.nextTransaction
  alive : s'.ownerAlive = s.ownerAlive
  active : s'.activeTransaction = s.activeTransaction
  database : s'.database = s.database

theorem SameOwner.settled (h : SameOwner s s') : s'.Settled t ↔ s.Settled t := by
  unfold State.Settled
  rw [h.active, h.database]

/-- A future moves: the direct client and the ownership are left alone, and only the
future `c` and its guard change. -/
theorem Custody.move (h : Custody pending s) (howner : SameOwner s s')
    (hothers : ∀ d, d ≠ c → s'.clients d = s.clients d ∧ s'.guards d = s.guards d)
    (hself : Advance s s' pending' c) (hkeep : pending ⊆ pending')
    (hpending : ∀ m ∈ pending', m ∈ pending ∨ s'.Placed m) : Custody pending' s' := by
  have hsettled : ∀ t, s.NotFresh t → s.Settled t → s'.Settled t :=
    fun _ _ hset => howner.settled.mpr hset
  refine h.advance (fun d => ?_) (Nat.le_of_eq howner.next.symm)
    (fun _ _ _ _ hlt => ?_) ?_ ?_ hsettled
    (fun m hm _ _ _ => hkeep hm) hpending ?_ ?_
  · by_cases hdc : d = c
    · exact hdc ▸ hself
    · exact Advance.of_same h (hothers d hdc).1 (hothers d hdc).2 hsettled
  · exact absurd howner.next (Nat.ne_of_gt hlt)
  · rw [howner.alive, howner.active]
    exact h.stopped
  · intro t ht
    exact .inl (howner.active ▸ ht)
  · rw [howner.database, howner.active]
    exact h.blocks
  · rw [howner.database, howner.active]
    exact h.ready

end Oliphaunt.Wasix
