import Oliphaunt.Rust.WasixClients
import Oliphaunt.Rust.WasixDirect

/-!
# Oliphaunt — what the WASIX owner thread does to the custody of a transaction

The owner fills reply channels and moves guards (`Answers`), clears the ownership
(`Custody.released`) or leaves it (`Custody.kept`). Every message of the queue keeps
the custody invariant, whatever PostgreSQL answers, as long as a readable
`ReadyForQuery` tells the truth. While a message `m` is handled, custody is stated
for `m :: s.pending`; a message that does not clear the ownership can be left out at
once (`Custody.drop`).
-/

namespace Oliphaunt.Wasix

/-- What the owner does to a future: it fills reply channels and moves the state
of the guard, never back to active. -/
structure Answer (s s' : State) (c : Nat) : Prop where
  token : (s'.clients c).token = (s.clients c).token
  handle : (s'.clients c).handle = (s.clients c).handle
  gone : s.clients c = .gone → s'.clients c = .gone
  finishing : ∀ t b reply, s'.clients c = .finishing t b reply →
    ∃ reply', s.clients c = .finishing t b reply'
  started : (s'.guards c).settlementStarted = (s.guards c).settlementStarted
  observed : (s'.guards c).settlementObserved = (s.guards c).settlementObserved
  active : (s'.guards c).state = .active → (s.guards c).state = .active

variable {s s' : State} {c : Nat}

theorem Answer.of_same (hclient : s'.clients c = s.clients c)
    (hguard : s'.guards c = s.guards c) : Answer s s' c where
  token := by rw [hclient]
  handle := by rw [hclient]
  gone := fun h => hclient ▸ h
  finishing := fun t b reply h => ⟨reply, hclient ▸ h⟩
  started := by rw [hguard]
  observed := by rw [hguard]
  active := fun h => hguard ▸ h

variable {s'' : State} {g : TransactionOutcomeGuard} {v : Client} {d : Direct} {u op : Nat}
  {o : Outcome Error} {e : Engine}

theorem Answer.trans (h : Answer s s' c) (h' : Answer s' s'' c) : Answer s s'' c where
  token := h'.token.trans h.token
  handle := h'.handle.trans h.handle
  gone := fun hgone => h'.gone (h.gone hgone)
  finishing := fun t b reply hc => by
    obtain ⟨reply', hc'⟩ := h'.finishing t b reply hc
    exact h.finishing t b reply' hc'
  started := h'.started.trans h.started
  observed := h'.observed.trans h.observed
  active := fun hactive => h.active (h'.active hactive)

/-- The owner answers futures and takes nothing new into the queue. -/
structure Answers (s s' : State) : Prop where
  next : s'.nextTransaction = s.nextTransaction
  pending : s'.pending ⊆ s.pending
  client : ∀ c, Answer s s' c

theorem Answers.trans (h : Answers s s') (h' : Answers s' s'') : Answers s s'' :=
  ⟨h'.next.trans h.next, fun _ hm => h.pending (h'.pending hm),
    fun c => (h.client c).trans (h'.client c)⟩

theorem Answers.database (s : State) (d : Direct) (active : Option Nat) :
    Answers s { s with database := d, activeTransaction := active } :=
  ⟨rfl, fun _ hm => hm, fun _ => .of_same rfl rfl⟩

theorem Answers.setGuard (s : State) (c : Nat)
    (hstarted : g.settlementStarted = (s.guards c).settlementStarted)
    (hobserved : g.settlementObserved = (s.guards c).settlementObserved)
    (hactive : g.state ≠ .active) : Answers s (s.setGuard c g) := by
  refine ⟨rfl, fun _ hm => hm, fun d => ?_⟩
  by_cases hdc : d = c
  · subst hdc
    refine ⟨rfl, rfl, id, fun t b reply h => ⟨reply, h⟩, ?_, ?_, ?_⟩
    · rw [setGuard_self, hstarted]
    · rw [setGuard_self, hobserved]
    · rw [setGuard_self]
      exact fun hbad => absurd hbad hactive
  · exact .of_same rfl (setGuard_of_ne s hdc g)

theorem Answers.retainFailure (s : State) (c : Nat) (error : Error) (rollback : Bool) :
    Answers s (s.setGuard c ((s.guards c).retainFailure error rollback)) :=
  .setGuard s c (by simp) (by simp) (by simp)

/-- The reply channel of a future is filled or closed. -/
inductive Replied : Client → Client → Prop
  | beginning (t : Nat) (reply reply' : Slot (Except Error Unit)) :
    Replied (.beginning t reply) (.beginning t reply')
  | finishing (t : Nat) (b : Bool) (reply reply' : Slot TransactionFinishOutcome) :
    Replied (.finishing t b reply) (.finishing t b reply')
  | retiring (t : Nat) (reply reply' : Slot (Except Error Unit)) :
    Replied (.retiring t reply) (.retiring t reply')

theorem Answers.setClient (hc : s.clients c = v) (hv : Replied v v') :
    Answers s (s.setClient c v') := by
  refine ⟨rfl, fun _ hm => hm, fun d => ?_⟩
  by_cases hdc : d = c
  · subst hdc
    refine ⟨?_, ?_, fun hgone => ?_, fun t b reply hfinishing => ?_, rfl, rfl, id⟩
    · rw [setClient_self, hc]
      cases hv <;> rfl
    · rw [setClient_self, hc]
      cases hv <;> rfl
    · rw [hc.symm.trans hgone] at hv
      cases hv
    · rw [(setClient_self s d v').symm.trans hfinishing] at hv
      cases hv with
      | finishing _ _ reply' => exact ⟨reply', hc⟩
  · exact .of_same (setClient_of_ne s hdc v') rfl

theorem Answers.dropMessage (s : State) (m : OwnerMessage) : Answers s (s.dropMessage m) := by
  have hsame : Answers s s := .database s s.database s.activeTransaction
  unfold State.dropMessage
  split
  · split <;> try exact hsame
    rename_i hc
    exact .setClient hc (.beginning ..)
  · split <;> try exact hsame
    rename_i hc
    exact .setClient hc (.finishing ..)
  · split <;> try exact hsame
    rename_i hc
    exact .setClient hc (.retiring ..)
  · exact hsame

theorem Answers.dropMessages (queue : List OwnerMessage) (s : State) :
    Answers s (queue.foldl State.dropMessage s) := by
  induction queue generalizing s with
  | nil => exact .database s s.database s.activeTransaction
  | cons m rest ih => exact (dropMessage s m).trans (ih (s.dropMessage m))

variable {pending pending' : List OwnerMessage} {m : OwnerMessage}

theorem Answer.advance (h : Custody pending s) (ha : Answer s s' c)
    (hsettled : ∀ t, (s'.clients c).handle = some t →
      (s'.clients c).answered = true ∨ (s'.guards c).state = .failed → s'.Settled t)
    (howner : ∀ t, s'.activeTransaction = some t → s.Owner c t → s'.Owner c t) :
    Advance s s' pending' c where
  token := fun t ht => .inl (ha.token ▸ ht)
  keeps := fun t ht => .inl (ha.token ▸ ht)
  gone := ha.gone
  handle := fun t ht _ => ha.handle ▸ ht
  settling := fun t b reply hc => by
    obtain ⟨reply', hc'⟩ := ha.finishing t b reply hc
    obtain ⟨hstarted, hobserved, hactive⟩ := h.settling c t b reply' hc'
    exact ⟨ha.started.trans hstarted, ha.observed.trans hobserved,
      fun hbad => hactive (ha.active hbad)⟩
  unclaimed := fun t ht hactive => by
    rw [ha.observed]
    exact h.unclaimed c t (ha.handle ▸ ht) (ha.active hactive)
  settled := hsettled
  owner := fun t ht hown => .inl (howner t ht hown)

/-! ## What a message does to the ownership -/

/-- A message that does not clear the ownership needs no custody. -/
theorem Custody.drop (h : Custody (m :: pending) s)
    (hmessage : ∀ t, m.Releases t → s.activeTransaction ≠ some t) : Custody pending s where
  __ := h
  placed := fun m' hm' => h.placed m' (.tail m hm')
  owned := fun t ht => by
    rcases h.owned t ht with hown | ⟨m', hm', hrel⟩
    · exact .inl hown
    · rcases List.mem_cons.mp hm' with rfl | hrest
      · exact absurd ht (hmessage t hrel)
      · exact .inr ⟨m', hrest, hrel⟩

/-- Clearing the ownership is safe when no block of a transaction is open. -/
theorem Custody.released (h : Custody (m :: s.pending) s) (ha : Answers s s')
    (hactive : s'.activeTransaction = none)
    (hblocks : s'.database.transactionOutcomeUnknown = false →
      ∀ t, s'.database.block ≠ some (.transaction t)) : Inv s' := by
  have hnone : ∀ t, s'.activeTransaction ≠ some t := by simp [hactive]
  have hsettled : ∀ t, s'.Settled t := fun t ht => absurd ht (hnone t)
  exact h.advance
    (fun c => (ha.client c).advance h (fun t _ _ => hsettled t) (fun t ht => absurd ht (hnone t)))
    (Nat.le_of_eq ha.next.symm) (fun _ _ _ _ hlt => absurd ha.next (Nat.ne_of_gt hlt))
    (fun _ => hactive) (fun t ht => absurd ht (hnone t)) (fun t _ _ => hsettled t)
    (fun m _ t _ ht => absurd ht (hnone t))
    (fun m hm => .inl (.tail _ (ha.pending hm)))
    (fun hknown t ht => absurd ht (hblocks hknown t)) (fun t ht => absurd ht (hnone t))

/-- What the direct client may do while the ownership stays. -/
structure Direct.Keeps (s : State) (d : Direct) : Prop where
  step : s.database.Step d
  inTransaction : s.database.inTransaction = false → d.inTransaction = false
  blocks : d.transactionOutcomeUnknown = false → ∀ t, d.block = some (.transaction t) →
    s.activeTransaction = some t ∧ d.inTransaction = true

theorem Direct.Keeps.settled (hd : d.Keeps s) (hset : s.Settled t) :
    ({ s with database := d } : State).Settled t := fun ht =>
  (hset ht).imp hd.step.unknown hd.inTransaction

theorem Custody.keeps (h : Custody pending s) : s.database.Keeps s :=
  ⟨.refl _, id, h.blocks⟩

/-- The ownership stays; only the database and the future `c` change. -/
theorem Custody.kept (h : Inv s) (hd : d.Keeps s) (c : Nat)
    (ha : Answers s (({ s with database := d }.setGuard c g).setClient c v))
    (hsettled : ∀ t, v.handle = some t → v.answered = true ∨ g.state = .failed →
      ({ s with database := d } : State).Settled t)
    (howner : ∀ t, s.Owner c t → v.begun = some t ∨ v.handle = some t ∧ g.Releases) :
    Inv (({ s with database := d }.setGuard c g).setClient c v) := by
  refine h.advance (fun e => ?_) (Nat.le_refl _) (fun _ _ _ _ hlt => absurd hlt (Nat.lt_irrefl _))
    h.stopped (fun t ht => .inl ht)
    (fun t _ hset => hd.settled hset) (fun m hm _ _ _ => hm) (fun m hm => .inl hm) hd.blocks
    (fun t ht => ?_)
  · by_cases hec : e = c
    · subst hec
      refine (ha.client e).advance h ?_ ?_
      · rw [setClient_self, guards_setClient, setGuard_self]
        exact hsettled
      · intro t _ hown
        rw [State.Owner, setClient_self, guards_setClient, setGuard_self]
        exact howner t hown
    · refine Advance.of_same h (setClient_of_ne _ hec v) ?_ fun t _ hset => hd.settled hset
      exact setGuard_of_ne _ hec g
  · show d.closed = false ∧ d.backupModeExitUnconfirmed = false
    rw [hd.step.closed, hd.step.exit]
    exact h.ready t ht

theorem Custody.reply (h : Inv s) (hc : s.clients c = v) (hv : Replied v v')
    (hanswered : v'.answered = false) (hbegun : v.begun = none) : Inv (s.setClient c v') := by
  refine h.stands (((Answers.setClient hc hv).client c).advance h ?_ ?_)
  · intro t ht hor
    rw [((Answers.setClient hc hv).client c).handle] at ht
    rw [setClient_self, hanswered] at hor
    exact h.settled c t ht (.inr (hor.resolve_left Bool.false_ne_true))
  · rintro t - (hb | ⟨hhandle, hreleases⟩)
    · rw [hc, hbegun] at hb
      cases hb
    · exact .inr ⟨((Answers.setClient hc hv).client c).handle.trans hhandle, hreleases⟩

theorem Custody.no_block (h : Custody pending s) (hactive : s.activeTransaction = none)
    (hknown : s.database.transactionOutcomeUnknown = false) (t : Nat) :
    s.database.block ≠ some (.transaction t) := by
  intro hblock
  rw [(h.blocks hknown t hblock).1] at hactive
  cases hactive

/-- A settled transaction has no block left. -/
theorem Custody.no_block_of_settled (h : Custody pending s) (hactive : s.activeTransaction = some u)
    (hsettled : s.Settled u) (hknown : s.database.transactionOutcomeUnknown = false) (t : Nat) :
    s.database.block ≠ some (.transaction t) := by
  intro hblock
  have hin := (h.blocks hknown t hblock).2
  rcases hsettled hactive with hunknown | hout
  · cases hunknown.symm.trans hknown
  · cases hin.symm.trans hout

/-- `COMMIT` or `ROLLBACK` for the active transaction leaves no block of one. -/
theorem Custody.no_block_of_finished (h : Custody pending s)
    (hactive : s.activeTransaction = some u) (token : Nat) (commit : Bool) (ho : o.Honest) :
    (s.database.ownerFinishTransaction token commit o).1.transactionOutcomeUnknown = false →
    ∀ t, (s.database.ownerFinishTransaction token commit o).1.block ≠ some (.transaction t) := by
  intro hknown t ht
  obtain ⟨hstep, hin, -⟩ := s.database.ownerFinishTransaction_spec token commit ho
  obtain ⟨hblock, hsame⟩ :=
    Direct.ownerFinishTransaction_block token commit ho (h.ready u hactive) rfl hknown ht
  rw [hsame, (h.blocks (hstep.known hknown) t hblock).2] at hin
  cases hin

theorem inv_plain (h : Custody (m :: s.pending) s) (hactive : s.activeTransaction = none)
    (hplain : s.database.Plain d) : Inv { s with database := d } := by
  refine h.released (.database s d s.activeTransaction) hactive fun hknown t ht => ?_
  refine h.no_block hactive ?_ t (hplain.2 t ht)
  by_contra hne
  exact absurd ((hplain.1 (by simpa using hne)).symm.trans hknown) (by simp)

theorem inv_command (h : Custody (.command op work :: s.pending) s) (e : Engine) :
    Inv (handleMessage s e (.command op work)) := by
  unfold handleMessage
  dsimp only
  split
  · exact h.drop nofun
  · rename_i hactive
    have hactive : s.activeTransaction = none := by simpa using hactive
    cases work with
    | structured operation => exact inv_plain h hactive (Direct.runDatabaseRequest_plain ..)
    | raw => exact inv_plain h hactive (Direct.execProtocolRaw_plain ..)
    | other => exact inv_plain h hactive (Direct.other_plain ..)

/-- A statement ran or was refused; its guard keeps a failure that left the
session unknown. -/
theorem inv_observeStatement (h : Inv s) (hd : d.Keeps s) (client : Nat)
    (result : Except Error Unit) :
    Inv (State.observeStatement { s with database := d } client result) := by
  have hkept : ∀ g : TransactionOutcomeGuard, (g = s.guards client ∨
      d.transactionOutcomeUnknown = true ∧
        ∃ error, g = (s.guards client).retainFailure error false) →
      Inv ({ s with database := d }.setGuard client g) := by
    intro g hg
    have hanswers : Answers s ({ s with database := d }.setGuard client g) := by
      refine (Answers.database s d s.activeTransaction).trans ?_
      rcases hg with rfl | ⟨-, error, rfl⟩
      · exact ⟨rfl, fun _ hm => hm, fun c => .of_same rfl
          (congrArg (fun t : State => t.guards c)
            (setGuard_guards { s with database := d } client))⟩
      · exact .retainFailure _ client error false
    have hself := setClient_clients ({ s with database := d }.setGuard client g) client
    rw [← hself] at hanswers ⊢
    refine h.kept hd client hanswers ?_ ?_
    · intro t ht hor
      rcases hg with rfl | ⟨hunknown, -⟩
      · exact hd.settled (h.settled client t ht hor)
      · exact fun _ => .inl hunknown
    · rintro t (hb | ⟨hhandle, hreleases⟩)
      · exact .inl hb
      · refine .inr ⟨hhandle, ?_⟩
        rcases hg with rfl | ⟨-, error, rfl⟩
        · exact hreleases
        · exact .inr (.inr (by simp))
  have hsame : Inv { s with database := d } := by
    have hnothing := hkept (s.guards client) (.inl rfl)
    rwa [setGuard_guards { s with database := d } client] at hnothing
  unfold State.observeStatement
  split <;> try exact hsame
  split <;> try exact hsame
  rename_i error hunknown
  exact hkept _ (.inr ⟨hunknown, error, rfl⟩)

variable {token client : Nat}

/-- A statement of a transaction, of its owner or of one that has lost it. -/
theorem inv_statement (h : Custody (.statement token client op operation :: s.pending) s)
    (e : Engine) : Inv (handleMessage s e (.statement token client op operation)) := by
  have hs : Inv s := h.drop nofun
  unfold handleMessage
  dsimp only
  split
  · rename_i hactive
    obtain ⟨hstep, hin, hblock⟩ := s.database.runTransactionRequest_spec token operation e.first
    refine inv_observeStatement hs ⟨hstep, fun hout => hin.trans hout,
      fun hknown t ht => ?_⟩ client _
    rw [hin]
    rcases hblock t ht with hold | ⟨rfl, hrunning⟩
    · exact hs.blocks (hstep.known hknown) t hold
    · exact ⟨hactive, hrunning⟩
  · exact inv_observeStatement hs hs.keeps client _

/-- The reply of `Begin` reaches a future that still waits, or nobody. -/
theorem sendBegin_cases (s : State) (c : Nat) (value : Except Error Unit) :
    (∃ token, s.clients c = .beginning token .empty ∧
      s.sendBegin c value = (s.setClient c (.beginning token (.sent value)), true)) ∨
    s.sendBegin c value = (s, false) := by
  unfold State.sendBegin
  split
  · rename_i token hc
    exact .inl ⟨token, hc, rfl⟩
  · exact .inr rfl

/-- A granted transaction has its token, its block and its future. -/
theorem inv_began (h : Inv s) (halive : s.ownerAlive = true)
    (hready : d.closed = false ∧ d.backupModeExitUnconfirmed = false) (hin : d.inTransaction = true)
    (hblock : ∀ t, d.block = some (.transaction t) → t = token)
    (hclient : s.clients client = .beginning token .empty) :
    Inv (State.setClient { s with database := d, activeTransaction := some token } client
      (.beginning token (.sent (.ok ())))) := by
  have hanswer := (Answers.database s d (some token)).trans
    (.setClient (c := client) hclient (.beginning token _ (.sent (.ok ()))))
  -- the begun token is new to everybody who may clear it
  have hsettled : ∀ t, s.NotFresh t → (State.setClient
      { s with database := d, activeTransaction := some token } client
      (.beginning token (.sent (.ok ())))).Settled t := by
    intro t hnot ht
    cases ht
    have hbad := hnot client (by rw [hclient]; rfl)
    rw [hclient] at hbad
    cases hbad
  have hnobody : ∀ c, ¬ s.Owner c token := by
    intro c hown
    have htoken : (s.clients c).token = some token := by
      rcases hown with hbegun | ⟨hhandle, -⟩
      · exact Client.token_of_begun hbegun
      · exact Client.token_of_handle hhandle
    rw [h.unique c client token htoken (by rw [hclient]; rfl)] at hown
    rcases hown with hbad | ⟨hbad, -⟩ <;> rw [hclient] at hbad <;> cases hbad
  refine h.advance (fun c => (hanswer.client c).advance h ?_ ?_) (Nat.le_refl _)
    (fun _ _ _ _ hlt => absurd hlt (Nat.lt_irrefl _)) ?_ ?_
    (fun t hnot _ => hsettled t hnot) (fun m hm _ _ _ => hm) (fun m hm => .inl hm) ?_
    (fun _ _ => hready)
  · intro t ht _
    exact hsettled t (h.notFresh ((hanswer.client c).handle ▸ ht))
  · rintro t ht hown
    cases ht
    exact absurd hown (hnobody c)
  · intro hdead
    rw [show _ = true from halive] at hdead
    cases hdead
  · intro t ht
    cases ht
    exact .inr ⟨client, .inl (by rw [setClient_self]; rfl)⟩
  · intro _ t ht
    rw [hblock t ht]
    exact ⟨rfl, hin⟩

theorem inv_deliverBegin (h : Custody (.begin token client :: s.pending) s)
    (halive : s.ownerAlive = true) (hready : d.closed = false ∧ d.backupModeExitUnconfirmed = false)
    (hin : d.inTransaction = true) (hblock : ∀ t, d.block = some (.transaction t) → t = token)
    (ho : o.Honest) :
    Inv (deliverBegin { s with
      database := d, activeTransaction := some token } token client o) := by
  unfold deliverBegin
  rcases sendBegin_cases { s with database := d, activeTransaction := some token } client
    (.ok ()) with ⟨token', hc, heq⟩ | heq
  · rw [heq]
    have hplaced := h.placed _ (.head _)
    simp only [State.Placed, show s.clients client = .beginning token' .empty from hc] at hplaced
    obtain rfl : token' = token := by simpa [Client.token] using hplaced
    exact inv_began (h.drop (by rintro _ ⟨⟩)) halive hready hin hblock hc
  · rw [heq]
    obtain ⟨-, -, hdone⟩ := d.ownerFinishTransaction_spec token false ho
    refine h.released (.database s _ none) rfl fun hknown t ht => ?_
    exact absurd (ht.symm.trans (hdone hin hready.1 hready.2 hknown)) (by simp)

/-- `Begin`, with every answer of PostgreSQL and with the future gone. -/
theorem inv_begin (h : Custody (.begin token client :: s.pending) s) (halive : s.ownerAlive = true)
    (he : e.Honest) : Inv (handleMessage s e (.begin token client)) := by
  have hs : Inv s := h.drop nofun
  unfold handleMessage
  dsimp only
  split
  · rcases sendBegin_cases s client
      (.error (.transactionActive "a transaction is already active")) with ⟨token', hc, heq⟩ | heq
    · rw [heq]
      exact hs.reply hc (.beginning ..) rfl rfl
    · rw [heq]
      exact hs
  · rename_i hactive
    have hactive : s.activeTransaction = none := by simpa using hactive
    obtain ⟨hstep, herror, hok⟩ := s.database.ownerBeginTransaction_spec token he.1
    generalize s.database.ownerBeginTransaction token e.first = r at *
    cases hresult : r.2 with
    | error error =>
      have hblocks : r.1.transactionOutcomeUnknown = false →
          ∀ t, r.1.block ≠ some (.transaction t) := fun hknown t ht =>
        h.no_block hactive (hstep.known hknown) t (herror error hresult hknown t ht)
      have hfailed := Answers.database s r.1 s.activeTransaction
      dsimp only
      rcases sendBegin_cases { s with database := r.1 } client (.error error) with
        ⟨token', hc, heq⟩ | heq
      · rw [heq]
        exact h.released (hfailed.trans (.setClient hc (.beginning ..))) hactive hblocks
      · rw [heq]
        exact h.released hfailed hactive hblocks
    | ok value =>
      obtain ⟨hclosed, hexit, hin, hblock⟩ := hok hresult
      exact inv_deliverBegin h halive ⟨hstep.closed.trans hclosed, hstep.exit.trans hexit⟩ hin
        hblock he.2

/-- The ownership is given up with the session marked unknown. -/
theorem inv_abandonUnobservedFinish (h : Custody (m :: s.pending) s) (ha : Answers s s₁)
    (hactive : s₁.activeTransaction = some token) :
    Inv (abandonUnobservedFinish s₁ token client) := by
  unfold abandonUnobservedFinish
  rw [if_neg (by simp [hactive])]
  exact h.released (ha.trans ((Answers.retainFailure s₁ client _ false).trans (.database _ _ none)))
    rfl nofun

/-- What a `Finish` of the active transaction did before its reply: the transaction is
settled, and only the guard of its future has moved. -/
theorem finishOutcome_spec (h : Custody pending s) (hactive : s.activeTransaction = some token)
    (client : Nat) (commit : Bool) (he : e.Honest) :
    ∃ (d : Direct) (g : TransactionOutcomeGuard) (outcome : TransactionFinishOutcome),
      finishOutcome s token client commit e =
        (({ s with database := d } : State).setGuard client g, outcome) ∧
      d.Keeps s ∧ ({ s with database := d } : State).Settled token ∧ g.state ≠ .active ∧
      g.settlementStarted = (s.guards client).settlementStarted ∧
      g.settlementObserved = (s.guards client).settlementObserved := by
  unfold finishOutcome
  rw [if_neg (by simp [hactive])]
  split
  · rename_i hunknown
    obtain ⟨hstep, hflag, -, hin⟩ := s.database.ownerAbandonUnknownTransaction_spec
    have hflag := hflag.trans hunknown
    exact ⟨_, _, _, rfl, ⟨hstep, hin, fun hknown => absurd (hknown.symm.trans hflag) (by simp)⟩,
      fun _ => .inl hflag, by simp, by simp, by simp⟩
  · obtain ⟨hstep, hin, -⟩ := s.database.ownerFinishTransaction_spec token commit he.1
    have hkeeps : Direct.Keeps s (s.database.ownerFinishTransaction token commit e.first).1 :=
      ⟨hstep, fun _ => hin, fun hknown t ht =>
        absurd ht (h.no_block_of_finished hactive token commit he.1 hknown t)⟩
    dsimp only
    split
    · exact ⟨_, _, _, rfl, hkeeps, fun _ => .inr hin, by cases commit <;> simp, rfl, rfl⟩
    · exact ⟨_, _, _, rfl, hkeeps, fun _ => .inr hin, by simp, by simp, by simp⟩

theorem sendFinish_cases (s : State) (c : Nat) (value : TransactionFinishOutcome) :
    (∃ token settling, s.clients c = .finishing token settling .empty ∧
      s.sendFinish c value = (s.setClient c (.finishing token settling (.sent value)), true)) ∨
    s.sendFinish c value = (s, false) := by
  unfold State.sendFinish
  split
  · rename_i token settling hc
    exact .inl ⟨token, settling, hc, rfl⟩
  · exact .inr rfl

/-- The future of a `Finish` that found another transaction fails, with or without its
reply. -/
theorem inv_notAttempted (h : Inv s) (hother : s.activeTransaction ≠ some token)
    (ha : Answers s ((s.setGuard client g).setClient client v)) (hfailed : g.state = .failed)
    (htoken : ∀ t, v.handle = some t → t = token) (hbegun : v.begun = (s.clients client).begun) :
    Inv ((s.setGuard client g).setClient client v) := by
  refine h.kept h.keeps client ha ?_ ?_
  · intro t ht _ hactive
    rw [htoken t ht] at hactive
    exact absurd hactive hother
  · rintro t (hb | ⟨hhandle, -⟩)
    · exact .inl (hbegun.trans hb)
    · refine .inr ⟨?_, .inr (.inr hfailed)⟩
      rw [← hhandle, ← (ha.client client).handle, setClient_self]

/-- `COMMIT` or `ROLLBACK`, with every answer of PostgreSQL. -/
theorem inv_finish (h : Custody (.finish token client commit :: s.pending) s) (he : e.Honest) :
    Inv (handleMessage s e (.finish token client commit)) := by
  have hs : Inv s := h.drop nofun
  have hplaced := h.placed _ (.head _)
  unfold handleMessage
  dsimp only
  by_cases hactive : s.activeTransaction = some token
  · obtain ⟨d, g, outcome, heq, hkeeps, hsettled, hstate, hstarted, hobserved⟩ :=
      finishOutcome_spec h hactive client commit he
    have ha : Answers s ({ s with database := d }.setGuard client g) :=
      (Answers.database s d s.activeTransaction).trans
      (.setGuard _ client hstarted hobserved hstate)
    rw [heq]
    rcases sendFinish_cases
      (({ s with database := d } : State).setGuard client g) client outcome with
      ⟨token', settling, hc, hsent⟩ | hsent
    · rw [hsent]
      have hc : s.clients client = .finishing token' settling .empty := hc
      simp only [State.Placed, hc] at hplaced
      obtain rfl : token' = token := by simpa [Client.token] using hplaced
      have hsettling := hs.settling client token' settling .empty hc
      refine hs.kept hkeeps client (ha.trans (.setClient hc (.finishing ..))) ?_ ?_
      · intro t ht _
        obtain rfl : token' = t := Option.some.inj ht
        exact hsettled
      · rintro t (hb | ⟨hhandle, -⟩)
        · rw [hc] at hb
          cases hb
        · rw [hc] at hhandle
          refine .inr ⟨hhandle, .inl ⟨?_, ?_⟩⟩
          · exact hstarted.trans hsettling.1
          · exact hobserved.trans hsettling.2.1
    · rw [hsent]
      exact inv_abandonUnobservedFinish h ha hactive
  · -- the guard fails and the database is left alone
    let g := (s.guards client).retainFailure (.message "transaction is no longer active") false
    have heq : finishOutcome s token client commit e =
        (s.setGuard client g, .notAttempted (.message "transaction is no longer active")) := by
      unfold finishOutcome
      rw [if_pos hactive]
    have ha : Answers s (s.setGuard client g) := .retainFailure s client _ false
    rw [heq]
    rcases sendFinish_cases (s.setGuard client g) client
        (.notAttempted (.message "transaction is no longer active")) with
      ⟨token', settling, hc, hsent⟩ | hsent
    · rw [hsent]
      have hc : s.clients client = .finishing token' settling .empty := hc
      simp only [State.Placed, hc] at hplaced
      refine inv_notAttempted hs hactive (ha.trans (.setClient hc (.finishing ..)))
        (retainFailure_state ..) (fun t ht => ?_) (by rw [hc]; rfl)
      obtain rfl : token' = t := Option.some.inj ht
      simpa [Client.token] using hplaced
    · rw [hsent]
      have hself := setClient_clients (s.setGuard client g) client
      show Inv (abandonUnobservedFinish (s.setGuard client g) token client)
      unfold abandonUnobservedFinish
      rw [if_pos (show (s.setGuard client g).activeTransaction ≠ _ from hactive), ← hself]
      rw [← hself] at ha
      refine inv_notAttempted hs hactive ha (retainFailure_state ..) (fun t ht => ?_) rfl
      rcases hplaced with htoken | hgone
      · exact Option.some.inj ((Client.token_of_handle ht).symm.trans htoken)
      · rw [clients_setGuard, hgone] at ht
        cases ht

theorem inv_finishObserved (h : Custody (.finishObserved token :: s.pending) s) (e : Engine) :
    Inv (handleMessage s e (.finishObserved token)) := by
  obtain ⟨-, -, hsettled⟩ := h.placed _ (.head _)
  unfold handleMessage
  dsimp only
  split
  · rename_i hactive
    exact h.released (.database s s.database none) rfl (h.no_block_of_settled hactive hsettled)
  · rename_i hactive
    exact h.drop fun t ht => by
      cases ht
      exact hactive

theorem inv_finishAbandoned (h : Custody (m :: s.pending) s)
    (hmessage : ∀ t, m.Releases t → t = token) :
    Inv (abandonUnobservedFinish s token client) := by
  by_cases hactive : s.activeTransaction = some token
  · exact inv_abandonUnobservedFinish h (.database s s.database s.activeTransaction) hactive
  · unfold abandonUnobservedFinish
    rw [if_pos hactive]
    exact h.drop fun t ht => hmessage t ht ▸ hactive

/-- The rollback that a dropped transaction queued. -/
theorem inv_rollbackBestEffort (h : Custody (.rollbackBestEffort token client :: s.pending) s)
    (he : e.Honest) : Inv (handleMessage s e (.rollbackBestEffort token client)) := by
  unfold handleMessage
  dsimp only
  split
  · rename_i hactive
    exact h.drop fun t ht => by
      cases ht
      exact hactive
  · rename_i hactive
    have hactive : s.activeTransaction = some token := by simpa using hactive
    split
    · rename_i hunknown
      refine h.released ((Answers.retainFailure s client _ false).trans (.database _ _ none)) rfl
        fun hknown => ?_
      have hflag := s.database.ownerAbandonUnknownTransaction_spec.2.1
      exact absurd (hknown.symm.trans (hflag.trans hunknown)) (by simp)
    · have hblocks := h.no_block_of_finished hactive token false he.1
      split
      · exact h.released ((Answers.setGuard s client
          (g := { s.guards client with state := .rolledBack }) rfl rfl (by simp)).trans
          (.database _ _ none)) rfl hblocks
      · exact h.released ((Answers.retainFailure s client _ true).trans (.database _ _ none)) rfl
          hblocks

theorem sendRetired_cases (s : State) (c : Nat) (value : Except Error Unit) :
    (∃ token, s.clients c = .retiring token .empty ∧
      s.sendRetired c value = s.setClient c (.retiring token (.sent value))) ∨
    s.sendRetired c value = s := by
  unfold State.sendRetired
  split
  · rename_i token hc
    exact .inl ⟨token, hc, rfl⟩
  · exact .inr rfl

theorem inv_abandonFailed (h : Custody (.abandonFailed token reply :: s.pending) s) (e : Engine) :
    Inv (handleMessage s e (.abandonFailed token reply)) := by
  obtain ⟨-, -, hsettled⟩ := h.placed _ (.head _)
  unfold handleMessage
  by_cases hactive : s.activeTransaction = some token
  · simp only [hactive, if_true]
    obtain ⟨-, hflag, hblock, -⟩ := s.database.ownerAbandonUnknownTransaction_spec
    have hblocks := h.no_block_of_settled hactive hsettled
    rw [← hflag, ← hblock] at hblocks
    have hleft := Answers.database s s.database.ownerAbandonUnknownTransaction.1 none
    cases reply with
    | none => exact h.released hleft rfl hblocks
    | some client =>
      dsimp only
      rcases sendRetired_cases { s with
          database := s.database.ownerAbandonUnknownTransaction.1, activeTransaction := none }
          client s.database.ownerAbandonUnknownTransaction.2 with ⟨token', hc, heq⟩ | heq
      · rw [heq]
        exact h.released (hleft.trans (.setClient hc (.retiring ..))) rfl hblocks
      · rw [heq]
        exact h.released hleft rfl hblocks
  · simp only [hactive, if_false]
    have hs : Inv s := h.drop fun t ht => by
      cases ht
      exact hactive
    cases reply with
    | none => exact hs
    | some client =>
      dsimp only
      rcases sendRetired_cases s client (.error (.message "transaction is no longer active")) with
        ⟨token', hc, heq⟩ | heq
      · rw [heq]
        exact hs.reply hc (.retiring ..) rfl rfl
      · rw [heq]
        exact hs

/-! ## The end of the owner -/

theorem dropMessages_current (queue : List OwnerMessage) (s : State) :
    (queue.foldl State.dropMessage s).current = s.current := by
  induction queue generalizing s with
  | nil => rfl
  | cons m rest ih =>
    have hone : (s.dropMessage m).current = s.current := by
      unfold State.dropMessage
      split
      · split <;> rfl
      · split <;> rfl
      · split <;> rfl
      · rfl
    exact (ih (s.dropMessage m)).trans hone

/-- The owner stops with no block of a transaction on a known session. -/
theorem inv_stop (h : Custody (m :: s.pending) s) (hidle : s.current = none) (state : OwnerState)
    (hblocks : d.transactionOutcomeUnknown = false → ∀ t, d.block ≠ some (.transaction t)) :
    Inv (s.stop d state) := by
  have hdropped := Answers.dropMessages s.queue s
  refine h.released ⟨hdropped.next, fun m' hm' => ?_, fun c =>
    (hdropped.client c).trans (.of_same rfl rfl)⟩ rfl hblocks
  have hempty : (s.stop d state).pending = [] := by
    show (s.queue.foldl State.dropMessage s).current.toList ++ [] = []
    rw [dropMessages_current, hidle]
    rfl
  rw [hempty] at hm'
  cases hm'

/-- Closing changes neither the block nor what is known. -/
theorem Direct.no_block_close (teardown : Except Error Unit)
    (hblocks : d.transactionOutcomeUnknown = false → ∀ t, d.block ≠ some (.transaction t)) :
    (d.close teardown).1.transactionOutcomeUnknown = false →
      ∀ t, (d.close teardown).1.block ≠ some (.transaction t) := by
  obtain ⟨hunknown, hblock⟩ := d.close_plain teardown
  intro hknown t ht
  refine hblocks ?_ t (hblock t ht)
  by_contra hne
  rw [hunknown (by simpa using hne)] at hknown
  cases hknown

/-- A close is refused while a transaction is active, and otherwise ends the owner. -/
theorem inv_close (h : Custody (.close :: s.pending) s) (hidle : s.current = none)
    (e : Engine) : Inv (handleMessage s e .close) := by
  unfold handleMessage
  dsimp only
  split
  · have hs : Inv s := h.drop nofun
    exact { hs with }
  · rename_i hactive
    exact inv_stop h hidle _ (Direct.no_block_close _ (h.no_block (by simpa using hactive)))

/-- A shutdown rolls back first. -/
theorem inv_shutdown (h : Custody (.shutdown :: s.pending) s) (hidle : s.current = none)
    (he : e.Honest) : Inv (handleMessage s e .shutdown) := by
  refine inv_stop h hidle _ (Direct.no_block_close _ ?_)
  cases hactive : s.activeTransaction with
  | none => exact h.no_block hactive
  | some token => exact h.no_block_of_finished hactive token false he.1

end Oliphaunt.Wasix
