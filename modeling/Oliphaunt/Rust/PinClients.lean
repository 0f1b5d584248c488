import Oliphaunt.Rust.PinCustody

/-!
# Oliphaunt — what clients do to the custody of a pin

Every client step of `Oliphaunt.Rust.step` keeps the custody invariant: a future
that goes on keeps its token, a future that settles or is dropped queues the
release before it is gone. The one exception is a drop of a future whose `Begin`
reply was delivered and not polled (`DropsUnpolledBegin`): nothing is left that
knows the token.
-/

namespace Oliphaunt.Rust

open Custody

variable {s : State}

theorem closed_of_not_admitsControl (h : Held s.custody)
    (hadmits : ¬ s.admitsControl = true) : s.closed = true := by
  by_cases hclosed : s.closed = true
  · exact hclosed
  · have hteardown : s.teardownStarted = true := by
      simpa [State.admitsControl, hclosed] using hadmits
    exact h.teardown hteardown

theorem not_closed_of_admitsControl (hadmits : s.admitsControl = true) :
    s.closed = false := by
  simp only [State.admitsControl, Bool.not_eq_true', Bool.or_eq_false_iff] at hadmits
  exact hadmits.1

@[simp] theorem poison_guards (s : State) : s.poison.guards = s.guards := rfl

variable {k : Custody}

/-- Once the owner has stopped, a token may be given up silently. -/
theorem Held.gone_of_closed (h : Held k) (hclosed : k.closed = true) (c : Nat) :
    Held (k.setClient c .gone) := by
  refine h.setClient (fun t ht => ?_) (fun t ht => ?_) (fun t _ => .inr ?_)
  · cases ht
  · cases ht.1
  · rw [(h.stopped hclosed).1]
    exact nofun

variable {c t : Nat} {g : GuardState} {p : Bool}

/-- `SessionPin::release` starts in a state that differs from an invariant one
only by the guard of the future and by poison. -/
theorem inv_startRelease (hk : Inv k) (hs : s.custody = k.mark c g p)
    (hown : (k.clients c).Owns t)
    (hclean : p = false → k.poisoned = false ∧ g ≠ .active ∧ k.block ≠ some (.pin t) ∧
      ∀ u control, Command.pinnedExec u c control ∉ k.pending) :
    Inv (s.startRelease c t).custody := by
  have hheld : Held s.custody := by
    rw [hs]
    exact hk.held.frame _ _ _
  have hclients : s.custody.clients = k.clients := by rw [hs]; rfl
  unfold State.startRelease
  by_cases hadmits : s.admitsControl = true
  · rw [if_pos hadmits, custody_setClient, custody_push]
    have hopen : s.custody.closed = false := not_closed_of_admitsControl hadmits
    constructor
    · exact hheld.handOver hopen (by rw [hclients]; exact hown) (.inr rfl)
        (fun u => ⟨Eq.symm, Eq.symm⟩)
    · intro hp
      rw [hs] at hp ⊢
      obtain ⟨hpoisoned, hg, hblock, hcontrol⟩ := hclean hp
      have hlocal : Clean ((k.setGuard c g).setClient c (.release t none)) :=
        (hk.clean hpoisoned).setLocal ⟨hg, hblock⟩
          (fun u control hmem => absurd hmem (hcontrol u control))
          (fun u hu => by
            rcases hu with hu | hu
            · exact .inl (hown.unique_token hu ▸ rfl)
            · exact .inr (by rw [hu] at hown; cases hown.1))
      have hpushed : Clean (((k.setGuard c g).setClient c (.release t none)).push
          (.releasePin t (some c))) :=
        hlocal.push hblock nofun
      exact hpushed.frame p k.nextPin k.teardownStarted k.closed
  · rw [if_neg hadmits]
    have hclosed := closed_of_not_admitsControl hheld hadmits
    simp only [State.finishRelease, custody_setClient, custody_setGuardState, custody_poison]
    constructor
    · exact (hheld.poison.setGuard c .released).gone_of_closed hclosed c
    · intro hp
      cases hp

/-- The settlement of a rollback releases the pin, or poisons the executor. -/
theorem inv_finishExplicitRollback (hk : Inv k) (hs : s.custody = k.mark c g p)
    (hown : (k.clients c).Owns t)
    (hclean : p = false → g ≠ .finishing → k.poisoned = false ∧ g ≠ .active ∧
      k.block ≠ some (.pin t) ∧ ∀ u control, Command.pinnedExec u c control ∉ k.pending) :
    Inv (s.finishExplicitRollback c t).custody := by
  have hguard : (s.guards c).state = g := by
    have := congrArg (fun k => k.guards c) hs
    simpa [State.custody, mark] using this
  by_cases hfinishing : (s.guards c).state = .finishing
  · refine inv_startRelease (g := g) (p := true) hk ?_ hown (by simp)
    simp only [hfinishing, if_true, custody_setGuard, custody_poison, poison_guards]
    rw [hs, ← hguard, hfinishing]
    simp [poison, setGuard, mark]
  · refine inv_startRelease (g := g) (p := p) hk ?_ hown
      (fun hp => hclean hp (by rw [← hguard]; exact hfinishing))
    simp only [hfinishing, if_false, custody_setGuard]
    rw [hs, hguard]
    simp [setGuard, mark]

/-- A future that holds its pin and can be dropped by `Drop for
AsyncTransaction`. -/
def Client.InTransaction (c : Client) (t : Nat) : Prop :=
  c = .body t ∨ (∃ b, c = .settle t b) ∨ (∃ b r, c = .rollback t b r) ∨ ∃ r, c = .commit t r

theorem Client.InTransaction.owns {c : Client} (h : c.InTransaction t) :
    c.Owns t := by
  rcases h with rfl | ⟨b, rfl⟩ | ⟨b, r, rfl⟩ | ⟨r, rfl⟩ <;> exact ⟨rfl, by simp⟩

/-- A guard that is neither active nor finishing was rolled back for good. -/
theorem LocalOk.inTransaction {block : Option BlockOwner} {c : Client} (h : LocalOk block c g)
    (hc : c.InTransaction t) :
    g = .active ∨ g = .finishing ∨ (g = .rolledBack ∧ block ≠ some (.pin t)) := by
  rcases hc with rfl | ⟨b, rfl⟩ | ⟨b, r, rfl⟩ | ⟨r, rfl⟩
  · exact h
  · exact .inl h
  · cases r with
    | none => exact .inr (.inl h)
    | some reply => exact .inr (.inl h.1)
  · cases r with
    | none => exact .inr (.inl h)
    | some reply => exact .inr (.inl h.1)

variable {c : Nat}

theorem Clean.leave (h : Clean k) (hidle : k.guards c ≠ .finishing ∨ ∀ t, ¬ (k.clients c).Owns t) :
    Clean ((k.setGuard c .released).setClient c .gone) :=
  h.setLocal (by simp [LocalOk]) (fun t control hmem => absurd hmem (h.no_control hidle t control))
    (fun _ _ => .inr rfl)

@[simp] theorem sendCleanup_poisoned (s : State) (cmd : Command) :
    (s.sendCleanup cmd).custody.poisoned = s.custody.poisoned := by
  unfold State.sendCleanup
  split <;> rfl

variable {cmd : Command}

/-- The best-effort control of a drop: queued, or too late to matter. -/
theorem held_sendCleanup (hs : Held s.custody) (hown : (s.clients c).Owns t)
    (hcmd : ∀ u, cmd.Releases u ↔ u = t) :
    Held ((s.setClient c .gone).sendCleanup cmd).custody := by
  unfold State.sendCleanup
  split
  · rename_i hadmits
    rw [custody_push]
    exact hs.handOver (not_closed_of_admitsControl (s := s) hadmits) hown (.inl rfl) hcmd
  · rename_i hadmits
    exact hs.gone_of_closed (closed_of_not_admitsControl hs hadmits) c

theorem clean_sendCleanup (hs : Clean s.custody) (hcmd : PendingOk s.custody cmd)
    (hcontrol : cmd.controlToken = none) : Clean (s.sendCleanup cmd).custody := by
  unfold State.sendCleanup
  split <;> try exact hs
  rw [custody_push]
  exact hs.push hcmd (fun t ht => by rw [hcontrol] at ht; cases ht)

/-- `Drop for AsyncTransaction` at every await point of a future that holds its
pin. -/
theorem inv_dropTransaction (hs : Inv s.custody)
    (hclient : (s.clients c).InTransaction t) : Inv (s.dropTransaction c t).custody := by
  have hswapped : Held (s.setGuardState c .released).custody := by
    rw [custody_setGuardState]
    exact hs.held.setGuard c _
  unfold State.dropTransaction
  split
  · rename_i hactive
    refine ⟨held_sendCleanup hswapped hclient.owns (fun u => ⟨Eq.symm, Eq.symm⟩), fun hp => ?_⟩
    rw [sendCleanup_poisoned] at hp
    refine clean_sendCleanup ?_ trivial rfl
    rw [custody_setClient, custody_setGuardState]
    refine (hs.clean hp).leave (.inl ?_)
    rw [show s.custody.guards c = .active from hactive]
    exact nofun
  · refine ⟨held_sendCleanup (s := (s.setGuardState c .released).poison) hswapped.poison
      hclient.owns (fun u => ⟨Eq.symm, Eq.symm⟩), fun hp => ?_⟩
    rw [sendCleanup_poisoned] at hp
    cases hp
  · rename_i hactive hfinishing
    refine ⟨held_sendCleanup hswapped hclient.owns (fun u => ⟨Eq.symm, Eq.symm⟩), fun hp => ?_⟩
    rw [sendCleanup_poisoned] at hp
    have hclean := hs.clean hp
    -- only a proven ROLLBACK is released without poison
    obtain hg | hg | ⟨-, hblock⟩ := (hclean.locals c).inTransaction hclient
    · exact absurd hg hactive
    · exact absurd hg hfinishing
    · refine clean_sendCleanup ?_ hblock rfl
      rw [custody_setClient, custody_setGuardState]
      exact hclean.leave (.inl hfinishing)

/-- What `rollback()` makes of its reply: a proven `ROLLBACK`, or poison. -/
theorem observeRollback_custody (s : State) (c : Nat) (reply : Except Error Response) :
    ∃ g p, (s.observeRollback c reply).custody = s.custody.mark c g p ∧
      (p = false → s.custody.poisoned = false ∧ g = .rolledBack ∧
        ∃ r, reply = .ok r ∧ r.ready = .ok .idle) := by
  have hfailed : ∀ error, ∃ g p,
      (s.poison.setGuard c ((s.guards c).failRollback error)).custody = s.custody.mark c g p ∧
        (p = false → s.custody.poisoned = false ∧ g = .rolledBack ∧
          ∃ r, reply = .ok r ∧ r.ready = .ok .idle) := by
    intro error
    refine ⟨.failed, true, ?_, nofun⟩
    have hstate : ((s.guards c).failRollback error).state = .failed := by
      unfold TransactionGuard.failRollback TransactionGuard.failWithKind
      split <;> rfl
    rw [custody_setGuard, hstate]
    rfl
  unfold State.observeRollback
  split
  · exact hfailed _
  · rename_i response
    split
    · exact hfailed _
    · rename_i result hparse
      split
      · exact hfailed _
      · split
        · exact hfailed _
        · rename_i htag hstatus
          refine ⟨.rolledBack, s.transactionPoisoned, by rw [custody_setGuardState]; rfl,
            fun hp => ⟨hp, rfl, response, rfl, ?_⟩⟩
          rw [Response.parseCommand_ready hparse, not_not.mp hstatus]

variable {t : Nat}

/-- The claim of an active guard has no control in flight. -/
theorem Clean.claim_once (hheld : Held k) (h : Clean k) (hactive : k.guards c = .active)
    (htoken : (k.clients c).token = some t) (d : Nat) (control : Control) :
    Command.pinnedExec t d control ∉ k.pending := by
  intro hmem
  obtain ⟨hguard, howns⟩ := h.control_token hmem
  rw [hheld.unique d c t howns.1 htoken, hactive] at hguard
  cases hguard

variable {v : Client}

theorem Held.move (h : Held k) (hown : (k.clients c).Owns t) (hv : v.InTransaction t) :
    Held (k.setClient c v) := by
  refine h.setClient (fun u hu => ?_) (fun u hu => ?_) (fun u hu => .inl ?_)
  · rw [hv.owns.unique_token hu]
    exact hown.1
  · rw [hv.owns.unique_token hu.1]
    exact hown
  · rw [hown.unique_token hu.1]
    exact hv.owns

theorem statement_move {w : Client} (hown : v.Owns t) (hw : w.token = some t)
    (h : v.token = some u ∨ v = .gone) : w.token = some u ∨ w = .gone := by
  rcases h with h | h
  · rw [hown.unique_token h]
    exact .inl hw
  · rw [h] at hown
    cases hown.1

/-- A terminal command is queued once, under the guard `finishing`. -/
theorem inv_claim {control : Control} (hs : Inv s.custody) (hown : (s.clients c).Owns t)
    (hactive : (s.guards c).state = .active) (hadmits : s.admitsControl = true)
    (hv : (∃ settling, v = .rollback t settling none) ∨ v = .commit t none) :
    Inv (((s.setGuardState c .finishing).push
      (.pinnedExec t c control)).setClient c v).custody := by
  have htransaction : v.InTransaction t := by
    rcases hv with ⟨settling, rfl⟩ | rfl
    · exact .inr (.inr (.inl ⟨_, _, rfl⟩))
    · exact .inr (.inr (.inr ⟨_, rfl⟩))
  rw [custody_setClient, custody_push, custody_setGuardState]
  constructor
  · have hpushed : Held ((s.custody.setGuard c .finishing).push (.pinnedExec t c control)) :=
      (hs.held.setGuard c .finishing).push (not_closed_of_admitsControl hadmits)
        (fun u hu => hu.elim) nofun
    exact hpushed.move hown htransaction
  · intro hp
    have hclean := hs.clean hp
    have hnone := hclean.claim_once hs.held hactive hown.1
    have hlocal : Clean ((s.custody.setGuard c .finishing).setClient c v) := by
      refine hclean.setLocal ?_ (fun u other hmem => ?_)
        (fun u hu => statement_move hown htransaction.owns.1 hu)
      · rcases hv with ⟨settling, rfl⟩ | rfl <;> rfl
      · refine absurd hmem (hclean.no_control (.inl ?_) u other)
        rw [show s.custody.guards c = .active from hactive]
        exact nofun
    refine hlocal.push (m := .pinnedExec t c control) ⟨?_, ?_⟩ ?_
    · simp [setClient, setGuard]
    · rcases hv with ⟨settling, rfl⟩ | rfl <;> simp [setClient]
    · intro u hu d other hmem
      cases hu
      exact hnone d other hmem

/-- After `rollback()` returned in a state that differs from an invariant one
only by the guard of the future and by poison. -/
theorem inv_afterRollback (hk : Inv k) (hs : s.custody = k.mark c g p) (hown : (k.clients c).Owns t)
    (hclean : p = false → k.poisoned = false ∧ g = .rolledBack ∧ k.block ≠ some (.pin t) ∧
      ∀ u control, Command.pinnedExec u c control ∉ k.pending) (settling : Bool) :
    Inv (s.afterRollback c t settling).custody := by
  unfold State.afterRollback
  split
  · refine inv_finishExplicitRollback hk hs hown (fun hp _ => ?_)
    obtain ⟨hpoisoned, hrolled, hblock, hcontrol⟩ := hclean hp
    exact ⟨hpoisoned, (by rw [hrolled]; exact nofun), hblock, hcontrol⟩
  · rw [custody_setClient, hs]
    constructor
    · exact (hk.held.frame _ _ _).move hown (.inl rfl)
    · intro hp
      obtain ⟨hpoisoned, hrolled, hblock, hcontrol⟩ := hclean hp
      have hlocal : Clean ((k.setGuard c g).setClient c (.body t)) :=
        (hk.clean hpoisoned).setLocal (.inr (.inr ⟨hrolled, hblock⟩))
          (fun u control hmem => absurd hmem (hcontrol u control))
          (fun u hu => statement_move hown rfl hu)
      exact hlocal.frame p k.nextPin k.teardownStarted k.closed

/-- Starting a rollback claims the guard and queues `ROLLBACK`, or finds the executor stopped. -/
theorem inv_startRollback (hs : Inv s.custody)
    (hown : (s.clients c).Owns t) (hactive : (s.guards c).state = .active) (settling : Bool) :
    Inv (s.startRollback c t settling).custody := by
  unfold State.startRollback
  split
  · rename_i hadmits
    exact inv_claim hs hown hactive hadmits (.inl ⟨settling, rfl⟩)
  · obtain ⟨g, p, hcustody, hproven⟩ :=
      observeRollback_custody (s.setGuardState c .finishing) c (.error .engineStopped)
    refine inv_afterRollback (g := g) (p := p) hs ?_ hown ?_ settling
    · rw [hcustody, custody_setGuardState]
      simp [mark, setGuard]
    · intro hp
      obtain ⟨-, -, r, hr, -⟩ := hproven hp
      cases hr

variable {reply : Except Error Response}

/-- `commit` goes on to the release; without poison the pin has no block. -/
theorem inv_observeCommit (hk : Inv k)
    (hs : s.custody = k.mark c g k.poisoned) (hown : (k.clients c).Owns t)
    (hclean : ∀ r, reply = .ok r → r.ready = .ok .idle → k.poisoned = false →
      k.block ≠ some (.pin t) ∧ ∀ u control, Command.pinnedExec u c control ∉ k.pending) :
    Inv (s.observeCommit c t reply).custody := by
  have hunknown : Inv ((s.poison.setGuardState c .released).startRelease c t).custody := by
    refine inv_startRelease (g := .released) (p := true) hk ?_ hown (by simp)
    rw [custody_setGuardState, custody_poison, hs]
    simp [setGuard, mark, poison]
  unfold State.observeCommit
  cases reply with
  | error error => simpa using hunknown
  | ok response =>
    by_cases hknown : response.Completes "COMMIT" .idle ∨ response.Completes "ROLLBACK" .idle
    · have hidle : response.ready = .ok .idle := by
        rcases hknown with hcommit | hrollback
        · exact hcommit.ready
        · exact hrollback.ready
      simp only [← Bool.decide_or, hknown, decide_true, if_true]
      refine inv_startRelease (g := .released) (p := k.poisoned) hk ?_ hown (fun hp => ?_)
      · rw [custody_setGuardState, hs]
        simp [setGuard, mark]
      · obtain ⟨hblock, hcontrol⟩ := hclean response rfl hidle hp
        exact ⟨hp, by simp, hblock, hcontrol⟩
    · simpa [← Bool.decide_or, hknown] using hunknown

/-- Starting a commit does too. -/
theorem inv_startCommit (hs : Inv s.custody)
    (hown : (s.clients c).Owns t) (hactive : (s.guards c).state = .active) :
    Inv (s.startCommit c t).custody := by
  unfold State.startCommit
  split
  · rename_i hadmits
    exact inv_claim hs hown hactive hadmits (.inr rfl)
  · refine inv_observeCommit (g := .finishing) hs ?_ hown nofun
    rw [custody_setGuardState]
    rfl

/-- The drop of a future whose `Begin` reply holds a token it has not polled. -/
def DropsUnpolledBegin (s : State) : Action → Prop
  | .drop c => ∃ token, s.clients c = .beginning (some (.ok token))
  | _ => False

/-- A command that concerns no pin may be queued any time. -/
theorem Inv.push_neutral (h : Inv s.custody) (cmd : Command) (hopen : s.closed = false)
    (hrelease : ∀ t, ¬ cmd.Releases t) (hcontrol : cmd.controlToken = none)
    (hok : PendingOk s.custody cmd)
    (hwrapped : ∀ inner request, cmd = .cancellable inner request → inner.IsPlain) :
    Inv (s.push cmd).custody where
  held := custody_push s cmd ▸ h.held.push hopen (fun t ht => absurd ht (hrelease t)) hwrapped
  clean := fun hp => custody_push s cmd ▸ (h.clean hp).push hok
    (fun t ht => by rw [hcontrol] at ht; cases ht)

theorem Inv.move_untokened (h : Inv k) (hclient : k.clients c = w) (hold : w.token = none)
    (hne : w ≠ .gone) (hv : v.token = none)
    (hlocal : ∀ block g, LocalOk block w g → LocalOk block v g) : Inv (k.setClient c v) where
  held := by
    subst hclient
    refine h.held.setClient (fun t ht => ?_) (fun t ht => ?_) (fun t ht => ?_)
    · cases hv.symm.trans ht
    · exact absurd ht (Client.not_owns_of_untokened hv t)
    · exact absurd ht (Client.not_owns_of_untokened hold t)
  clean := by
    intro hp
    subst hclient
    have hclean := h.clean hp
    have hnone : ∀ t, ¬ (k.clients c).Owns t := Client.not_owns_of_untokened hold
    refine hclean.setClient (hlocal _ _ (hclean.locals c))
      (fun t control hmem => absurd hmem (hclean.no_control (.inr hnone) t control)) ?_
    rintro t (ht | ht)
    · cases hold.symm.trans ht
    · exact absurd ht hne

theorem not_closed_of_sendRefusal (h : ¬ s.sendRefusal.isSome = true) :
    s.closed = false := by
  by_contra hclosed
  rw [Bool.not_eq_false] at hclosed
  simp [State.sendRefusal, hclosed] at h

section

variable (hs : Inv s.custody)

include hs

variable {t : State}

/-- Ordinary work enters the queue. -/
theorem inv_submitWork (hstep : submitWork s work cancellation = some t) : Inv t.custody := by
  unfold submitWork at hstep
  split at hstep <;> cases hstep
  · rename_i hadmitted
    have hopen := not_closed_of_sendRefusal (not_or.mp hadmitted).1
    have hplain : (work.command s.nextOp).IsPlain := by cases work <;> trivial
    cases cancellation with
    | none =>
      refine hs.push_neutral _ hopen ?_ ?_ ?_ ?_ <;>
        cases work <;> simp [Work.command, Command.Releases, Command.controlToken, PendingOk]
    | some request =>
      exact hs.push_neutral _ hopen (fun t ht => ht) rfl trivial
        (fun inner r h => by cases h; exact hplain)

theorem inv_closeDatabase : Inv (closeDatabase s).custody := by
  unfold closeDatabase
  split <;> try exact hs
  rename_i hopen
  exact hs.push_neutral _ (Bool.not_eq_true _ ▸ (not_or.mp hopen).1) (fun t ht => ht) rfl trivial
    nofun

theorem inv_scheduleTerminalDropClose : Inv s.scheduleTerminalDropClose.custody := by
  unfold State.scheduleTerminalDropClose
  split <;> try exact hs
  rename_i hopen
  exact hs.push_neutral _ (Bool.not_eq_true _ ▸ hopen.2.1) (fun t ht => ht) rfl trivial nofun

theorem inv_pollSendBegin (hstep : pollSendBegin s c = some t) : Inv t.custody := by
  unfold pollSendBegin at hstep
  split at hstep <;> try cases hstep
  rename_i hsending
  have hclient : s.custody.clients c = .sending := not_not.mp hsending
  split at hstep
  · cases hstep
    exact hs.move_untokened hclient rfl (by simp) rfl fun _ _ h => h
  · rename_i hrefusal
    split at hstep <;> cases hstep
    exact (hs.push_neutral (.begin c) (not_closed_of_sendRefusal hrefusal)
      (fun t ht => ht) rfl trivial
      nofun).move_untokened hclient rfl (by simp) rfl fun _ _ h => h

/-- A polled `Begin` reply turns into a handle with the token. -/
theorem inv_pollBeginReply (hstep : pollBeginReply s c = some t) : Inv t.custody := by
  unfold pollBeginReply at hstep
  split at hstep <;> cases hstep
  · rename_i token hclient
    have hown : (s.custody.clients c).Owns token := by
      rw [show s.custody.clients c = _ from hclient]
      exact ⟨rfl, by simp⟩
    rw [custody_setClient, custody_setGuard]
    constructor
    · exact (hs.held.setGuard c _).move hown (.inl rfl)
    · intro hp
      have hclean := hs.clean hp
      refine hclean.setLocal (.inl rfl) (fun u control hmem => ?_)
        (fun u hu => statement_move hown rfl hu)
      have hplace := (hclean.queued _ hmem).2
      simp [show s.custody.clients c = _ from hclient] at hplace
  · rename_i error hclient
    exact hs.move_untokened hclient rfl (by simp) rfl fun _ _ h => h

theorem inv_pollStatement (hstep : pollStatement s c operation = some t) : Inv t.custody := by
  unfold pollStatement at hstep
  split at hstep <;> try cases hstep
  rename_i token hclient
  split at hstep <;> try cases hstep
  split at hstep <;> cases hstep
  rename_i hadmitted
  exact hs.push_neutral _ (not_closed_of_sendRefusal (not_or.mp hadmitted).1) (fun t ht => ht) rfl
    (.inl (by rw [show s.custody.clients c = _ from hclient]; rfl)) nofun

theorem inv_returnBody (hstep : returnBody s c succeeded = some t) : Inv t.custody := by
  unfold returnBody at hstep
  split at hstep <;> try cases hstep
  rename_i token hclient
  have htransaction : (s.custody.clients c).InTransaction token := .inl hclient
  split at hstep <;> cases hstep
  · rename_i hactive
    have hactive : s.custody.guards c = .active := hactive
    constructor
    · exact hs.held.move htransaction.owns (.inr (.inl ⟨_, rfl⟩))
    · intro hp
      have hclean := hs.clean hp
      exact hclean.setClient hactive
        (fun u control hmem => absurd hmem (hclean.no_control
          (.inl (by rw [hactive]; exact nofun)) u control))
        (fun u hu => statement_move htransaction.owns rfl hu)
  · rename_i hinactive
    refine inv_finishExplicitRollback (g := s.custody.guards c) (p := s.custody.poisoned) hs ?_
      htransaction.owns (fun hp hfinishing => ?_)
    · simp [mark]
    · have hclean := hs.clean hp
      obtain hg | hg | ⟨hrolled, hblock⟩ := (hclean.locals c).inTransaction htransaction
      · exact absurd hg hinactive
      · exact absurd hg hfinishing
      · exact ⟨hp, hinactive, hblock, hclean.no_control (.inl hfinishing)⟩

/-- The body has returned, and the future commits or rolls back. -/
theorem inv_settleBody (hstep : settleBody s c = some t) : Inv t.custody := by
  unfold settleBody at hstep
  split at hstep <;> try cases hstep
  · rename_i token hclient
    have htransaction : (s.clients c).InTransaction token := .inr (.inl ⟨_, hclient⟩)
    split at hstep <;> cases hstep
    · rename_i hactive
      exact inv_startCommit hs htransaction.owns hactive
    · exact inv_dropTransaction hs htransaction
  · rename_i token hclient
    have hclient : s.custody.clients c = .settle token false := hclient
    have htransaction : (s.custody.clients c).InTransaction token :=
      Or.inr (.inl ⟨_, hclient⟩)
    split at hstep <;> cases hstep
    · rename_i hactive
      exact inv_startRollback hs htransaction.owns hactive true
    · rename_i hinactive
      refine inv_finishExplicitRollback (g := s.custody.guards c) (p := s.custody.poisoned) hs ?_
        htransaction.owns (fun hp _ => ?_)
      · simp [mark]
      · have hlocal := (hs.clean hp).locals c
        rw [hclient] at hlocal
        exact absurd hlocal hinactive

end

/-- A future whose control was answered has no other one in flight. -/
theorem Clean.no_control_of_replied (h : Clean k)
    (hclient : (∃ settling, k.clients c = .rollback t settling (some reply)) ∨
      k.clients c = .commit t (some reply)) (u : Nat) (control : Control) :
    Command.pinnedExec u c control ∉ k.pending := by
  intro hmem
  obtain ⟨-, hbody | ⟨settling, hrollback⟩ | hcommit⟩ := h.queued _ hmem <;>
    rcases hclient with ⟨b, hclient⟩ | hclient <;> simp_all

variable {token : Nat}

theorem inv_pollRollback (hs : Inv s.custody)
    (hclient : s.clients c = .rollback token settling (some reply)) :
    Inv ((s.observeRollback c reply).afterRollback c token settling).custody := by
  have hclient : s.custody.clients c = .rollback token settling (some reply) := hclient
  obtain ⟨g, p, hcustody, hproven⟩ := observeRollback_custody s c reply
  refine inv_afterRollback hs hcustody (by rw [hclient]; exact ⟨rfl, by simp⟩)
    (fun hp => ?_) settling
  obtain ⟨hpoisoned, hrolled, r, hr, hidle⟩ := hproven hp
  have hclean := hs.clean hpoisoned
  have hlocal := hclean.locals c
  rw [hclient] at hlocal
  exact ⟨hpoisoned, hrolled, hlocal.2 r hr hidle,
    hclean.no_control_of_replied (.inl ⟨settling, hclient⟩)⟩

theorem inv_pollCommit (hs : Inv s.custody) (hclient : s.clients c = .commit token (some reply)) :
    Inv (s.observeCommit c token reply).custody := by
  have hclient : s.custody.clients c = .commit token (some reply) := hclient
  refine inv_observeCommit (g := s.custody.guards c) hs (by simp [mark])
    (by rw [hclient]; exact ⟨rfl, by simp⟩) (fun r hr hidle hp => ?_)
  have hclean := hs.clean hp
  have hlocal := hclean.locals c
  rw [hclient] at hlocal
  exact ⟨hlocal.2 r hr hidle, hclean.no_control_of_replied (.inr hclient)⟩

/-- The callback forgets its `rollback()`; the guard stays claimed. -/
theorem inv_abandonRollback {reply : Option (Except Error Response)}
    (hs : Inv s.custody) (hclient : s.clients c = .rollback token false reply) :
    Inv (s.setClient c (.body token)).custody := by
  have hclient : s.custody.clients c = .rollback token false reply := hclient
  have hown : (s.custody.clients c).Owns token := by
    rw [hclient]
    exact ⟨rfl, by simp⟩
  constructor
  · exact hs.held.move hown (.inl rfl)
  · intro hp
    have hclean := hs.clean hp
    have hlocal := hclean.locals c
    have hfinishing : s.custody.guards c = .finishing := by
      rw [hclient] at hlocal
      cases reply with
      | none => exact hlocal
      | some reply => exact hlocal.1
    exact hclean.setClient (.inr (.inl hfinishing))
      (fun u control hmem => ⟨hfinishing, .inl (by
        rw [hown.unique_token (hclean.control_token hmem).2.1])⟩)
      (fun u hu => statement_move hown rfl hu)

theorem not_owns_of_release {c : Client} {reply : Option (Except Error Unit)}
    (h : c = .release t reply) (u : Nat) : ¬ c.Owns u := by
  subst h
  rintro ⟨htoken, hrelease⟩
  cases htoken
  exact hrelease reply rfl

section

variable (hs : Inv s.custody)

include hs

variable {reply : Option (Except Error Unit)}

theorem inv_release_gone (hclient : s.clients c = .release token reply) :
    Inv ((s.custody.setGuard c .released).setClient c .gone) := by
  have hnone := not_owns_of_release hclient
  constructor
  · refine (hs.held.setGuard c _).setClient (fun t ht => ?_) (fun t ht => ?_) (fun t ht => ?_)
    · cases ht
    · cases ht.1
    · exact absurd ht (hnone t)
  · exact fun hp => (hs.clean hp).leave (.inr hnone)

/-- A confirmed release ends the future. -/
theorem inv_pollRelease {reply : Except Error Unit}
    (hclient : s.clients c = .release token (some reply)) :
    Inv (s.finishRelease c reply).custody := by
  unfold State.finishRelease
  cases reply with
  | ok value =>
    simp only [custody_setClient, custody_setGuardState]
    exact inv_release_gone hs hclient
  | error error =>
    simp only [custody_setClient, custody_setGuardState, custody_poison]
    have hgone := (inv_release_gone hs hclient).held.poison
    exact ⟨hgone, nofun⟩

/-- A dropped release is queued once more. -/
theorem inv_dropRelease (hclient : s.clients c = .release token reply) :
    Inv (((s.setGuardState c .released).setClient c .gone).sendCleanup
      (.releasePin token none)).custody := by
  have hgone := inv_release_gone hs hclient
  rw [← custody_setGuardState, ← custody_setClient] at hgone
  have hclient : s.custody.clients c = .release token reply := hclient
  constructor
  · unfold State.sendCleanup
    split
    · rename_i hadmits
      rw [custody_push]
      refine hgone.held.push (not_closed_of_admitsControl hadmits) (fun t ht => ?_)
        nofun
      cases ht
      refine ⟨hs.held.fresh_client c token (by rw [hclient]; rfl), fun d hd => ?_⟩
      by_cases hdc : d = c
      · subst hdc
        simp [Client.Owns, Client.token, State.custody, State.setClient] at hd
      · have hd : (s.custody.clients d).Owns token := by
          simpa [State.custody, State.setClient, State.setGuardState, State.setGuard, hdc] using hd
        exact hdc (hs.held.unique d c token hd.1 (by rw [hclient]; rfl))
    · exact hgone.held
  · intro hp
    rw [sendCleanup_poisoned] at hp
    refine clean_sendCleanup (hgone.clean hp) ?_ rfl
    have hlocal := (hs.clean hp).locals c
    rw [hclient] at hlocal
    exact hlocal.2

/-- **A dropped future queues its release**, unless it is dropped between delivery and poll of
`Begin`. -/
theorem inv_dropFuture {t : State} (hpolled : ¬ DropsUnpolledBegin s (.drop c))
    (hstep : dropFuture s c = some t) : Inv t.custody := by
  unfold dropFuture at hstep
  split at hstep <;> cases hstep
  · rename_i hclient
    exact hs.move_untokened hclient rfl (by simp) rfl fun _ _ h => h
  · rename_i reply hclient
    refine hs.move_untokened hclient ?_ (by simp) rfl fun _ _ h => h
    match reply, hclient with
    | none, _ => rfl
    | some (.error _), _ => rfl
    | some (.ok token), hclient => exact absurd ⟨token, hclient⟩ hpolled
  · rename_i token hclient
    exact inv_dropTransaction hs (.inl hclient)
  · rename_i token succeeded hclient
    exact inv_dropTransaction hs (.inr (.inl ⟨_, hclient⟩))
  · rename_i token settling reply hclient
    exact inv_dropTransaction hs (.inr (.inr (.inl ⟨_, _, hclient⟩)))
  · rename_i token reply hclient
    exact inv_dropTransaction hs (.inr (.inr (.inr ⟨_, hclient⟩)))
  · rename_i token reply hclient
    exact inv_dropRelease hs hclient

end

end Oliphaunt.Rust
