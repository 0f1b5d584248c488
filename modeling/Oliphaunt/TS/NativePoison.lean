import Oliphaunt.TS.NativeClient

/-!
# Oliphaunt — what a poisoned native TypeScript session still sends

Every path to the binding looks at `#sessionFailure` at some point: operations
when they start, the SDK's own controls right before they are sent. The second
exchange of a described statement is covered because nothing can poison the
session in between. The statements of a transaction handle look at nothing: one
that starts after the session was poisoned is sent. `poisoned_session_silent_iff`
says that this is the only way.

* `poisoned_session_sends` — a run in which it happens.
-/

namespace Oliphaunt.NativeTs

open Transition

/-- What made PostgreSQL work so far. -/
def State.sessionCalls (s : State) : List Call := s.calls.filter Call.isSession

/-- Once a session failure is recorded, a step sends nothing more. -/
def SilentWhenPoisoned (s : State) (a : Action) : Prop :=
  s.sessionFailure.isSome = true → ∀ t ∈ step s a, t.sessionCalls = s.sessionCalls

instance (s : State) (a : Action) : Decidable (SilentWhenPoisoned s a) :=
  inferInstanceAs (Decidable (_ → _))

/-- A statement of the transaction handle starts. -/
def StartsStatement (s : State) (a : Action) : Prop :=
  match a, s.handle.running, s.handle.tail with
  | .handleStart, none, .statement _ :: _ => True
  | _, _, _ => False

@[simp] theorem sessionCalls_finish (s : State) (op : Operation) (error : Option Error) :
    (s.finish op error).sessionCalls = s.sessionCalls := by
  unfold State.finish
  split <;> rfl

variable {s : State}

theorem assertHealthy_of_poisoned (h : s.sessionFailure.isSome = true) :
    ∃ error, s.assertHealthy = .error error := by
  unfold State.assertHealthy
  cases hfailure : s.sessionFailure with
  | none => rw [hfailure] at h; cases h
  | some failure => exact ⟨_, rfl⟩

/-- An observation reads a response and may poison; it touches nothing else. -/
def Observes (s t : State) : Prop :=
  ∃ failure, t = { s with sessionFailure := failure } ∧
    (s.sessionFailure.isSome = true → failure.isSome = true)

theorem Observes.refl (s : State) : Observes s s := ⟨s.sessionFailure, rfl, id⟩

theorem observes_poison (s : State) (error : Error) (message : String) :
    Observes s (s.poison error message) := ⟨_, rfl, fun _ => rfl⟩

theorem observeControl_observes (s : State) (control : Control)
    (result : Except Error Response) : Observes s (observeControl s control result).1 := by
  unfold observeControl
  repeat' split
  all_goals first | exact .refl s | exact observes_poison ..

theorem observeDatabaseExchange_observes (s : State) (result : Except Error Response) :
    Observes s (observeDatabaseExchange s result).1 := by
  unfold observeDatabaseExchange
  repeat' split
  all_goals first | exact .refl s | exact observes_poison ..

theorem observeTransactionExchange_observes (s : State) (result : Except Error Response) :
    Observes s (observeTransactionExchange s result).1 := by
  unfold observeTransactionExchange
  repeat' split
  all_goals first | exact .refl s | exact observes_poison ..

/-- A response that leaves the transaction open does not poison. -/
theorem observeTransactionExchange_ok (h : (observeTransactionExchange s result).2 = .ok ()) :
    (observeTransactionExchange s result).1 = s := by
  unfold observeTransactionExchange at h ⊢
  split
  · cases h
  · split
    · rename_i hready
      simp only [hready] at h
      cases h
    · split <;> rfl

/-- The running operation goes on or settles. If the session was poisoned before,
nothing is sent; the handle is left alone, closed, or new with the callback. -/
structure Continues (s t : State) : Prop where
  silent : s.sessionFailure.isSome = true → t.sessionCalls = s.sessionCalls
  describe : ∀ op, t.running ≠ some (op, .describe)
  handle : t.handle = s.handle ∨ t.handle = { s.handle with state := .closed } ∨
    (t.handle = .fresh ∧ ∃ op, t.running = some (op, .body))

variable {r : State}

section

variable (h : Observes s r)

include h

theorem Observes.finish (op : Operation) (error : Option Error) :
    Continues s (r.finish op error) := by
  obtain ⟨failure, rfl, -⟩ := h
  refine ⟨fun _ => by rw [sessionCalls_finish]; rfl, ?_, ?_⟩
  · unfold State.finish
    split <;> simp
  · unfold State.finish
    split
    · exact .inr (.inl rfl)
    · exact .inl rfl

variable {phase : Phase}

/-- A call that was made because the session was healthy. -/
theorem Observes.send (op : Operation) (hphase : phase ≠ .describe)
    (hhealthy : s.sessionFailure.isSome = true → False) (c : Call) :
    Continues s ((r.call c).await op phase) := by
  obtain ⟨failure, rfl, -⟩ := h
  refine ⟨fun hpoisoned => absurd hpoisoned hhealthy, fun op' hbad => ?_, .inl rfl⟩
  cases hbad
  exact hphase rfl

theorem Observes.recoveryFailed (cause : Error) : Observes s (r.recoveryFailed cause) := by
  obtain ⟨failure, rfl, -⟩ := h
  exact ⟨_, rfl, fun _ => rfl⟩

theorem healthy_of_observed (hok : r.assertHealthy = .ok ()) :
    s.sessionFailure.isSome = true → False := by
  intro hpoisoned
  obtain ⟨failure, rfl, hkeep⟩ := h
  obtain ⟨error, herror⟩ := assertHealthy_of_poisoned
    (s := { s with sessionFailure := failure }) (hkeep hpoisoned)
  cases hok.symm.trans herror

/-- A recovery is sent only by a session that is still healthy. -/
theorem startRecovery_continues (op : Operation) (hphase : phase ≠ .describe)
    (failed : Error → Error) : Continues s (startRecovery r op phase failed) := by
  unfold startRecovery
  split
  · exact (h.recoveryFailed _).finish op _
  · rename_i hok
    exact h.send op hphase (healthy_of_observed h hok) _

end

variable {t : State} {op : Operation} {phase : Phase}

theorem observeReply_continues {bind : Option Error}
    (hdescribe : phase = .describe → s.sessionFailure = none)
    (hstep : observeReply s op result bind phase = some t) : Continues s t := by
  have hdatabase := observeDatabaseExchange_observes s (runNativeOperation result)
  have hcontrol := fun control => observeControl_observes s control (runNativeOperation result)
  cases phase <;> simp only [observeReply] at hstep
  case stream | body | draining => cases hstep
  case describe =>
    split at hstep <;> try cases hstep
    · exact hdatabase.finish op _
    · exact startRecovery_continues hdatabase op (by simp) _
    split at hstep <;> cases hstep
    · exact hdatabase.finish op _
    · refine hdatabase.send op (by simp) (fun hpoisoned => ?_) _
      rw [hdescribe rfl] at hpoisoned
      cases hpoisoned
  case structured =>
    split at hstep <;> cases hstep
    · exact hdatabase.finish op _
    · exact startRecovery_continues hdatabase op (by simp) _
    · exact hdatabase.finish op _
  case recovering | beginRecovering =>
    split at hstep <;> cases hstep
    · exact ((hcontrol .rollback).recoveryFailed _).finish op _
    · exact (hcontrol .rollback).finish op _
  case raw =>
    split at hstep <;> cases hstep
    · exact (observes_poison s _ _).finish op _
    · exact (Observes.refl s).finish op _
  case backup => split at hstep <;> cases hstep <;> exact (Observes.refl s).finish op _
  case begin =>
    split at hstep <;> cases hstep
    · exact (hcontrol .begin).finish op _
    · exact startRecovery_continues (hcontrol .begin) op (by simp) _
    · obtain ⟨failure, heq, -⟩ := hcontrol .begin
      rw [heq]
      exact ⟨fun _ => rfl, by simp [State.await], .inr (.inr ⟨rfl, op, rfl⟩)⟩
  all_goals split at hstep <;> cases hstep <;> exact (hcontrol _).finish op _

theorem observeStream_continues (s : State) (op : Operation) (result : StreamResult) :
    Continues s (observeStream s op result) := by
  cases result with
  | ok => exact (Observes.refl s).finish op _
  | callback error => exact (Observes.refl s).finish op _
  | failed error => exact (observes_poison s _ _).finish op _

theorem settleFailed_continues (s : State) (op : Operation) (error : Error) :
    Continues s (settleFailed s op error) := by
  unfold settleFailed
  repeat' split
  all_goals first
    | exact (Observes.refl s).finish op _
    | exact (Observes.refl s).send op (by simp) (healthy_of_observed (Observes.refl s) ‹_›) _

theorem settleReturned_continues (s : State) (op : Operation) :
    Continues s (settleReturned s op) := by
  unfold settleReturned
  split
  · exact settleFailed_continues s op _
  repeat' split
  all_goals first
    | exact (Observes.refl s).finish op _
    | exact (Observes.refl s).send op (by simp) (healthy_of_observed (Observes.refl s) ‹_›) _

/-- The handle's chain has settled. -/
def Handle.Idle (h : Handle) : Prop := h.running = none ∧ h.tail = []

structure Inv (s : State) : Prop where
  /-- the handle works only while the callback runs or is drained -/
  busy : ¬ s.handle.Idle → ∃ op, s.running = some (op, .body) ∨
    ∃ thrown, s.running = some (op, .draining thrown)
  active : s.handle.state = .active → ∃ op, s.running = some (op, .body)
  /-- nothing poisons the session between the two exchanges of a statement -/
  describe : ∀ op, s.running = some (op, .describe) → s.sessionFailure = none
  handleDescribe : s.handle.running = some .describe → s.sessionFailure = none

theorem inv_opened : Inv opened := by
  constructor <;> simp [opened, Handle.fresh, Handle.Idle]

/-- While the chain of the handle is idle, only its state is left to check. -/
theorem inv_of_idle (hidle : t.handle.Idle)
    (hactive : t.handle.state = .active → ∃ op, t.running = some (op, .body))
    (hdescribe : ∀ op, t.running = some (op, .describe) → t.sessionFailure = none) : Inv t where
  busy := fun hbusy => absurd hidle hbusy
  active := hactive
  describe := hdescribe
  handleDescribe := fun h => by rw [hidle.1] at h; cases h

theorem Continues.inv (h : Continues s t) (hidle : s.handle.Idle)
    (hactive : s.handle.state ≠ .active) : Inv t := by
  refine inv_of_idle ?_ ?_ fun op hop => absurd hop (h.describe op)
  · rcases h.handle with heq | heq | ⟨heq, -⟩ <;> rw [heq]
    · exact hidle
    · exact hidle
    · exact ⟨rfl, rfl⟩
  · rcases h.handle with heq | heq | ⟨-, hbody⟩
    · rw [heq]
      exact fun hbad => absurd hbad hactive
    · rw [heq]
      exact nofun
    · exact fun _ => hbody

theorem Inv.inactive (h : Inv s) (hrunning : s.running = some (op, phase)) (hbody : phase ≠ .body) :
    s.handle.state ≠ .active := by
  intro hactive
  obtain ⟨op', hop⟩ := h.active hactive
  cases hrunning.symm.trans hop
  exact hbody rfl

/-- In a phase in which the callback does not run, the handle is idle and not
active. -/
theorem Inv.idle_of_phase (h : Inv s) (hrunning : s.running = some (op, phase))
    (hbody : phase ≠ .body) (hdraining : ∀ thrown, phase ≠ .draining thrown) :
    s.handle.Idle ∧ s.handle.state ≠ .active := by
  refine ⟨by_contra fun hbusy => ?_, h.inactive hrunning hbody⟩
  obtain ⟨op', hop | ⟨thrown, hop⟩⟩ := h.busy hbusy <;> cases hrunning.symm.trans hop
  · exact hbody rfl
  · exact hdraining thrown rfl

/-- No handle outlives its transaction. -/
theorem Inv.idle_of_stopped (h : Inv s) (hrunning : s.running = none) :
    s.handle.Idle ∧ s.handle.state ≠ .active := by
  constructor
  · by_contra hbusy
    obtain ⟨op, hop | ⟨thrown, hop⟩⟩ := h.busy hbusy <;> rw [hrunning] at hop <;> cases hop
  · intro hactive
    obtain ⟨op, hop⟩ := h.active hactive
    cases hrunning.symm.trans hop

theorem Inv.frame (h : Inv s) (hhandle : t.handle = s.handle)
    (hrunning : t.running = s.running) (hfailure : t.sessionFailure = s.sessionFailure) :
    Inv t where
  busy := by rw [hhandle, hrunning]; exact h.busy
  active := by rw [hhandle, hrunning]; exact h.active
  describe := by rw [hrunning, hfailure]; exact h.describe
  handleDescribe := by rw [hhandle, hfailure]; exact h.handleDescribe

/-- What a step has to keep. -/
def Keeps (s t : State) : Prop :=
  Inv t ∧ (s.sessionFailure.isSome = true → t.sessionCalls = s.sessionCalls)

theorem Continues.keeps (h : Continues s t) (hidle : s.handle.Idle ∧ s.handle.state ≠ .active) :
    Keeps s t :=
  ⟨h.inv hidle.1 hidle.2, h.silent⟩

theorem keeps_callOperation (h : Inv s) (op : Operation) :
    Keeps s (callOperation s op) := by
  unfold callOperation
  split
  · exact ⟨h.frame rfl rfl rfl, fun _ => rfl⟩
  · split <;> exact ⟨h.frame rfl rfl rfl, fun _ => rfl⟩

theorem enqueue_eq {h : Handle} {op : HandleOperation} (hstate : h.state ≠ .active) :
    h.enqueue op = h := by
  unfold Handle.enqueue
  rw [if_neg hstate]

theorem keeps_handleCall (h : Inv s) (op : HandleOperation) :
    Keeps s (s.setHandle (s.handle.enqueue op)) := by
  refine ⟨?_, fun _ => rfl⟩
  by_cases hactive : s.handle.state = .active
  · obtain ⟨op', hbody⟩ := h.active hactive
    have hrunning : (s.handle.enqueue op).running = s.handle.running := by
      unfold Handle.enqueue
      rw [if_pos hactive]
      cases op <;> rfl
    refine ⟨fun _ => ⟨op', .inl hbody⟩, fun _ => ⟨op', hbody⟩, ?_, fun hdescribe => ?_⟩
    · intro op'' hbad
      rw [show (s.setHandle (s.handle.enqueue op)).running = s.running from rfl, hbody] at hbad
      cases hbad
    · exact h.handleDescribe (hrunning ▸ hdescribe)
  · rw [enqueue_eq hactive]
    exact h.frame rfl rfl rfl

/-- The callback settles: the handle is sealed and its chain awaited. -/
theorem keeps_seal (h : Inv s) (thrown : Option Error) :
    Keeps s ((s.setHandle s.handle.seal).await op (.draining thrown)) := by
  have hrunning : s.handle.seal.running = s.handle.running := by
    unfold Handle.seal
    split <;> rfl
  have hstate : s.handle.seal.state ≠ .active := by
    unfold Handle.seal
    split
    · simp
    · assumption
  refine ⟨⟨fun _ => ⟨op, .inr ⟨thrown, rfl⟩⟩, fun hbad => absurd hbad hstate, ?_, ?_⟩, fun _ => rfl⟩
  · intro op' hbad
    cases hbad
  · exact fun hdescribe => h.handleDescribe (hrunning ▸ hdescribe)

theorem keeps_startOperation (h : Inv s) (hrunning : s.running = none)
    (op : Operation) : Keeps s (startOperation s op) := by
  obtain ⟨hidle, hactive⟩ := h.idle_of_stopped hrunning
  unfold startOperation
  split
  · exact ((Observes.refl s).finish op _).keeps ⟨hidle, hactive⟩
  · rename_i hok
    have hhealthy := healthy_of_observed (Observes.refl s) hok
    have hnone : s.sessionFailure = none := by simpa using hhealthy
    have hsent : ∀ (c : Call) (phase : Phase), Keeps s ((s.call c).await op phase) := by
      refine fun c phase => ⟨inv_of_idle hidle (fun hbad => absurd hbad hactive) ?_, ?_⟩
      · exact fun _ _ => hnone
      · exact fun hpoisoned => absurd hpoisoned hhealthy
    split <;> exact hsent _ _

/-- An operation of a handle that starts on a poisoned session is silent, unless it is a
statement. -/
theorem keeps_startHandleOperation {op : HandleOperation} (h : Inv s)
    (hrunning : s.handle.running = none) (htail : s.handle.tail = op :: rest)
    (hstarts : ¬ (s.sessionFailure.isSome = true ∧ StartsStatement s .handleStart)) :
    Keeps s (startHandleOperation s rest op) := by
  have hbusy := h.busy fun hidle => absurd (htail.symm.trans hidle.2) (by simp)
  have hphase : ∀ op, s.running ≠ some (op, .describe) := by
    intro op' hbad
    obtain ⟨op'', hop | ⟨thrown, hop⟩⟩ := hbusy <;> rw [hbad] at hop <;> cases hop
  cases op with
  | statement plan =>
    have hhealthy : s.sessionFailure.isSome = true → False := by
      intro hpoisoned
      refine hstarts ⟨hpoisoned, ?_⟩
      simp [StartsStatement, hrunning, htail]
    have hnone : s.sessionFailure = none := by simpa using hhealthy
    exact ⟨⟨fun _ => hbusy, h.active, fun op' hbad => absurd hbad (hphase op'), fun _ => hnone⟩,
      fun hpoisoned => absurd hpoisoned hhealthy⟩
  | rollback =>
    simp only [startHandleOperation]
    split
    · exact ⟨⟨fun _ => hbusy, nofun,
        fun op' hbad => absurd hbad (hphase op'), nofun⟩, fun _ => rfl⟩
    · rename_i hok
      have hhealthy := healthy_of_observed (Observes.refl s) hok
      exact ⟨⟨fun _ => hbusy, h.active, fun op' hbad => absurd hbad (hphase op'),
        nofun⟩, fun hpoisoned => absurd hpoisoned hhealthy⟩

/-- The chain of a handle goes on: its first operation settles or sends its second
exchange. -/
theorem keeps_handle (h : Inv s) (hbusy : s.handle.running ≠ none) (hr : Observes s r)
    (hstate : g.state = .active → s.handle.state = .active)
    (hdescribe : g.running ≠ some .describe) :
    Inv (r.setHandle g) := by
  obtain ⟨failure, rfl, -⟩ := hr
  have hphase := h.busy fun hidle => hbusy hidle.1
  refine ⟨fun _ => hphase, fun hactive => h.active (hstate hactive), ?_,
    fun hbad => absurd hbad hdescribe⟩
  intro op hbad
  obtain ⟨op', hop | ⟨thrown, hop⟩⟩ := hphase <;>
    rw [show s.running = _ from hbad] at hop <;> cases hop

theorem settleRollback_state (g : Handle) (result : Except Error Unit) :
    (g.settleRollback result).state = .closed ∧ (g.settleRollback result).running = none := by
  cases result <;> exact ⟨rfl, rfl⟩

/-- Between the two exchanges of a described statement of a handle nothing can poison the
session. -/
theorem keeps_observeHandleReply (h : Inv s) (hrunning : s.handle.running = some exchange)
    (result : Except Error (Option Response)) (bind : Option Error) :
    Keeps s (observeHandleReply s result bind exchange) := by
  have hbusy : s.handle.running ≠ none := by simp [hrunning]
  have hobserved := observeTransactionExchange_observes s (runNativeOperation result)
  have hsilent : ∀ r g, Observes s r → (State.setHandle r g).sessionCalls = s.sessionCalls := by
    rintro r g ⟨failure, rfl, -⟩
    rfl
  have hsettle : ∀ error, Keeps s ((observeTransactionExchange s
      (runNativeOperation result)).1.setHandle (s.handle.settle error)) :=
    fun error => ⟨keeps_handle h hbusy hobserved id (by simp [Handle.settle]),
      fun _ => hsilent _ _ hobserved⟩
  cases exchange with
  | describe =>
    simp only [observeHandleReply]
    split
    · exact hsettle _
    · exact hsettle _
    · rename_i hok
      have hnone := h.handleDescribe hrunning
      rw [observeTransactionExchange_ok hok]
      refine ⟨?_, fun hpoisoned => by rw [hnone] at hpoisoned; cases hpoisoned⟩
      exact (keeps_handle (g := { s.handle with running := some .statement }) h hbusy
        (Observes.refl s) id (by simp)).frame rfl rfl rfl
  | statement =>
    simp only [observeHandleReply]
    split <;> exact hsettle _
  | rollback =>
    have hcontrol := observeControl_observes s .rollback (runNativeOperation result)
    have hrolled : ∀ outcome, Keeps s ((observeControl s .rollback
        (runNativeOperation result)).1.setHandle (s.handle.settleRollback outcome)) := by
      intro outcome
      obtain ⟨hstate, hnone⟩ := settleRollback_state s.handle outcome
      exact ⟨keeps_handle h hbusy hcontrol (by simp [hstate]) (by simp [hnone]),
        fun _ => hsilent _ _ hcontrol⟩
    simp only [observeHandleReply]
    split <;> exact hrolled _

theorem sessionCalls_call_quiet (s : State) (hc : c.isSession = false) :
    (s.call c).sessionCalls = s.sessionCalls := by
  simp [State.sessionCalls, State.call, List.filter_append, hc]

variable {a : Action}

/-- **One step of a poisoned session is silent**, unless it starts a statement of a handle. -/
theorem keeps_step (h : Inv s) (hstarts : ¬ (s.sessionFailure.isSome = true ∧ StartsStatement s a))
    (hstep : step s a = some t) : Keeps s t := by
  cases a
  all_goals simp only [step] at hstep
  case call op =>
    cases hstep
    exact keeps_callOperation h op
  case handleCall op =>
    cases hstep
    exact keeps_handleCall h op
  case callbackReturns =>
    split at hstep <;> cases hstep
    exact keeps_seal h none
  case callbackThrows error =>
    split at hstep <;> cases hstep
    exact keeps_seal h (some error)
  case cancel =>
    split at hstep <;> cases hstep
    · exact ⟨h, fun _ => rfl⟩
    · exact ⟨h.frame rfl rfl rfl, fun _ => sessionCalls_call_quiet s rfl⟩
  case close =>
    cases hstep
    unfold startClose
    split <;> exact ⟨h.frame rfl rfl rfl, fun _ => rfl⟩
  case start =>
    split at hstep <;> cases hstep
    rename_i op rest hrunning htail
    exact keeps_startOperation (s := { s with operationTail := rest })
      (h.frame rfl rfl rfl) hrunning op
  case handleStart =>
    split at hstep <;> cases hstep
    rename_i op rest hrunning htail
    exact keeps_startHandleOperation h hrunning htail hstarts
  case drained =>
    split at hstep <;> cases hstep
    · rename_i op hrunning hnone htail
      exact (settleReturned_continues s op).keeps ⟨⟨hnone, htail⟩, h.inactive hrunning nofun⟩
    · rename_i op error hrunning hnone htail
      exact (settleFailed_continues s op error).keeps ⟨⟨hnone, htail⟩, h.inactive hrunning nofun⟩
  case runClose retryable =>
    split at hstep <;> cases hstep
    cases retryable <;>
      exact ⟨h.frame rfl rfl rfl, fun _ => sessionCalls_call_quiet s rfl⟩
  case reply result bind =>
    split at hstep <;> try cases hstep
    rename_i op phase hrunning
    have hcont := observeReply_continues (fun hphase => h.describe op (hphase ▸ hrunning)) hstep
    exact hcont.keeps (h.idle_of_phase hrunning (fun hbad => by rw [hbad] at hstep; cases hstep)
      (fun thrown hbad => by rw [hbad] at hstep; cases hstep))
  case streamReply result =>
    split at hstep <;> cases hstep
    rename_i op hrunning
    exact (observeStream_continues s op result).keeps (h.idle_of_phase hrunning nofun nofun)
  case handleReply result bind =>
    split at hstep <;> cases hstep
    rename_i exchange hrunning
    exact keeps_observeHandleReply h hrunning result bind

/-- A handle statement that starts calls the binding. -/
theorem StartsStatement.sends (h : StartsStatement s a) :
    ∃ t, step s a = some t ∧ t.sessionCalls = s.sessionCalls ++ [.execProtocolRaw] := by
  unfold StartsStatement at h
  split at h
  · rename_i plan rest hrunning htail
    refine ⟨startHandleOperation s rest (.statement plan), by simp [step, hrunning, htail], ?_⟩
    show (s.call .execProtocolRaw).sessionCalls = _
    simp [State.sessionCalls, State.call, List.filter_append, Call.isSession]
  · exact h.elim

/-- A run sends nothing on a poisoned session exactly when no statement of a
transaction handle starts on it. -/
theorem poisoned_session_silent_iff (schedule : List Action) :
    Along step SilentWhenPoisoned opened schedule ↔
      Along step (fun s a => ¬ (s.sessionFailure.isSome = true ∧ StartsStatement s a)) opened
        schedule := by
  constructor
  · refine Along.mono fun s a hsilent hbad => ?_
    obtain ⟨t, ht, hcalls⟩ := hbad.2.sends
    have hsame := hsilent hbad.1 t ht
    rw [hcalls] at hsame
    simp at hsame
  · refine Along.of_invariant (fun s a t hs ha hstep => (keeps_step hs ha hstep).1) ?_ inv_opened
    exact fun s a hs ha hpoisoned t ht => (keeps_step hs ha ht).2 hpoisoned

/-- Two statements are issued without awaiting the first, whose transport fails. -/
def queuedBehindFailure : List Action :=
  [.call .transaction, .start,
    .reply (.ok (some { ready := .ok .transaction, tags := .ok ["BEGIN"],
                        command := .ok (some "BEGIN") })) none,
    .handleCall (.statement .complete), .handleCall (.statement .complete), .handleStart,
    .handleReply (.error (.error "connection lost")) none, .handleStart]

/-- The second of two statements that were issued together is sent on the session that the
first one poisoned. -/
theorem poisoned_session_sends : ¬ ∀ schedule, Along step SilentWhenPoisoned opened schedule := by
  intro h
  exact absurd (h queuedBehindFailure) (by decide)

end Oliphaunt.NativeTs
