import Oliphaunt.TS.ReactNativeChains

/-!
# Oliphaunt — the order of exchanges of a React Native transaction

Between the `BEGIN` of a transaction and its one terminal command nothing of
another call is sent, in every run. `COMMIT` is sent once every operation of the
handle has settled. That it is not sent after `rollback()` holds as long as the
admission of `rollback()` itself does not expire (`RollbackExpires`): an expired
one leaves the handle `finishing` with nothing recorded, which the settlement
takes for a transaction that is ready to commit.

* `exchanges_in_call_order` — the order of the exchanges, in every run;
* `commit_in_order` — the rule for `COMMIT`, without expired rollbacks;
* `commit_after_expired_rollback` — a commit after `rollback()`.
-/

namespace Oliphaunt.ReactNative

open Transition List

def Command.isTerminal : Command → Bool
  | .commit | .rollback => true
  | _ => false

/-- Between a `BEGIN` and a terminal command of its call stand only exchanges of that call,
and no other terminal command. -/
def Undisturbed (log : List Sent) : Prop :=
  ∀ {before between after : List Sent} {b e : Sent},
    log = before ++ b :: (between ++ e :: after) → b.command = .begin →
    e.command.isTerminal = true → e.call = b.call →
    ∀ x ∈ between, x.call = b.call ∧ x.command.isTerminal = false

/-- `COMMIT` was sent with no operation of the handle unsettled and not after `rollback()`,
and no transaction was disturbed. -/
def State.InOrder (s : State) : Prop :=
  (∀ x ∈ s.sent, x.command = .commit → x.pending = 0 ∧ x.rollbackCalled = false) ∧
    Undisturbed s.sent

/-- The admission of a handle's `rollback()` expires. -/
def RollbackExpires (s : State) : Action → Prop
  | .handleExpire index => ∃ w ∈ s.handle.tail[index]?, w.operation = .rollback
  | .handleStart late _ _ => late = true ∧ ∃ w ∈ s.handle.tail.head?, w.operation = .rollback
  | _ => False

instance (s : State) : ∀ a : Action, Decidable (RollbackExpires s a)
  | .handleExpire index =>
    inferInstanceAs (Decidable (∃ w ∈ s.handle.tail[index]?, w.operation = .rollback))
  | .handleStart late _ _ =>
    inferInstanceAs (Decidable (late = true ∧ ∃ w ∈ s.handle.tail.head?, w.operation = .rollback))
  | .call _ | .handleCall _ | .callbackReturns | .callbackThrows _ | .close | .expire _
  | .start _ _ | .drained _ _ | .closeSettles _ => instDecidableFalse

/-- Calls have their turns one after the other, each with at most one terminal command. -/
structure Kept (log : List Sent) : Prop where
  sorted : log.Pairwise fun x y => x.call ≤ y.call
  single : log.Pairwise fun x y =>
    x.command.isTerminal = true → y.command.isTerminal = true → x.call ≠ y.call

variable {log : List Sent}

/-- A log in call order has nothing of another call inside a transaction. -/
theorem Kept.undisturbed (h : Kept log) : Undisturbed log := by
  rintro before between after b e rfl - hterminal hcall x hx
  have hsorted := (pairwise_append.mp h.sorted).2.1
  have hsingle := (pairwise_append.mp h.single).2.1
  have hmem : x ∈ between ++ e :: after := mem_append.mpr (.inl hx)
  have hle : b.call ≤ x.call := (pairwise_cons.mp hsorted).1 x hmem
  have hlast := pairwise_append.mp (pairwise_cons.mp hsorted).2
  have hge : x.call ≤ e.call := hlast.2.2 x hx e (.head _)
  have hsame : x.call = b.call := by omega
  refine ⟨hsame, ?_⟩
  have hother := pairwise_append.mp (pairwise_cons.mp hsingle).2
  by_contra hx'
  exact hother.2.2 x hx e (.head _) (by simpa using hx') hterminal (hsame.trans hcall.symm)

variable {call : Nat} {commands : List Command}

/-- What the call at the front of the line sends goes behind everything older, with at most
one terminal command. -/
theorem Kept.append (s : State)
    (h : Kept log) (hpast : ∀ x ∈ log, x.call ≤ call)
    (hone : commands.Pairwise fun c d => ¬ (c.isTerminal = true ∧ d.isTerminal = true))
    (hfirst : (∃ c ∈ commands, c.isTerminal = true) →
      ∀ x ∈ log, x.command.isTerminal = true → x.call ≠ call) :
    Kept (log ++ commands.map (s.entry call)) := by
  refine ⟨pairwise_append.mpr ⟨h.sorted, ?_, ?_⟩, pairwise_append.mpr ⟨h.single, ?_, ?_⟩⟩
  · exact pairwise_map.mpr (hone.imp fun _ => Nat.le_refl call)
  · rintro x hx y hy
    obtain ⟨c, -, rfl⟩ := mem_map.mp hy
    exact hpast x hx
  · refine pairwise_map.mpr (hone.imp ?_)
    intro c d hnot hc hd
    exact absurd ⟨hc, hd⟩ hnot
  · rintro x hx y hy hx' hy'
    obtain ⟨c, hc, rfl⟩ := mem_map.mp hy
    exact hfirst ⟨c, hc, hy'⟩ x hx hx'

theorem pairwise_of_plain
    (hplain : ∀ c ∈ commands, c.isTerminal = false) :
    commands.Pairwise fun c d => ¬ (c.isTerminal = true ∧ d.isTerminal = true) :=
  pairwise_of_forall_mem_list fun c hc d _ hboth => by
    rw [hplain c hc] at hboth
    exact absurd hboth.1 (by decide)

/-- The recovery of an ordinary call is its only terminal command. -/
theorem pairwise_of_ordinary (count : Nat) {recovery : List Command}
    (hrecovery : recovery = [] ∨ recovery = [.rollback]) :
    (replicate count Command.ordinary ++ recovery).Pairwise fun c d =>
      ¬ (c.isTerminal = true ∧ d.isTerminal = true) := by
  refine pairwise_append.mpr ⟨?_, ?_, fun c hc d _ => ?_⟩
  · exact pairwise_of_plain fun c hc => by rw [eq_of_mem_replicate hc]; rfl
  · rcases hrecovery with rfl | rfl <;> simp
  · simp [eq_of_mem_replicate hc, Command.isTerminal]

/-- The calls that wait for their turn, and the one that is made next. -/
def State.line (s : State) : List Nat := s.operationTail.map Queued.call ++ [s.nextCall]

/-- Calls are numbered as they are chained, and what was sent belongs to earlier turns or
to the running one: to calls below `limit`. -/
structure Turns (s : State) : Prop where
  waiting : s.line.Pairwise fun c d => c < d
  turn : ∃ limit, (∀ x ∈ s.sent, x.call < limit) ∧ (∀ c ∈ s.line, limit ≤ c) ∧
    ∀ {call phase}, s.running = some (call, phase) → limit = call + 1
  kept : Kept s.sent
  /-- a terminal command of the running transaction has ended it or poisoned the database -/
  ended : ∀ {call phase}, s.running = some (call, phase) →
    (∃ x ∈ s.sent, x.command.isTerminal = true ∧ x.call = call) →
    s.handle.state = .rolledBack ∨ s.poisoned.isSome = true

theorem turns_opened (broker timeout : Bool) : Turns (opened broker timeout) where
  waiting := pairwise_singleton _ _
  turn := ⟨0, by simp [opened]⟩
  kept := ⟨List.Pairwise.nil, List.Pairwise.nil⟩
  ended h := by cases h

variable {s t : State}

theorem Turns.quiet (h : Turns s) (hquiet : Quiet s t)
    (hline : t.line = s.line ∨ t.line = s.line ++ [s.nextCall + 1]) : Turns t := by
  have hlast : ∀ c ∈ s.line, c ≤ s.nextCall := by
    intro c hc
    rcases mem_append.mp hc with hwaits | hnext
    · exact Nat.le_of_lt ((pairwise_append.mp h.waiting).2.2 c hwaits _
        (.head _))
    · exact Nat.le_of_eq (mem_singleton.mp hnext)
  obtain ⟨limit, hsent, hahead, hrunning⟩ := h.turn
  have hlimit : limit ≤ s.nextCall := hahead _ (by simp [State.line])
  refine ⟨?_, ⟨limit, by rw [hquiet]; exact hsent, fun c hc => ?_, by rw [hquiet]; exact hrunning⟩,
    by rw [hquiet]; exact h.kept, by rw [hquiet]; exact h.ended⟩
  · rcases hline with hline | hline <;> rw [hline]
    · exact h.waiting
    · refine pairwise_append.mpr ⟨h.waiting, pairwise_singleton _ _, fun c hc d hd => ?_⟩
      rw [mem_singleton.mp hd]
      exact Nat.lt_succ_of_le (hlast c hc)
  · rcases hline with hline | hline <;> rw [hline] at hc
    · exact hahead c hc
    · rcases mem_append.mp hc with hc | hc
      · exact hahead c hc
      · rw [mem_singleton.mp hc]
        exact Nat.le_succ_of_le hlimit

theorem Turns.enqueue (h : Turns s) (op : Operation) : Turns (callOperation s op) := by
  unfold callOperation
  split <;> try exact h
  split
  · exact h
  · exact h.quiet rfl (.inr (by simp [State.line]))

variable {index : Nat}

theorem Turns.expire (h : Turns s) (hexpire : expireOperation s index = some t) : Turns t := by
  have hquiet := expireOperation_quiet hexpire
  unfold expireOperation at hexpire
  split at hexpire <;> try cases hexpire
  rename_i q hq
  split at hexpire <;> cases hexpire
  obtain ⟨hindex, rfl⟩ := List.getElem?_eq_some_iff.mp hq
  have hself := @set_getElem_self _ (s.operationTail.map Queued.call) index
    (by simpa using hindex)
  refine h.quiet hquiet (.inl ?_)
  simpa [State.line, map_set] using hself

variable {q : Queued} {rest : List Queued}

/-- What is left of the order when the first waiting call gets its turn. -/
theorem Turns.pop (h : Turns s) (htail : s.operationTail = q :: rest) :
    (∀ x ∈ s.sent, x.call < q.call) ∧
      (q.call :: State.line { s with operationTail := rest }).Pairwise fun c d => c < d := by
  have hline : s.line = q.call :: State.line { s with operationTail := rest } := by
    simp [State.line, htail]
  obtain ⟨limit, hsent, hahead, -⟩ := h.turn
  exact ⟨fun x hx => Nat.lt_of_lt_of_le (hsent x hx) (hahead _ (hline ▸ (.head _))),
    hline ▸ h.waiting⟩

variable {u : State}

/-- The exchanges of the operation that is taken from the line. -/
theorem Turns.exchanged
    (h : Turns s) (htail : s.operationTail = q :: rest) (hu : u.sent = s.sent)
    (hsent : Exchanged q.call commands u t)
    (hone : commands.Pairwise fun c d => ¬ (c.isTerminal = true ∧ d.isTerminal = true)) :
    Kept t.sent ∧ ∀ x ∈ t.sent, x.call ≤ q.call ∧
      (x.call = q.call → x.command ∈ commands) := by
  have hpast := (h.pop htail).1
  have hlog : t.sent = s.sent ++ commands.map (u.entry q.call) := by
    rw [hsent.frame]
    exact congrArg (· ++ _) hu
  rw [hlog]
  refine ⟨h.kept.append u (fun x hx => Nat.le_of_lt (hpast x hx)) hone fun _ x hx _ heq => ?_,
    fun x hx => ?_⟩
  · exact absurd (hpast x hx) (by omega)
  · rcases mem_append.mp hx with hx | hx
    · have hlt := hpast x hx
      exact ⟨Nat.le_of_lt hlt, fun heq => by omega⟩
    · obtain ⟨c, hc, rfl⟩ := mem_map.mp hx
      exact ⟨Nat.le_refl _, fun _ => hc⟩

variable {replies : Replies}

/-- An operation starts when its turn has come and nothing runs. -/
theorem Turns.started
    (h : Turns s) (htail : s.operationTail = q :: rest) (hidle : s.running = none)
    (hstarted : Started { s with operationTail := rest } q replies t) : Turns t := by
  obtain ⟨hpast, hline⟩ := h.pop htail
  rw [pairwise_cons] at hline
  -- After the exchanges everything sent is at most this call.
  have hafter : ∀ {u : State} (commands : List Command),
      u.line = State.line { s with operationTail := rest } → Kept u.sent →
      (∀ x ∈ u.sent, x.call ≤ q.call ∧ (x.call = q.call → x.command ∈ commands)) →
      (∀ {call phase}, u.running = some (call, phase) →
        call = q.call ∧ ∀ c ∈ commands, c.isTerminal = false) → Turns u := by
    intro u commands hu hkept hsent hrunning
    refine ⟨hu ▸ hline.2, ⟨q.call + 1, fun x hx => Nat.lt_succ_of_le (hsent x hx).1,
      hu ▸ hline.1, fun hr => ?_⟩, hkept, fun hr ⟨x, hx, hterminal, heq⟩ => ?_⟩
    · rw [(hrunning hr).1]
    · obtain ⟨rfl, hplain⟩ := hrunning hr
      rw [hplain _ ((hsent x hx).2 heq)] at hterminal
      cases hterminal
  cases hstarted with
  | skipped =>
    refine hafter [] rfl h.kept (fun x hx => ?_) (fun hr => ?_)
    · have hlt := hpast x hx
      exact ⟨Nat.le_of_lt hlt, fun heq => by omega⟩
    · exact absurd (hidle.symm.trans hr) (by simp)
  | ordinary _ count recovery _ hrecovery hsent =>
    obtain ⟨hkept, hall⟩ := h.exchanged (u := { s with operationTail := rest }) htail rfl hsent
      (pairwise_of_ordinary count hrecovery)
    refine hafter _ ?_ hkept hall fun hr => ?_
    · rw [hsent.frame]
      rfl
    · rw [hsent.frame] at hr
      exact absurd (hidle.symm.trans hr) (by simp)
  | begun v _ _ hsent =>
    obtain ⟨hkept, hall⟩ := h.exchanged
      (u := { s with operationTail := rest }.setHandle .fresh) htail rfl hsent (by simp)
    refine hafter [.begin] ?_ hkept hall fun hr => ?_
    · rw [hsent.frame]
      rfl
    · cases hr
      exact ⟨rfl, by simp [Command.isTerminal]⟩
  | failed v commands error _ hcommands hsent =>
    obtain ⟨hkept, hall⟩ := h.exchanged
      (u := { s with operationTail := rest }.setHandle .fresh) htail rfl hsent (by
        rcases hcommands with rfl | rfl <;> simp [Command.isTerminal])
    refine hafter commands ?_ hkept hall fun hr => ?_
    · rw [hsent.frame]
      rfl
    · cases hr

variable {phase : Phase}

/-- The exchanges of a transaction that runs are of the call that holds the turn. -/
theorem Turns.inside (h : Turns s)
    (commands : List Command) (hrunning : s.running = some (call, phase))
    (hframe : t.line = s.line ∧ (t.running = s.running ∨ t.running = none))
    (hsent : t.sent = s.sent ++ commands.map (u.entry call))
    (hone : commands.Pairwise fun c d => ¬ (c.isTerminal = true ∧ d.isTerminal = true))
    (hfirst : (∃ c ∈ commands, c.isTerminal = true) →
      s.handle.state ≠ .rolledBack ∧ s.poisoned = none)
    (hended : t.running = s.running →
      (s.handle.state = .rolledBack ∨ s.poisoned.isSome = true ∨
        ∃ c ∈ commands, c.isTerminal = true) →
      t.handle.state = .rolledBack ∨ t.poisoned.isSome = true) : Turns t := by
  obtain ⟨hline, hturn⟩ := hframe
  obtain ⟨limit, hbelow, hahead, hlimit⟩ := h.turn
  obtain rfl := hlimit hrunning
  have hpast : ∀ x ∈ t.sent, x.call < call + 1 := by
    intro x hx
    rw [hsent] at hx
    rcases mem_append.mp hx with hx | hx
    · exact hbelow x hx
    · obtain ⟨c, -, rfl⟩ := mem_map.mp hx
      exact Nat.lt_succ_self _
  have hsame : ∀ {call' phase'}, t.running = some (call', phase') →
      call' = call ∧ t.running = s.running := by
    intro call' phase' hr
    rcases hturn with hturn | hturn
    · rw [hturn, hrunning] at hr
      cases hr
      exact ⟨rfl, hturn⟩
    · cases hturn.symm.trans hr
  refine ⟨hline ▸ h.waiting, ⟨call + 1, hpast, hline ▸ hahead, fun hr => by rw [(hsame hr).1]⟩, ?_,
    fun hr ⟨x, hx, hterminal, heq⟩ => ?_⟩
  · rw [hsent]
    refine h.kept.append u (fun x hx => Nat.le_of_lt_succ (hbelow x hx)) hone
      fun hterminal x hx hx' heq => ?_
    obtain ⟨hstate, hhealthy⟩ := hfirst hterminal
    rcases h.ended hrunning ⟨x, hx, hx', heq⟩ with hrolledBack | hpoisoned
    · exact hstate hrolledBack
    · rw [hhealthy] at hpoisoned
      cases hpoisoned
  · obtain ⟨rfl, hturn⟩ := hsame hr
    refine hended hturn ?_
    rw [hsent] at hx
    rcases mem_append.mp hx with hx | hx
    · exact (h.ended hrunning ⟨x, hx, hterminal, heq⟩).imp_right .inl
    · obtain ⟨c, hc, rfl⟩ := mem_map.mp hx
      exact .inr (.inr ⟨c, hc, hterminal⟩)

/-- A step of the running transaction that sends no terminal command. -/
theorem Turns.plain (h : Turns s)
    (commands : List Command) (hrunning : s.running = some (call, phase))
    (hframe : t.line = s.line ∧ (t.running = s.running ∨ t.running = none))
    (hsent : t.sent = s.sent ++ commands.map (u.entry call))
    (hplain : ∀ c ∈ commands, c.isTerminal = false)
    (hended : t.running = s.running → s.handle.state = .rolledBack ∨ s.poisoned.isSome = true →
      t.handle.state = .rolledBack ∨ t.poisoned.isSome = true) : Turns t := by
  have hnone : ¬ ∃ c ∈ commands, c.isTerminal = true := by
    rintro ⟨c, hc, hterminal⟩
    rw [hplain c hc] at hterminal
    cases hterminal
  refine h.inside commands hrunning hframe hsent (pairwise_of_plain hplain)
    (fun hc => absurd hc hnone) ?_
  rintro hturn (hs | hs | hc)
  · exact hended hturn (.inl hs)
  · exact hended hturn (.inr hs)
  · exact absurd hc hnone

variable {w : Waiting} {control : Admission} {late : Bool}

/-- An operation of a handle sends in the turn of its transaction. -/
theorem Turns.handleStarted {rest : List Waiting} (h : Turns s) (hchains : Chains s)
    (hrunning : s.running = some (call, phase)) (htail : s.handle.tail = w :: rest)
    (hstarted : HandleStarted (s.setHandle { s.handle with tail := rest }) call w late control
      replies t) : Turns t := by
  -- The chain was not drained, so the handle had not been rolled back.
  have hstate : s.handle.state ≠ .rolledBack := fun hs => by
    rw [hchains.handle.rolledBack_drained hs] at htail
    cases htail
  have hframe : t.line = s.line ∧ (t.running = s.running ∨ t.running = none) := by
    rw [hstarted.frame]
    exact ⟨rfl, .inl rfl⟩
  have hsilent : t.sent = s.sent ++ ([] : List Command).map (s.entry call) →
      t.poisoned = s.poisoned → Turns t := fun hsent hpoisoned =>
    h.plain [] hrunning hframe hsent (by simp) fun _ hended =>
      .inr (hpoisoned ▸ hended.resolve_left hstate)
  cases hstarted with
  | skipped => exact hsilent (by simp [State.noteFailure, State.setHandle]) rfl
  | statement v plan first _ hrun =>
    obtain ⟨commands, hstatement, hv⟩ := hrun.sent
    refine h.plain commands hrunning hframe (by rw [hv]; rfl)
      (fun c hc => by rw [hstatement c hc]; rfl) fun _ hended =>
        .inr (hrun.poisoned (hended.resolve_left hstate))
  | rolledBack v _ hhealthy hsent =>
    exact h.inside [.rollback] hrunning hframe (by rw [hsent.frame]; rfl)
      (pairwise_singleton _ _) (fun _ => ⟨hstate, hhealthy⟩) fun _ _ => .inl rfl
  | rollbackRefused => exact hsilent (by simp [State.noteFailure, State.setHandle]) rfl
  | rollbackFailed v failure first _ hhealthy hsent hpoisoned =>
    exact h.inside [.rollback] hrunning hframe (by rw [hsent.frame]; rfl)
      (pairwise_singleton _ _) (fun _ => ⟨hstate, hhealthy⟩) fun _ _ => .inr hpoisoned

variable {h : Handle}

theorem settlement_not_rolledBack (hneeds : h.settlement.needsControl = true) :
    h.state ≠ .rolledBack := by
  intro hstate
  simp [Handle.settlement, hstate, Settlement.needsControl] at hneeds

/-- The one terminal command that the settlement sends, if `rollback()` has not sent it
before. -/
theorem Turns.drained
    (h : Turns s) (hrunning : s.running = some (call, phase))
    (hdrained : Drained s call control t) : Turns t := by
  have hover : ∀ {u : State} (error : Option Failure) {p : Prop},
      (u.settle call error).running = s.running → p := fun _ _ hr => by
    rw [hrunning] at hr
    cases hr
  have hsilent : ∀ error, Turns (s.settle call error) := fun error =>
    h.plain (u := s) [] hrunning ⟨rfl, .inr rfl⟩ (by simp [State.settle])
      (by simp) fun hr => hover error hr
  have hsent : ∀ {u : State} {command : Command} (error : Option Failure),
      Exchanged call [command] s u → s.handle.settlement.needsControl = true →
      s.poisoned = none → Turns (u.settle call error) := by
    intro u command error hu hneeds hhealthy
    refine h.inside (u := s) [command] hrunning ?_ ?_ (pairwise_singleton _ _)
      (fun _ => ⟨settlement_not_rolledBack hneeds, hhealthy⟩) fun hr => hover error hr
    · rw [hu.frame]
      exact ⟨rfl, .inr rfl⟩
    · rw [hu.frame]
      rfl
  cases hdrained with
  | uncontrolled error => exact hsilent error
  | refused error => exact hsilent error
  | committed u error hready hhealthy hu => exact hsent error hu (by rw [hready]; rfl) hhealthy
  | rolledBack u error hneeds hhealthy hu => exact hsent error hu hneeds hhealthy

theorem Turns.setHandle (h : Turns s)
    (hstate : s.handle.state = .rolledBack → handle.state = .rolledBack) :
    Turns (s.setHandle handle) :=
  ⟨h.waiting, h.turn, h.kept, fun hr hx => (h.ended hr hx).imp_left hstate⟩

theorem Turns.sealed (h : Turns s)
    (hrunning : s.running = some (call, phase)) (phase' : Phase) :
    Turns { s with running := some (call, phase'), handle := s.handle.seal } := by
  have hstate : s.handle.state = .rolledBack → s.handle.seal.state = .rolledBack := fun hs => by
    simp [Handle.seal, hs]
  obtain ⟨limit, hsent, hahead, hlimit⟩ := h.turn
  refine ⟨h.waiting, ⟨limit, hsent, hahead, ?_⟩, h.kept, ?_⟩
  · rintro _ _ ⟨⟩
    exact hlimit hrunning
  · rintro _ _ ⟨⟩ hx
    exact (h.ended hrunning hx).imp_left hstate

theorem enqueue_rolledBack (op : HandleOperation) (hstate : h.state = .rolledBack) :
    (h.enqueue op).state = .rolledBack := by
  simp [Handle.enqueue, hstate]

variable {a : Action}

/-- **One step keeps the turns**, with no condition on expiring admissions. -/
theorem turns_step (h : Turns s) (hchains : Chains s) (hstep : step s a = some t) : Turns t := by
  cases step_cases hstep with
  | call op => exact h.enqueue op
  | handleCall op => exact h.setHandle (enqueue_rolledBack op)
  | sealed call phase hrunning => exact h.sealed hrunning phase
  | close => exact h.quiet (startClose_quiet s) (.inl (by unfold startClose; split <;> rfl))
  | expire hexpire => exact h.expire hexpire
  | handleExpire first _ => exact h.setHandle id
  | start hidle htail hstarted => exact h.started htail hidle hstarted
  | handleStart hrunning htail hstarted => exact h.handleStarted hchains hrunning htail hstarted
  | drained hrunning _ hdrained => exact h.drained hrunning hdrained
  | closeSettles closes _ =>
    exact h.quiet (finishClose_quiet s closes) (.inl (by unfold finishClose; split <;> rfl))

/-- A `rollback()` that was called while the handle was active waits in the chain until
the transaction is rolled back or failed, or the database is poisoned. -/
structure Requested (s : State) : Prop where
  waits : ∀ w ∈ s.handle.tail, w.operation = .rollback → w.expired = false
  called : s.handle.rollbackCalled = true →
    (∃ w ∈ s.handle.tail, w.operation = .rollback) ∨ s.handle.state = .rolledBack ∨
      s.handle.state = .failed ∨ s.poisoned.isSome = true ∨ s.running = none
  commits : ∀ x ∈ s.sent, x.command = .commit → x.pending = 0 ∧ x.rollbackCalled = false

theorem requested_opened (broker timeout : Bool) : Requested (opened broker timeout) where
  waits _ h := by cases h
  called h := by cases h
  commits _ h := by cases h

theorem Requested.quiet (h : Requested s) (hquiet : Quiet s t) : Requested t := by
  rw [hquiet]
  exact ⟨h.waits, h.called, h.commits⟩

/-- New exchanges keep the rule for commits if a new commit finds the handle drained and no
rollback called. -/
theorem commits_append
    (hlog : log = s.sent ++ commands.map (u.entry call))
    (h : ∀ x ∈ s.sent, x.command = .commit → x.pending = 0 ∧ x.rollbackCalled = false)
    (hnew : .commit ∈ commands → u.handle.tail = [] ∧ u.handle.rollbackCalled = false) :
    ∀ x ∈ log, x.command = .commit → x.pending = 0 ∧ x.rollbackCalled = false := by
  intro x hx hcommit
  rw [hlog] at hx
  rcases mem_append.mp hx with hx | hx
  · exact h x hx hcommit
  · obtain ⟨c, hc, rfl⟩ := mem_map.mp hx
    have hc' : c = .commit := hcommit
    obtain ⟨htail, hcalled⟩ := hnew (hc' ▸ hc)
    exact ⟨by simp [State.entry, htail], hcalled⟩

theorem Requested.started
    (h : Requested s) (hidle : s.running = none)
    (hstarted : Started { s with operationTail := rest } q replies t) : Requested t := by
  cases hstarted with
  | skipped => exact ⟨h.waits, h.called, h.commits⟩
  | ordinary _ count recovery _ hrecovery hsent =>
    have hsame := hsent.handle
    refine ⟨hsame ▸ h.waits, fun _ => ?_, ?_⟩
    · refine .inr (.inr (.inr (.inr ?_)))
      rw [hsent.frame]
      exact hidle
    · refine commits_append (congrArg State.sent hsent.frame) h.commits fun hc => ?_
      rcases hrecovery with rfl | rfl <;> simp at hc
  | begun v _ _ hsent =>
    have hhandle : v.handle = .fresh := hsent.handle
    refine ⟨fun w hw => ?_, fun hcalled => ?_, ?_⟩
    · simp [hhandle, Handle.fresh] at hw
    · simp [hhandle, Handle.fresh] at hcalled
    · exact commits_append (congrArg State.sent hsent.frame) h.commits (by simp)
  | failed v commands error _ hcommands hsent =>
    have hhandle : v.handle = .fresh := hsent.handle
    refine ⟨fun w hw => ?_, fun _ => .inr (.inr (.inr (.inr rfl))), ?_⟩
    · simp [State.settle, hhandle, Handle.fresh] at hw
    · refine commits_append (congrArg State.sent hsent.frame) h.commits fun hc => ?_
      rcases hcommands with rfl | rfl <;> simp at hc

/-- A `rollback()` that is admitted in time is recorded on the handle. -/
theorem Requested.handleStarted {rest : List Waiting} (h : Requested s) (hchains : Chains s)
    (hrunning : s.running = some (call, phase)) (htail : s.handle.tail = w :: rest)
    (hintime : ¬ (late = true ∧ w.operation = .rollback))
    (hstarted : HandleStarted (s.setHandle { s.handle with tail := rest }) call w late control
      replies t) : Requested t := by
  have hwaits : ∀ v ∈ rest, v.operation = .rollback → v.expired = false := fun v hv =>
    h.waits v (htail ▸ .tail _ hv)
  -- A `rollback()` further down the chain still waits there.
  have hcalled : w.operation ≠ .rollback → s.handle.rollbackCalled = true →
      (∃ v ∈ rest, v.operation = .rollback) ∨ s.handle.state = .failed ∨
        s.poisoned.isSome = true := by
    intro hop hc
    rcases h.called hc with ⟨v, hv, hv'⟩ | hstate | hstate | hpoisoned | hnone
    · rw [htail] at hv
      rcases mem_cons.mp hv with rfl | hv
      · exact absurd hv' hop
      · exact .inl ⟨v, hv, hv'⟩
    · rw [hchains.handle.rolledBack_drained hstate] at htail
      cases htail
    · exact .inr (.inl hstate)
    · exact .inr (.inr hpoisoned)
    · cases hrunning.symm.trans hnone
  cases hstarted with
  | skipped first hwhy =>
    refine ⟨hwaits, fun hc => ?_, h.commits⟩
    by_cases hop : w.operation = .rollback
    · -- The turn of `rollback()` is skipped on a poisoned database only.
      have hlate : late = false := by simpa [hop] using hintime
      refine .inr (.inr (.inr (.inl ?_)))
      rcases hwhy with hexpired | hlate' | hpoisoned | ⟨-, hteardown⟩
      · rw [h.waits w (htail ▸ (.head _)) hop] at hexpired
        cases hexpired
      · simp [hlate] at hlate'
      · exact hpoisoned
      · have hnot := hchains.calls.not_teardown (by simp [hrunning])
        exact absurd (hnot.symm.trans hteardown) (by decide)
    · rcases hcalled hop hc with hv | hstate | hpoisoned
      · exact .inl hv
      · exact .inr (.inr (.inl hstate))
      · exact .inr (.inr (.inr (.inl hpoisoned)))
  | statement v plan first hop hrun =>
    obtain ⟨commands, hstatement, hv⟩ := hrun.sent
    have hsame : v.handle.tail = rest ∧ v.handle.rollbackCalled = s.handle.rollbackCalled := by
      rw [hv]
      exact ⟨rfl, rfl⟩
    refine ⟨?_, fun hc => ?_, ?_⟩
    · show ∀ x ∈ v.handle.tail, _
      rw [hsame.1]
      exact hwaits
    · rcases hcalled (by simp [hop]) (hsame.2.symm.trans hc) with hx | hstate | hpoisoned
      · exact .inl (hsame.1.symm ▸ hx)
      · refine .inr (.inr (.inl ?_))
        rcases hrun.state with ⟨hkept, -⟩ | ⟨hfailed, -⟩
        · exact hkept.trans hstate
        · exact hfailed
      · exact .inr (.inr (.inr (.inl (hrun.poisoned hpoisoned))))
    · refine commits_append (congrArg State.sent hv) h.commits fun hc => ?_
      cases hstatement _ hc
  | rolledBack v hop _ hsent =>
    refine ⟨?_, fun _ => .inr (.inl rfl), ?_⟩
    · show ∀ x ∈ v.handle.tail, _
      rw [hsent.handle]
      exact hwaits
    · exact commits_append (congrArg State.sent hsent.frame) h.commits (by simp)
  | rollbackRefused failure first => exact ⟨hwaits, fun _ => .inr (.inr (.inl rfl)), h.commits⟩
  | rollbackFailed v failure first hop _ hsent =>
    refine ⟨?_, fun _ => .inr (.inr (.inl rfl)), ?_⟩
    · show ∀ x ∈ v.handle.tail, _
      rw [hsent.handle]
      exact hwaits
    · exact commits_append (congrArg State.sent hsent.frame) h.commits (by simp)

theorem settlement_ready (hready : h.settlement = .ready) :
    h.state ≠ .rolledBack ∧ h.state ≠ .failed := by
  constructor <;> intro hstate
  · simp [Handle.settlement, hstate] at hready
  · rcases hfailure : h.failure with _ | ⟨error, needsRollback⟩ <;>
      simp [Handle.settlement, hstate, hfailure] at hready

/-- So no commit follows a recorded rollback. -/
theorem Requested.drained
    (h : Requested s) (hrunning : s.running = some (call, phase)) (htail : s.handle.tail = [])
    (hdrained : Drained s call control t) : Requested t := by
  have hsettle : ∀ {u : State} (error : Option Failure), u.handle = s.handle →
      (∀ x ∈ u.sent, x.command = .commit → x.pending = 0 ∧ x.rollbackCalled = false) →
      Requested (u.settle call error) := by
    intro u error hhandle hcommits
    refine ⟨fun w hw => ?_, fun _ => .inr (.inr (.inr (.inr rfl))), hcommits⟩
    simp [State.settle, hhandle, htail] at hw
  cases hdrained with
  | uncontrolled error => exact hsettle error rfl h.commits
  | refused error => exact hsettle error rfl h.commits
  | committed u error hready hhealthy hu =>
    -- Nothing waits, nothing failed and nothing was rolled back: `rollback()` was not called.
    have hcalled : s.handle.rollbackCalled = false := by
      by_contra hc
      rcases h.called (by simpa using hc) with ⟨w, hw, -⟩ | hstate | hstate | hpoisoned | hnone
      · rw [htail] at hw
        cases hw
      · exact (settlement_ready hready).1 hstate
      · exact (settlement_ready hready).2 hstate
      · rw [hhealthy] at hpoisoned
        cases hpoisoned
      · rw [hrunning] at hnone
        cases hnone
    exact hsettle error hu.handle
      (commits_append (congrArg State.sent hu.frame) h.commits fun _ => ⟨htail, hcalled⟩)
  | rolledBack u error _ _ hu =>
    exact hsettle error hu.handle
      (commits_append (congrArg State.sent hu.frame) h.commits (by simp))

/-- A call on the handle: `rollback()` of an active handle joins the chain. -/
theorem Requested.enqueue (h : Requested s) (op : HandleOperation) :
    Requested (s.setHandle (s.handle.enqueue op)) := by
  unfold Handle.enqueue
  split <;> try exact h
  rcases op with plan | _
  · refine ⟨fun w hw hop => ?_, fun hc => ?_, h.commits⟩
    · rcases mem_append.mp hw with hw | hw
      · exact h.waits w hw hop
      · rw [mem_singleton.mp hw]
    · rcases h.called hc with ⟨w, hw, hop⟩ | hrest
      · exact .inl ⟨w, mem_append.mpr (.inl hw), hop⟩
      · exact .inr hrest
  · refine ⟨fun w hw hop => ?_, fun _ => .inl ⟨_, mem_append.mpr (.inr
      (.head _)), rfl⟩, h.commits⟩
    rcases mem_append.mp hw with hw | hw
    · exact h.waits w hw hop
    · rw [mem_singleton.mp hw]

theorem Requested.sealed (h : Requested s)
    (hrunning : s.running = some (call, phase)) (phase' : Phase) :
    Requested { s with running := some (call, phase'), handle := s.handle.seal } := by
  have hstate : s.handle.state = .rolledBack ∨ s.handle.state = .failed →
      s.handle.seal = s.handle := by
    rintro (hs | hs) <;> simp [Handle.seal, hs]
  have hsame : s.handle.seal.tail = s.handle.tail ∧
      s.handle.seal.rollbackCalled = s.handle.rollbackCalled := by
    unfold Handle.seal
    split <;> exact ⟨rfl, rfl⟩
  refine ⟨?_, fun hc => ?_, h.commits⟩
  · show ∀ w ∈ s.handle.seal.tail, _
    rw [hsame.1]
    exact h.waits
  · rcases h.called (hsame.2.symm.trans hc) with hw | hs | hs | hpoisoned | hnone
    · exact .inl (hsame.1.symm ▸ hw)
    · exact .inr (.inl ((congrArg Handle.state (hstate (.inl hs))).trans hs))
    · exact .inr (.inr (.inl ((congrArg Handle.state (hstate (.inr hs))).trans hs)))
    · exact .inr (.inr (.inr (.inl hpoisoned)))
    · cases hrunning.symm.trans hnone

theorem Requested.expire (h : Requested s) (hw : s.handle.tail[index]? = some w)
    (hop : w.operation ≠ .rollback) (first : Option Failure) :
    Requested (s.setHandle { s.handle with
      tail := s.handle.tail.set index { w with expired := true }, firstFailure := first }) := by
  refine ⟨fun v hv hv' => ?_, fun hc => ?_, h.commits⟩
  · rcases mem_or_eq_of_mem_set hv with hv | rfl
    · exact h.waits v hv hv'
    · exact absurd hv' hop
  · rcases h.called hc with ⟨v, hv, hv'⟩ | hrest
    · obtain ⟨i, hvi⟩ := mem_iff_getElem?.mp hv
      have hne : index ≠ i := by
        rintro rfl
        cases hw.symm.trans hvi
        exact hop hv'
      refine .inl ⟨v, mem_iff_getElem?.mpr ⟨i, ?_⟩, hv'⟩
      exact (List.getElem?_set_ne hne).trans hvi
    · exact .inr hrest

/-- **One step keeps the rule for commits**, unless it lets the admission of `rollback()`
expire. -/
theorem requested_step (h : Requested s) (hchains : Chains s) (hkept : ¬ RollbackExpires s a)
    (hstep : step s a = some t) : Requested t := by
  cases step_cases hstep with
  | call op => exact h.quiet (callOperation_quiet s op)
  | handleCall op => exact h.enqueue op
  | sealed call phase hrunning => exact h.sealed hrunning phase
  | close => exact h.quiet (startClose_quiet s)
  | expire hexpire => exact h.quiet (expireOperation_quiet hexpire)
  | handleExpire first hw => exact h.expire hw (fun hop => hkept ⟨_, hw, hop⟩) first
  | start hidle _ hstarted => exact h.started hidle hstarted
  | handleStart hrunning htail hstarted =>
    refine h.handleStarted hchains hrunning htail (fun hlate => hkept ?_) hstarted
    exact ⟨hlate.1, _, by simp [htail], hlate.2⟩
  | drained hrunning htail hdrained => exact h.drained hrunning htail hdrained
  | closeSettles closes _ => exact h.quiet (finishClose_quiet s closes)

/-- As long as the admission of no `rollback()` expires, `COMMIT` is sent after every
operation of the handle has settled and never after `rollback()`, and nothing is sent
between the commands of a transaction. -/
theorem commit_in_order (broker timeout : Bool) (schedule : List Action) (s : State)
    (hheld : Along step (fun s a => ¬ RollbackExpires s a) (opened broker timeout) schedule)
    (hrun : run step (opened broker timeout) schedule = some s) : s.InOrder := by
  have hinv : Requested s ∧ Turns s ∧ Chains s :=
    run_invariant_along (P := fun s => Requested s ∧ Turns s ∧ Chains s)
      (fun _ _ _ hi hkept hstep => ⟨requested_step hi.1 hi.2.2 hkept hstep,
        turns_step hi.2.1 hi.2.2 hstep, chains_step hi.2.2 hstep⟩)
      ⟨requested_opened broker timeout, turns_opened broker timeout, chains_opened broker timeout⟩
      hheld hrun
  exact ⟨hinv.1.commits, hinv.2.1.kept.undisturbed⟩

/-- `rollback()` is the terminal command, although the callback returns. -/
theorem commit_in_order_rolled_back :
    ∃ s, run step (opened true true) (begun ++ stated (completes "INSERT 0 1" .transaction) ++
        [.handleCall .rollback, .handleStart false .inTime (answers (completes "ROLLBACK" .idle)),
          .callbackReturns, .drained .inTime (completes "COMMIT" .idle)]) = some s ∧
      s.sent.map Sent.command = [.begin, .statement, .rollback] ∧ s.InOrder := by
  refine exists_run (f := fun s => s.sent.map Sent.command) (v := [.begin, .statement, .rollback])
    (by decide +kernel) fun s hrun hs => ?_
  exact ⟨hs, commit_in_order true true _ s (by decide +kernel) hrun⟩

/-- The admission of `rollback()` expires in the queue, its rejection is swallowed, and the
callback returns: `COMMIT` is sent. -/
theorem commit_after_expired_rollback :
    ∃ s, run step (opened true true) (begun ++ [.handleCall .rollback, .handleExpire 0,
        .handleStart false .inTime (answers (completes "ROLLBACK" .idle)), .callbackReturns,
        .drained .inTime (completes "COMMIT" .idle)]) = some s ∧ ¬ s.InOrder := by
  refine exists_run (f := fun s => s.sent.map fun x => (x.command, x.rollbackCalled))
    (v := [(.begin, false), (.commit, true)]) (by decide +kernel) fun s _ hs horder => ?_
  obtain ⟨x, hx, hvalues⟩ : ∃ x ∈ s.sent, (x.command, x.rollbackCalled) = (.commit, true) :=
    mem_map.mp (hs ▸ mem_cons_of_mem _ (.head _))
  have hcalled := (horder.1 x hx (congrArg Prod.fst hvalues)).2
  exact absurd (congrArg Prod.snd hvalues) (by simp [hcalled])

/-- **Exchanges follow the calls.** Whatever expires or fails, the exchanges are sent in the
order of the calls they belong to, a call sends one terminal command at most (the recovery
of an ordinary call is one), and a call that waits has sent nothing. One transaction at
most is live, and while it runs `close()` tears nothing down. -/
theorem exchanges_in_call_order (broker timeout : Bool) (schedule : List Action) (s : State)
    (hrun : run step (opened broker timeout) schedule = some s) :
    Kept s.sent ∧ (∀ x ∈ s.sent, ∀ q ∈ s.operationTail, x.call < q.call) ∧
      s.operationTail.countP Queued.live + s.running.isSome.toNat ≤ 1 ∧
      (s.running.isSome = true → s.closeTeardownStarted = false) := by
  have hinv : Turns s ∧ Chains s := run_invariant (P := fun s => Turns s ∧ Chains s)
    (fun _ _ _ hi hstep => ⟨turns_step hi.1 hi.2 hstep, chains_step hi.2 hstep⟩)
    ⟨turns_opened broker timeout, chains_opened broker timeout⟩ hrun
  obtain ⟨limit, hpast, hline, -⟩ := hinv.1.turn
  refine ⟨hinv.1.kept, fun x hx q hq => ?_, ?_, hinv.2.calls.not_teardown⟩
  · have hwaits : q.call ∈ s.line := mem_append_left _ (mem_map_of_mem hq)
    exact Nat.lt_of_lt_of_le (hpast x hx) (hline _ hwaits)
  · rw [hinv.2.calls.live]
    exact Bool.toNat_le _

/-- A statement opens a block and is rolled back; a transaction that was called meanwhile
then begins. -/
def recoveredThenBegun : List Action :=
  [.call (.structured .complete), .call .transaction,
    .start false { answers (completes "BEGIN" .transaction) with
      recovery := completes "ROLLBACK" .idle },
    .start false (answers (completes "BEGIN" .transaction))]

/-- The `ROLLBACK` of the first call precedes the `BEGIN` of the second. -/
theorem exchanges_in_call_order_recovered :
    ∃ s, run step (opened true true) recoveredThenBegun = some s ∧
      s.sent.map (fun x => (x.call, x.command)) = [(0, .ordinary), (0, .rollback), (1, .begin)] ∧
      Kept s.sent ∧ s.closeTeardownStarted = false := by
  refine exists_run (f := fun s => (s.sent.map fun x => (x.call, x.command), s.running.isSome))
    (v := ([(0, .ordinary), (0, .rollback), (1, .begin)], true)) (by decide +kernel)
    fun s hrun hs => ?_
  obtain ⟨hsent, hrunning⟩ := Prod.mk.inj hs
  obtain ⟨hkept, -, -, hclose⟩ := exchanges_in_call_order true true _ s hrun
  exact ⟨hsent, hkept, hclose hrunning⟩

end Oliphaunt.ReactNative
