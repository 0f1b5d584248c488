import Oliphaunt.TS.ReactNativeTurns

/-!
# Oliphaunt — the two chains of the React Native database

What holds in every state that an opened database can reach, whatever the
native module answers and whichever admissions expire: there is at most one
live transaction and no close attempt beside it, and `rollback()` is the last
operation of its handle's chain.
-/

namespace Oliphaunt.ReactNative

open Transition List

def Handle.operations (h : Handle) : List HandleOperation := h.tail.map Waiting.operation

/-- The calls of a database: a transaction that waits or runs is the only one, and no
close attempt is under way. -/
structure Calls (s : State) : Prop where
  live : s.operationTail.countP Queued.live + s.running.isSome.toNat = s.activeTransaction.toNat
  open_of_active : s.activeTransaction = true → s.closing = false ∧ s.closeTeardownStarted = false

/-- The chain of a handle. -/
structure Handle.Ordered (h : Handle) : Prop where
  rollback_last : h.operations.Pairwise fun op _ => op ≠ .rollback
  rollback_queued : .rollback ∈ h.operations → h.state = .finishing ∨ h.state = .failed
  rolledBack_drained : h.state = .rolledBack → h.tail = []

structure Chains (s : State) : Prop where
  calls : Calls s
  handle : s.handle.Ordered
  unowned : s.running = none → s.handle.tail = [] ∧ s.handle.state = .expired

theorem calls_opened (broker timeout : Bool) : Calls (opened broker timeout) :=
  ⟨rfl, nofun⟩

variable {s : State}

/-- What runs is a live transaction, -/
theorem Calls.active_of_running (h : Calls s) (hrunning : s.running.isSome = true) :
    s.activeTransaction = true := by
  have hlive := h.live
  cases hactive : s.activeTransaction with
  | true => rfl
  | false => simp [hrunning, hactive] at hlive

/-- and no teardown runs beside it. -/
theorem Calls.not_teardown (h : Calls s) (hrunning : s.running.isSome = true) :
    s.closeTeardownStarted = false :=
  (h.open_of_active (h.active_of_running hrunning)).2

variable {call : Nat} {t : State}

theorem Exchanged.calls (h : Exchanged call commands s t) (hs : Calls s) : Calls t := by
  rw [h.frame]
  exact ⟨hs.live, hs.open_of_active⟩

/-- A call enters the line, or is refused beside a live transaction or a close. -/
theorem Calls.enqueue (h : Calls s) (op : Operation) : Calls (callOperation s op) := by
  unfold callOperation
  split <;> try exact h
  rename_i havailable
  split <;> try exact h
  rename_i hactive
  have hclosing : s.closing = false ∧ s.closeTeardownStarted = false := by
    unfold State.assertAvailable at havailable
    split at havailable <;> try cases havailable
    split at havailable <;> try cases havailable
    split at havailable <;> try cases havailable
    simp_all
  refine ⟨?_, fun _ => hclosing⟩
  have hlive := h.live
  simp only [hactive, Bool.toNat_false, Nat.add_eq_zero_iff] at hlive
  simp only [countP_append, countP_singleton, Queued.live, Bool.not_false,
    Bool.and_true, decide_eq_true_eq, hlive]
  by_cases hop : op = .transaction <;> simp [hop]

variable {index : Nat}

theorem countP_live_set {queue : List Queued} (h : index < queue.length) :
    (queue.set index { queue[index] with expired := true }).countP Queued.live =
      queue.countP Queued.live - queue[index].live.toNat := by
  have hexpired : ({ queue[index] with expired := true } : Queued).live = false := by
    simp [Queued.live]
  rw [countP_set h, hexpired]
  by_cases hlive : queue[index].live = true <;> simp [hlive]

section

variable (h : Calls s)

include h

/-- An admission that expires takes its call out of the live ones. -/
theorem Calls.expire (hexpire : expireOperation s index = some t) : Calls t := by
  unfold expireOperation at hexpire
  split at hexpire <;> try cases hexpire
  rename_i q hq
  split at hexpire <;> cases hexpire
  rename_i hwaiting
  obtain ⟨hindex, rfl⟩ := List.getElem?_eq_some_iff.mp hq
  have hlive := h.live
  have hset := countP_live_set hindex
  by_cases hop : s.operationTail[index].operation = .transaction
  · have hq : s.operationTail[index].live = true := by
      simp [Queued.live, hop, hwaiting.2]
    have hpos : 0 < s.operationTail.countP Queued.live :=
      countP_pos_iff.mpr ⟨_, getElem_mem hindex, hq⟩
    have hactive := Bool.toNat_le s.activeTransaction
    refine ⟨?_, fun hfalse => by simp [hop] at hfalse⟩
    simp only [hop, if_true, Bool.toNat_false] at hset ⊢
    rw [hset]
    simp only [hq, Bool.toNat_true]
    omega
  · have hq : s.operationTail[index].live = false := by simp [Queued.live, hop]
    refine ⟨?_, fun hactive => h.open_of_active (by simpa [hop] using hactive)⟩
    simp only [hop, if_false]
    rw [hset, hq]
    exact hlive

/-- A close attempt is refused while a transaction is live. -/
theorem Calls.close : Calls (startClose s) := by
  unfold startClose
  split <;> try exact h
  rename_i hnot
  exact ⟨h.live, fun hactive => absurd (.inr (.inr hactive)) hnot⟩

theorem Calls.finishClose (hclosing : s.closing = true) (closes : Bool) :
    Calls (finishClose s closes) := by
  have hactive : s.activeTransaction ≠ true := fun hactive => by
    rw [(h.open_of_active hactive).1] at hclosing
    cases hclosing
  unfold ReactNative.finishClose
  split
  · exact ⟨h.live, fun hs => absurd hs hactive⟩
  · exact ⟨h.live, fun hs => absurd hs hactive⟩

/-- A running transaction is the live one, so that none is left when it settles. -/
theorem Calls.settle (hrunning : s.running.isSome = true) (call : Nat) (error : Option Failure) :
    Calls (s.settle call error) := by
  have hlive := h.live
  rw [hrunning, h.active_of_running hrunning] at hlive
  refine ⟨?_, nofun⟩
  show s.operationTail.countP Queued.live + 0 = 0
  omega

variable {q : Queued} {rest : List Queued}

theorem Calls.pop (htail : s.operationTail = q :: rest) (hidle : s.running = none) :
    rest.countP Queued.live + q.live.toNat = s.activeTransaction.toNat := by
  have hlive := h.live
  rw [htail, hidle, countP_cons] at hlive
  cases hq : q.live <;> simpa [hq] using hlive

variable {replies : Replies}

/-- The call at the front of the line runs or settles. -/
theorem Calls.started (htail : s.operationTail = q :: rest) (hidle : s.running = none)
    (hstarted : Started { s with operationTail := rest } q replies t) : Calls t := by
  have hpop := h.pop htail hidle
  have hle := Bool.toNat_le s.activeTransaction
  have hordinary : q.live = false → Calls { s with operationTail := rest } := by
    intro hq
    refine ⟨?_, h.open_of_active⟩
    show rest.countP Queued.live + s.running.isSome.toNat = s.activeTransaction.toNat
    simpa [hq, hidle] using hpop
  -- A live call takes the only transaction out of the chain.
  have hnone : q.live = true → rest.countP Queued.live = 0 ∧ s.activeTransaction = true := by
    intro hq
    rw [hq, Bool.toNat_true] at hpop
    refine ⟨by omega, ?_⟩
    cases hactive : s.activeTransaction with
    | true => rfl
    | false =>
      rw [hactive] at hpop
      simp at hpop
  cases hstarted with
  | skipped =>
    cases hq : q.live with
    | true =>
      refine ⟨?_, fun hfalse => by simp at hfalse⟩
      simp [(hnone hq).1, hidle]
    | false => exact hordinary hq
  | ordinary _ count recovery hq _ hsent => exact hsent.calls (hordinary hq)
  | begun u hq _ hsent =>
    obtain ⟨hrest, hactive⟩ := hnone hq
    have hclosing := h.open_of_active hactive
    rw [hsent.frame]
    refine ⟨?_, fun _ => hclosing⟩
    show rest.countP Queued.live + 1 = s.activeTransaction.toNat
    rw [hrest, hactive]
    rfl
  | failed u commands error hq _ hsent =>
    rw [hsent.frame]
    refine ⟨?_, nofun⟩
    show rest.countP Queued.live + 0 = 0
    rw [(hnone hq).1]

end

variable {h : Handle}

theorem ordered_of_nil (htail : h.tail = []) : h.Ordered := by
  refine ⟨?_, fun hmem => ?_, fun _ => htail⟩
  · simp [Handle.operations, htail]
  · simp [Handle.operations, htail] at hmem

theorem Handle.Ordered.congr {h' : Handle} (ho : h.Ordered)
    (hoperations : h'.operations = h.operations) (hstate : h'.state = h.state) : h'.Ordered := by
  refine ⟨hoperations ▸ ho.rollback_last, fun hmem => ?_, fun hrolledBack => ?_⟩
  · rw [hstate]
    exact ho.rollback_queued (hoperations ▸ hmem)
  · have hnil : h.tail = [] := ho.rolledBack_drained (hstate ▸ hrolledBack)
    rw [Handle.operations, Handle.operations, hnil] at hoperations
    simpa using hoperations

/-- Nothing is queued behind a `rollback()`. -/
theorem Handle.Ordered.enqueue (ho : h.Ordered) (op : HandleOperation) :
    (h.enqueue op).Ordered := by
  unfold Handle.enqueue
  split <;> try exact ho
  rename_i hactive
  have hnone : .rollback ∉ h.operations := fun hmem => by
    rcases ho.rollback_queued hmem with hstate | hstate <;> rw [hactive] at hstate <;> cases hstate
  have hlast : ∀ op' : HandleOperation,
      (h.operations ++ [op']).Pairwise fun op _ => op ≠ .rollback := by
    intro op'
    refine pairwise_append.mpr ⟨ho.rollback_last, pairwise_singleton _ _, ?_⟩
    rintro a ha b - rfl
    exact hnone ha
  cases op with
  | statement plan =>
    refine ⟨?_, fun hmem => ?_, fun hstate => ?_⟩
    · simpa [Handle.operations] using hlast (.statement plan)
    · simp only [Handle.operations, map_append, map_cons, map_nil,
        mem_append, mem_singleton, reduceCtorEq, or_false] at hmem
      exact absurd hmem hnone
    · exact absurd (hactive.symm.trans hstate) (by decide)
  | rollback =>
    refine ⟨?_, fun _ => .inl rfl, nofun⟩
    simpa [Handle.operations] using hlast .rollback

theorem Handle.Ordered.seal (ho : h.Ordered) : h.seal.Ordered := by
  unfold Handle.seal
  split
  · exact ⟨ho.rollback_last, fun _ => .inl rfl, nofun⟩
  · exact ho

variable {w : Waiting}

theorem operations_set {tail : List Waiting}
    (h : tail[index]? = some w) :
    (tail.set index { w with expired := true }).map Waiting.operation =
      tail.map Waiting.operation := by
  obtain ⟨hindex, rfl⟩ := List.getElem?_eq_some_iff.mp h
  have hself := @set_getElem_self _ (tail.map Waiting.operation) index (by simpa using hindex)
  simpa [map_set] using hself

theorem Handle.Ordered.pop (ho : h.Ordered) (htail : h.tail = w :: rest) :
    ({ h with tail := rest } : Handle).Ordered ∧ (w.operation = .rollback → rest = []) := by
  have hoperations : h.operations = w.operation :: rest.map Waiting.operation := by
    rw [Handle.operations, htail]
    rfl
  have hlast := hoperations ▸ ho.rollback_last
  refine ⟨⟨(pairwise_cons.mp hlast).2, fun hmem => ?_, fun hs => ?_⟩, fun hrollback => ?_⟩
  · exact ho.rollback_queued (hoperations ▸ .tail _ hmem)
  · rw [ho.rolledBack_drained hs] at htail
    cases htail
  · cases rest with
    | nil => rfl
    | cons w' rest' =>
      exact absurd hrollback ((pairwise_cons.mp hlast).1 _ (.head _))

variable {late : Bool} {control : Admission}

/-- Running an operation keeps the chain ordered. -/
theorem HandleStarted.ordered (ho : s.handle.Ordered)
    (hlast : w.operation = .rollback → s.handle.tail = [])
    (h : HandleStarted s call w late control replies t) : t.handle.Ordered := by
  cases h with
  | skipped => exact ho.congr rfl rfl
  | statement u plan first _ hrun =>
    obtain ⟨commands, -, hframe⟩ := hrun.sent
    have htail : u.handle.tail = s.handle.tail := by rw [hframe]
    have hoperations : (u.noteFailure first).handle.operations = s.handle.operations :=
      congrArg (List.map Waiting.operation) htail
    rcases hrun.state with ⟨hsame, -⟩ | ⟨hfailed, -⟩
    · exact ho.congr hoperations hsame
    · refine ⟨hoperations ▸ ho.rollback_last, fun _ => .inr hfailed, fun hs => ?_⟩
      exact absurd (hfailed.symm.trans hs) (by decide)
  | rolledBack u hop _ hsent =>
    refine ordered_of_nil ?_
    show u.handle.tail = []
    rw [hsent.handle]
    exact hlast hop
  | rollbackRefused _ _ hop => exact ordered_of_nil (hlast hop)
  | rollbackFailed u _ _ hop _ hsent =>
    refine ordered_of_nil ?_
    show u.handle.tail = []
    rw [hsent.handle]
    exact hlast hop

/-- An operation of a handle leaves the line of calls alone. -/
theorem HandleStarted.frame (h : HandleStarted s call w late control replies t) :
    t = { s with
      handle := t.handle, inBlock := t.inBlock, poisoned := t.poisoned, sent := t.sent } := by
  cases h with
  | skipped => rfl
  | statement u plan first _ hrun =>
    obtain ⟨commands, -, hframe⟩ := hrun.sent
    rw [hframe]
    rfl
  | rolledBack u _ _ hsent =>
    rw [hsent.frame]
    rfl
  | rollbackRefused => rfl
  | rollbackFailed u _ _ _ _ hsent =>
    rw [hsent.frame]
    rfl

theorem chains_opened (broker timeout : Bool) : Chains (opened broker timeout) :=
  ⟨calls_opened broker timeout, ordered_of_nil rfl, fun _ => ⟨rfl, rfl⟩⟩

/-- Steps that start nothing keep the chains. -/
theorem Chains.quiet (h : Chains s) (hcalls : Calls t) (hquiet : Quiet s t) :
    Chains t := by
  refine ⟨hcalls, ?_, ?_⟩
  · rw [hquiet]
    exact h.handle
  · rw [hquiet]
    exact h.unowned

theorem Chains.started
    (h : Chains s) (htail : s.operationTail = q :: rest) (hidle : s.running = none)
    (hstarted : Started { s with operationTail := rest } q replies t) : Chains t := by
  refine ⟨h.calls.started htail hidle hstarted, ?_, ?_⟩
  · cases hstarted with
    | skipped => exact h.handle
    | ordinary _ count recovery _ _ hsent =>
      rw [hsent.handle]
      exact h.handle
    | begun u _ _ hsent =>
      refine ordered_of_nil ?_
      show u.handle.tail = []
      rw [hsent.handle]
      rfl
    | failed u commands error _ _ hsent =>
      refine ordered_of_nil ?_
      show u.handle.tail = []
      rw [hsent.handle]
      rfl
  · intro hrunning
    cases hstarted with
    | skipped => exact h.unowned hidle
    | ordinary _ count recovery _ _ hsent =>
      rw [hsent.handle]
      exact h.unowned hidle
    | begun => cases hrunning
    | failed u commands error _ _ hsent =>
      refine ⟨?_, rfl⟩
      show u.handle.tail = []
      rw [hsent.handle]
      rfl

variable {phase : Phase}

section

variable (hrunning : s.running = some (call, phase))

include hrunning

theorem Chains.handleStarted (h : Chains s) (htail : s.handle.tail = w :: rest)
    (hstarted : HandleStarted
      (s.setHandle { s.handle with tail := rest }) call w late control replies t) :
    Chains t := by
  obtain ⟨hordered, hlast⟩ := h.handle.pop htail
  refine ⟨?_, hstarted.ordered hordered hlast, fun hnone => ?_⟩
  · rw [hstarted.frame]
    exact ⟨h.calls.live, h.calls.open_of_active⟩
  · rw [hstarted.frame] at hnone
    exact absurd (hrunning.symm.trans hnone) (by simp)

/-- A settlement ends the transaction with an empty chain. -/
theorem Chains.drained (h : Chains s) (htail : s.handle.tail = [])
    (hdrained : Drained s call control t) : Chains t := by
  have hsettle : ∀ {u : State} (error : Option Failure), Calls u → u.running.isSome = true →
      u.handle = s.handle → Chains (u.settle call error) := by
    intro u error hcalls hu hhandle
    have hnil : u.handle.tail = [] := hhandle ▸ htail
    exact ⟨hcalls.settle hu call error, ordered_of_nil hnil, fun _ => ⟨hnil, rfl⟩⟩
  have hsome : s.running.isSome = true := by simp [hrunning]
  have hsent : ∀ {u : State} {commands : List Command} (error : Option Failure),
      Exchanged call commands s u → Chains (u.settle call error) := by
    intro u commands error hu
    refine hsettle error (hu.calls h.calls) ?_ hu.handle
    rw [hu.frame]
    exact hsome
  cases hdrained with
  | uncontrolled error => exact hsettle error h.calls hsome rfl
  | refused error => exact hsettle error h.calls hsome rfl
  | committed u error _ _ hu => exact hsent error hu
  | rolledBack u error _ _ hu => exact hsent error hu

theorem Chains.sealed (h : Chains s) (phase' : Phase) :
    Chains { s with running := some (call, phase'), handle := s.handle.seal } := by
  have hlive := h.calls.live
  rw [hrunning] at hlive
  exact ⟨⟨hlive, h.calls.open_of_active⟩, h.handle.seal, nofun⟩

end

/-- **Every step keeps the two chains.** -/
theorem chains_step (h : Chains s) (hstep : step s a = some t) : Chains t := by
  cases step_cases hstep with
  | call op => exact h.quiet (h.calls.enqueue op) (callOperation_quiet s op)
  | handleCall op =>
    refine ⟨⟨h.calls.live, h.calls.open_of_active⟩, h.handle.enqueue op, fun hnone => ?_⟩
    have hexpired := (h.unowned hnone).2
    have hsame : s.handle.enqueue op = s.handle := by simp [Handle.enqueue, hexpired]
    show (s.handle.enqueue op).tail = [] ∧ (s.handle.enqueue op).state = .expired
    rw [hsame]
    exact h.unowned hnone
  | sealed call phase hrunning => exact h.sealed hrunning phase
  | close => exact h.quiet h.calls.close (startClose_quiet s)
  | expire hexpire => exact h.quiet (h.calls.expire hexpire) (expireOperation_quiet hexpire)
  | handleExpire first hw =>
    refine ⟨⟨h.calls.live, h.calls.open_of_active⟩, h.handle.congr (operations_set hw) rfl,
      fun hnone => ?_⟩
    rw [(h.unowned hnone).1] at hw
    cases hw
  | start hidle htail hstarted => exact h.started htail hidle hstarted
  | handleStart hrunning htail hstarted => exact h.handleStarted hrunning htail hstarted
  | drained hrunning htail hdrained => exact h.drained hrunning htail hdrained
  | closeSettles closes hclosing =>
    exact h.quiet (h.calls.finishClose hclosing closes) (finishClose_quiet s closes)

end Oliphaunt.ReactNative
