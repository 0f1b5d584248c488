import Oliphaunt.Rust.PinClients

/-!
# Oliphaunt — what the owner thread does to the custody of a pin

One `execute_command` keeps the custody invariant, whatever the engine answers,
as long as a readable `ReadyForQuery` tells the truth. Together with the client
steps this gives the result about whole runs (`no_pin_leak`).

* `pin_leaks_after_unpolled_begin` — the exception.
-/

namespace Oliphaunt.Rust

open Transition

/-- Only the block, the poison flag and what custody does not read change. -/
def Frame (s t : State) : Prop :=
  t.custody = { s.custody with block := t.block, poisoned := t.transactionPoisoned }

theorem Frame.refl (s : State) : Frame s s := rfl

variable {s t : State} {u : State}

theorem Frame.trans (h : Frame s t) (h' : Frame t u) : Frame s u := by
  unfold Frame at *
  rw [h', h]

theorem frame_exchange (s : State) (who : BlockOwner) (inBlock : Bool) :
    Frame s (s.exchange who inBlock) := rfl

theorem frame_exchangeBegin (s : State) (token : Nat) (inBlock : Bool) :
    Frame s (s.exchangeBegin token inBlock) := rfl

theorem frame_poison (s : State) : Frame s s.poison := rfl

theorem frame_rememberFailure (s : State) (error : Error) : Frame s (s.rememberFailure error) := by
  cases error <;> rfl

variable {inBlock : Bool}

theorem exchange_other_block {t : Nat}
    (h : (s.exchange .other inBlock).block = some (.pin t)) : s.block = some (.pin t) := by
  simp only [State.exchange] at h
  cases hblock : s.block <;> cases inBlock <;> simp_all

theorem exchange_pin_block {t u : Nat}
    (h : (s.exchange (.pin u) inBlock).block = some (.pin t)) :
    t = u ∨ s.block = some (.pin t) := by
  simp only [State.exchange] at h
  cases hblock : s.block <;> cases inBlock <;> simp_all

theorem exchange_block_of_idle {who : BlockOwner}
    (h : inBlock = false) : (s.exchange who inBlock).block = none := by
  simp [State.exchange, h]

variable {o : Outcome Error}

theorem inBlock_of_rollbackConfirmed (ho : o.Honest) (hconfirmed : rollbackConfirmed o = true) :
    o.inBlock = false := by
  have hconfirmed := of_decide_eq_true hconfirmed
  unfold parseExchange at hconfirmed
  split at hconfirmed <;> try cases hconfirmed
  rename_i r hresult
  cases hparse : r.parseCommand with
  | error message =>
    rw [hparse] at hconfirmed
    cases hconfirmed
  | ok result =>
    rw [hparse] at hconfirmed
    have hidle : result.readyStatus = .idle := by
      simp only [Except.mapError, Except.ok.injEq] at hconfirmed
      rw [hconfirmed]
    have hready := Response.parseCommand_ready hparse
    rw [hidle] at hready
    exact ho.idle hresult hready

/-- Work outside every pin starts no block of a pin. -/
def Unpinned (s t : State) : Prop :=
  Frame s t ∧ (t.transactionPoisoned = false → s.transactionPoisoned = false ∧
    ∀ u, t.block = some (.pin u) → s.block = some (.pin u))

/-- A command that touches no pin keeps the custody invariant. -/
theorem inv_of_unpinned (hs : Inv s.custody) (h : Unpinned s t) :
    Inv t.custody := by
  rw [h.1]
  constructor
  · exact hs.held.frame _ _ _
  · intro hp
    obtain ⟨hpoisoned, hblock⟩ := h.2 hp
    exact ((hs.clean hpoisoned).setBlock hblock).frame _ _ _ _

theorem Unpinned.poison (h : Frame s t) : Unpinned s t.poison :=
  ⟨h.trans (frame_poison t), nofun⟩

theorem Unpinned.exchange (s : State) (inBlock : Bool) : Unpinned s (s.exchange .other inBlock) :=
  ⟨frame_exchange .., fun hp => ⟨hp, fun _ => exchange_other_block⟩⟩

theorem Unpinned.trans (h : Unpinned s t) (h' : Unpinned t u) : Unpinned s u := by
  refine ⟨h.1.trans h'.1, fun hp => ?_⟩
  obtain ⟨hpoisoned, hblock⟩ := h'.2 hp
  exact ⟨(h.2 hpoisoned).1, fun pin hpin => (h.2 hpoisoned).2 pin (hblock pin hpin)⟩

theorem executeRawOperation_unpinned (s : State) (e : Engine) :
    Unpinned s (executeRawOperation s .other e).1 := by
  have hcalled := Unpinned.exchange s e.first.inBlock
  unfold executeRawOperation
  split <;> try exact hcalled
  split
  · exact .poison (hcalled.1.trans (frame_rememberFailure ..))
  · exact hcalled

theorem executeStructuredOperation_unpinned (s : State) (operation : String) (e : Engine) :
    Unpinned s (executeStructuredOperation s operation e).1 := by
  have hcalled := Unpinned.exchange s e.first.inBlock
  unfold executeStructuredOperation
  split
  · exact .poison hcalled.1
  · split
    · exact .poison hcalled.1
    · exact hcalled
    · have hrecovered := hcalled.trans (.exchange _ e.second.inBlock)
      dsimp only
      split
      · exact hrecovered
      · exact .poison hrecovered.1

theorem executeStream_unpinned (s : State) (e : Engine) : Unpinned s (executeStream s e).1 := by
  have hcalled := Unpinned.exchange s e.streamInBlock
  unfold executeStream
  split
  · exact hcalled
  · exact hcalled
  · exact .poison (hcalled.1.trans (frame_rememberFailure ..))

theorem executeBackup_unpinned (s : State) (e : Engine) : Unpinned s (executeBackup s e).1 := by
  unfold executeBackup
  split
  · exact .poison (frame_rememberFailure ..)
  · exact ⟨Frame.refl s, fun hp => ⟨hp, fun _ hu => hu⟩⟩

/-- `BEGIN`: without poison, a block is left only together with success. -/
theorem beginTransaction_frame (s : State) (token : Nat) {e : Engine} (he : e.Honest) :
    Frame s (beginTransaction s token e).1 ∧
      ((beginTransaction s token e).1.transactionPoisoned = false →
        s.transactionPoisoned = false ∧
          ∀ t, (beginTransaction s token e).1.block = some (.pin t) →
            t = token ∧ (beginTransaction s token e).2 = .ok ()) := by
  have hbegan : Frame s (s.exchangeBegin token e.first.inBlock) := frame_exchangeBegin _ _ _
  have hblock : ∀ t, (s.exchangeBegin token e.first.inBlock).block = some (.pin t) →
      t = token := by
    intro t ht
    simp only [State.exchangeBegin] at ht
    cases hin : e.first.inBlock <;> simp_all
  unfold beginTransaction
  split
  · exact ⟨hbegan.trans (frame_poison _), nofun⟩
  · rename_i response hresult
    dsimp only
    split
    · exact ⟨hbegan, fun hp => ⟨hp, fun t ht => ⟨hblock t ht, rfl⟩⟩⟩
    · split
      · rename_i hready
        refine ⟨hbegan, fun hp => ⟨hp, fun t ht => ?_⟩⟩
        simp [State.exchangeBegin, he.1.idle hresult hready] at ht
      · exact ⟨hbegan.trans (frame_poison _), nofun⟩
      · have hrecovered := hbegan.trans (frame_exchange _ (.pin token) e.second.inBlock)
        split
        · rename_i hconfirmed
          refine ⟨hrecovered, fun hp => ⟨hp, fun t ht => ?_⟩⟩
          rw [exchange_block_of_idle (inBlock_of_rollbackConfirmed he.2 hconfirmed)] at ht
          cases ht
        · exact ⟨hrecovered.trans (frame_poison _), nofun⟩

/-- `rollback_active_pin` of the active pin clears it; without poison no block
is left. -/
theorem rollbackActivePin_custody (token : Nat) (ho : o.Honest) (hpin : s.activePin = some token) :
    ∃ block p, (rollbackActivePin s token o).custody =
        { s.custody with activePin := none, block := block, poisoned := p } ∧
      (p = false → s.transactionPoisoned = false ∧ block = none) := by
  unfold rollbackActivePin
  rw [if_neg (not_not.mpr hpin)]
  split
  · rename_i hpoisoned
    refine ⟨s.block, s.transactionPoisoned, rfl, fun hp => ?_⟩
    cases hpoisoned.symm.trans hp
  · rename_i hpoisoned
    dsimp only
    split
    · rename_i hconfirmed
      exact ⟨_, s.transactionPoisoned, rfl,
        fun hp => ⟨hp, exchange_block_of_idle (inBlock_of_rollbackConfirmed ho hconfirmed)⟩⟩
    · exact ⟨_, true, rfl, nofun⟩

theorem rollbackActivePin_current (s : State) (token : Nat) (o : Outcome Error) :
    (rollbackActivePin s token o).current = s.current := by
  unfold rollbackActivePin
  split
  · rfl
  · split
    · rfl
    · dsimp only
      split <;> rfl

variable {c : Nat}

section

variable (hs : Inv s.custody)

include hs

theorem inv_sendBegin_error {error : Error} : Inv (s.sendBegin c (.error error)).1.custody := by
  unfold State.sendBegin
  split <;> try exact hs
  rename_i hclient
  exact hs.move_untokened hclient rfl (by simp) rfl fun _ _ h => h

/-- The reply to a control is stored with the future that waits for it; an idle
boundary in it means that the pin has no block any more. -/
theorem inv_sendControl {value : Except Error Response}
    (hclean : s.custody.poisoned = false →
      (∀ u control, Command.pinnedExec u c control ∉ s.custody.pending) ∧
      ∀ t r, (s.clients c).token = some t → value = .ok r → r.ready = .ok .idle →
        s.block ≠ some (.pin t)) :
    Inv (s.sendControl c value).custody := by
  have hreply : ∀ t v, (s.clients c).Owns t → v.InTransaction t →
      (∀ g, LocalOk s.block (s.clients c) g → s.custody.poisoned = false →
        LocalOk s.block v g) →
      Inv (s.setClient c v).custody := by
    intro t v hown hv hlocal
    rw [custody_setClient]
    refine ⟨hs.held.move hown hv, fun hp => ?_⟩
    have hk := hs.clean hp
    exact hk.setClient (hlocal _ (hk.locals c) hp)
      (fun u control hmem => absurd hmem ((hclean hp).1 u control))
      (fun u hu => statement_move hown hv.owns.1 hu)
  unfold State.sendControl
  split
  · rename_i t settling hclient
    refine hreply t _ (by rw [hclient]; exact ⟨rfl, by simp⟩)
      (.inr (.inr (.inl ⟨_, _, rfl⟩))) (fun g hg hp => ?_)
    rw [hclient] at hg
    exact ⟨hg, fun r hr hidle => (hclean hp).2 t r (by rw [hclient]; rfl) hr hidle⟩
  · rename_i t hclient
    refine hreply t _ (by rw [hclient]; exact ⟨rfl, by simp⟩)
      (.inr (.inr (.inr ⟨_, rfl⟩))) (fun g hg hp => ?_)
    rw [hclient] at hg
    exact ⟨hg, fun r hr hidle => (hclean hp).2 t r (by rw [hclient]; rfl) hr hidle⟩
  · exact hs

theorem inv_sendRelease {value : Except Error Unit} : Inv (s.sendRelease c value).custody := by
  unfold State.sendRelease
  split <;> try exact hs
  rename_i t hclient
  have hclient : s.custody.clients c = .release t none := hclient
  have hnone := not_owns_of_release hclient
  rw [custody_setClient]
  constructor
  · refine hs.held.setClient (fun u hu => ?_) (fun u hu => ?_)
      (fun u hu => absurd hu (hnone u))
    · rw [hclient]
      exact hu
    · exact absurd hu (not_owns_of_release rfl u)
  · intro hp
    have hk := hs.clean hp
    have hlocal := hk.locals c
    rw [hclient] at hlocal
    exact hk.setClient hlocal
      (fun u control hmem => absurd hmem (hk.no_control (.inr hnone) u control))
      (fun u hu => by rw [hclient] at hu; exact hu.imp id nofun)

end

/-- Replies with an error change neither tokens nor what is known locally. -/
def Answered (s t : State) : Prop :=
  t = { s with clients := t.clients } ∧
    ∀ c, (t.clients c).token = (s.clients c).token ∧
      ∀ block g, LocalOk block (s.clients c) g → LocalOk block (t.clients c) g

theorem Answered.refl (s : State) : Answered s s := ⟨rfl, fun _ => ⟨rfl, fun _ _ h => h⟩⟩

theorem Answered.trans (h : Answered s t) (h' : Answered t u) : Answered s u := by
  refine ⟨?_, fun c => ⟨(h'.2 c).1.trans (h.2 c).1, fun block g hg =>
    (h'.2 c).2 block g ((h.2 c).2 block g hg)⟩⟩
  rw [h'.1, h.1]

theorem answered_setClient {u v : Client} (hclient : s.clients c = u) (htoken : v.token = u.token)
    (hlocal : ∀ block g, LocalOk block u g → LocalOk block v g) : Answered s (s.setClient c v) := by
  subst hclient
  refine ⟨rfl, fun d => ?_⟩
  by_cases hdc : d = c
  · subst hdc
    simpa [State.setClient] using ⟨htoken, hlocal⟩
  · simp [State.setClient, hdc]

theorem answered_dropCommand (s : State) (cmd : Command) : Answered s (s.dropCommand cmd) := by
  induction cmd with
  | cancellable cmd request ih => exact ih
  | begin c =>
    simp only [State.dropCommand, State.sendBegin]
    split
    · rename_i hclient
      exact answered_setClient hclient rfl fun _ _ h => h
    · exact Answered.refl s
  | pinnedExec token c control =>
    simp only [State.dropCommand, State.sendControl]
    split
    · rename_i hclient
      exact answered_setClient hclient rfl fun _ _ h => ⟨h, nofun⟩
    · rename_i hclient
      exact answered_setClient hclient rfl fun _ _ h => ⟨h, nofun⟩
    · exact Answered.refl s
  | releasePin token reply =>
    cases reply with
    | none => exact Answered.refl s
    | some c =>
      simp only [State.dropCommand, State.sendRelease]
      split
      · rename_i hclient
        exact answered_setClient hclient rfl fun _ _ h => h
      · exact Answered.refl s
  | _ => exact Answered.refl s

theorem answered_foldl (queue : List Command) (s : State) :
    Answered s (queue.foldl State.dropCommand s) := by
  induction queue generalizing s with
  | nil => exact Answered.refl s
  | cons cmd rest ih => exact (answered_dropCommand s cmd).trans (ih (s.dropCommand cmd))

/-- When the owner stops, the commands that are still queued are dropped, and each of their
futures is told. -/
theorem inv_stop (hs : Inv s.custody) (hcurrent : s.current = none)
    (hpin : s.activePin = none) : Inv s.stop.custody := by
  obtain ⟨hframe, hclients⟩ := answered_foldl s.queue s
  generalize (s.queue.foldl State.dropCommand s).clients = clients at hframe hclients
  have hcustody : s.stop.custody = { s.custody with
      pending := [], activePin := none, teardownStarted := true, closed := true,
      clients := clients } := by
    simp only [State.custody, State.pending, State.stop]
    rw [hframe, hcurrent, hpin]
    rfl
  rw [hcustody]
  constructor
  · refine
      { teardown := fun _ => rfl
        stopped := fun _ => ⟨rfl, rfl⟩
        fresh_pin := by simp
        fresh_client := fun c t ht => hs.held.fresh_client c t ((hclients c).1 ▸ ht)
        fresh_release := by simp
        unique := fun c d t hc hd =>
          hs.held.unique c d t ((hclients c).1 ▸ hc) ((hclients d).1 ▸ hd)
        held := by simp
        disowned := by simp
        wrapped := fun cmd request hcmd => by cases hcmd }
  · intro hp
    have hk := hs.clean hp
    refine
      { block_pin := fun t ht => ?_
        locals := fun c => (hclients c).2 _ _ (hk.locals c)
        queued := by simp
        once := List.nodup_nil }
    have hactive := hk.block_pin t ht
    rw [show s.custody.activePin = none from hpin] at hactive
    cases hactive

/-- The owner takes the command it has received. -/
def State.take (s : State) : State := { s with current := none }

variable {cmd : Command}

theorem pending_of_current (h : s.current = some cmd) :
    s.custody.pending = cmd :: s.queue := by
  simp [State.custody, State.pending, h]

theorem mem_pending_of_current (h : s.current = some cmd) : cmd ∈ s.custody.pending := by
  rw [pending_of_current h]
  exact List.mem_cons_self

/-- The command under way is done without effect: it released no pin that is active. -/
theorem inv_skip (hs : Inv s.custody) (hcur : s.current = some cmd)
    (hrelease : ∀ t, cmd.Releases t → s.activePin ≠ some t) : Inv s.take.custody where
  held := hs.held.pop (pending_of_current hcur) (.inl rfl) hrelease
  clean := fun hp => (hs.clean hp).pop (pending_of_current hcur)

/-- A command that releases nothing may be taken from the queue. -/
theorem inv_take (hs : Inv s.custody) (hcur : s.current = some cmd)
    (hrelease : ∀ t, ¬ cmd.Releases t) : Inv s.take.custody :=
  inv_skip hs hcur fun t ht => absurd ht (hrelease t)

theorem not_closed_of_current (hs : Held s.custody)
    (hcur : s.current = some cmd) : s.custody.closed = false := by
  by_contra hclosed
  rw [Bool.not_eq_false] at hclosed
  have hempty := (hs.stopped hclosed).2
  rw [pending_of_current hcur] at hempty
  cases hempty

variable {e : Engine}

/-- Plain work keeps custody, with or without a pin. -/
theorem inv_execute_plain (hs : Inv s.custody)
    (hplain : cmd.IsPlain) : Inv (executeCommand s e cmd).1.custody := by
  cases cmd with
  | exec | structuredExec | stream | backup | backupTo =>
    simp only [executeCommand]
    split <;> try exact hs
    first
      | exact inv_of_unpinned hs (executeRawOperation_unpinned s e)
      | exact inv_of_unpinned hs (executeStructuredOperation_unpinned s _ e)
      | exact inv_of_unpinned hs (executeStream_unpinned s e)
      | exact inv_of_unpinned hs (executeBackup_unpinned s e)
  | _ => exact hplain.elim

theorem dropCommand_of_plain (hplain : cmd.IsPlain) :
    s.dropCommand cmd = s := by
  cases cmd <;> first | rfl | exact hplain.elim

variable {token : Nat}

/-- An exchange for the active pin, made for the future that owns it. -/
theorem inv_exchange_owned (hs : Inv s.custody)
    (hpin : s.activePin = some token)
    (hopen : s.custody.poisoned = false → (s.clients c).Owns token ∧
      ∀ block, LocalOk block (s.clients c) (s.guards c).state) :
    Inv (s.exchange (.pin token) inBlock).custody := by
  refine ⟨hs.held.frame _ _ _, fun hp => ?_⟩
  obtain ⟨hown, hlocal⟩ := hopen hp
  have hk := hs.clean hp
  refine Clean.setBlock_owned (b := (s.exchange (.pin token) inBlock).block) hs.held hk hpin
    hown (fun t ht => ?_) (hlocal _)
  rcases exchange_pin_block ht with htoken | hblock
  · exact htoken
  · have hactive := hk.block_pin t hblock
    rw [show s.custody.activePin = some token from hpin] at hactive
    exact (Option.some.inj hactive).symm

variable {block : Option BlockOwner}

/-- An active guard leaves only the callback and its return. -/
theorem LocalOk.client_of_active {c : Client} (h : LocalOk block c .active)
    (htoken : c.token = some token ∨ c = .gone) : c = .body token ∨ ∃ b, c = .settle token b := by
  cases c with
  | body t => simp_all [Client.token]
  | settle t b => simp_all [Client.token]
  | rollback t b reply => cases reply <;> simp_all [LocalOk]
  | commit t reply => cases reply <;> simp_all [LocalOk]
  | _ => simp_all [LocalOk]

/-- A statement of the callback, executed for the future that owns the pin. -/
theorem inv_execute_statement {op : Nat} {operation : String}
    (hs : Inv s.custody) (hcur : s.current = some (.pinnedStructuredExec token c op operation)) :
    Inv (executeCommand s.take e (.pinnedStructuredExec token c op operation)).1.custody := by
  have htaken := inv_take hs hcur (fun t ht => ht)
  simp only [executeCommand]
  split <;> try exact htaken
  rename_i hpin
  unfold executeTransactionStructuredOperation
  split <;> try exact htaken
  rename_i hactive
  have hactive : (s.take.guards c).state = .active := not_not.mp hactive
  have hinv : Inv (s.take.exchange (.pin token) e.first.inBlock).custody := by
    refine inv_exchange_owned (c := c) htaken hpin (fun hp => ?_)
    have hlocal := (htaken.clean hp).locals c
    rw [show s.take.custody.guards c = _ from hactive] at hlocal
    have hqueued := (hs.clean hp).queued _
      (mem_pending_of_current hcur)
    rw [hactive]
    rcases hlocal.client_of_active hqueued with hbody | ⟨b, hsettle⟩
    · rw [show s.take.clients c = _ from hbody]
      exact ⟨⟨rfl, by simp⟩, fun block => .inl rfl⟩
    · rw [show s.take.clients c = _ from hsettle]
      exact ⟨⟨rfl, by simp⟩, fun block => rfl⟩
  have hfailed : ∀ error, Inv (failTransactionGuard
      (s.take.exchange (.pin token) e.first.inBlock) c error).custody := by
    intro error
    unfold failTransactionGuard
    rw [custody_poison, custody_setGuard]
    exact ⟨(hinv.held.setGuard c _).poison, nofun⟩
  split
  · exact hfailed _
  · split
    · exact hinv
    · exact hfailed _

variable {c : Nat}

/-- `COMMIT` or `ROLLBACK` of a pin, with its reply. -/
theorem inv_execute_control (he : e.Honest) {token : Nat} {control : Control} (hs : Inv s.custody)
    (hcur : s.current = some (.pinnedExec token c control)) :
    Inv (executeCommand s.take e (.pinnedExec token c control)).1.custody := by
  have htaken := inv_take hs hcur (fun t ht => ht)
  have hqueued : s.custody.poisoned = false → PendingOk s.custody (.pinnedExec token c control) :=
    fun hp => (hs.clean hp).queued _ (mem_pending_of_current hcur)
  have hown : s.custody.poisoned = false → (s.custody.clients c).Owns token := fun hp =>
    ((hs.clean hp).control_token (mem_pending_of_current hcur)).2
  -- the executed control was the only one of its pin
  have hnone : s.custody.poisoned = false → ∀ u other,
      Command.pinnedExec u c other ∉ s.take.custody.pending := by
    intro hp u other hmem
    have hk := hs.clean hp
    have howns := ((htaken.clean hp).control_token hmem).2
    have hu : u = token := (hown hp).unique_token howns.1
    have honce := hk.once
    rw [pending_of_current hcur] at honce
    simp only [List.filterMap_cons, Command.controlToken, List.nodup_cons] at honce
    exact honce.1 (List.mem_filterMap.mpr ⟨_, hmem, by rw [hu]; rfl⟩)
  simp only [executeCommand]
  split
  · exact inv_sendControl htaken (fun hp => ⟨hnone hp, by simp⟩)
  · rename_i hpin
    have hpin : s.take.activePin = some token := not_not.mp hpin
    split
    · exact inv_sendControl htaken (fun hp => ⟨hnone hp, by simp⟩)
    · have hinv : Inv (s.take.exchange (.pin token) e.first.inBlock).custody := by
        refine inv_exchange_owned (c := c) htaken hpin (fun hp => ⟨hown hp, fun block => ?_⟩)
        obtain ⟨hguard, hbody | ⟨settling, hrollback⟩ | hcommit⟩ := hqueued hp
        · rw [show s.take.clients c = _ from hbody]
          exact .inr (.inl hguard)
        · rw [show s.take.clients c = _ from hrollback]
          exact hguard
        · rw [show s.take.clients c = _ from hcommit]
          exact hguard
      unfold executeRawOperation
      split
      · rename_i error hresult
        split
        · refine inv_sendControl ?_ (by rintro ⟨⟩)
          rw [custody_poison, frame_rememberFailure]
          exact ⟨(hinv.held.frame _ _ _).poison, by rintro ⟨⟩⟩
        · exact inv_sendControl hinv (fun hp => ⟨hnone hp, by simp⟩)
      · rename_i response hresult
        refine inv_sendControl hinv (fun hp => ⟨hnone hp, fun t r _ hr hidle => ?_⟩)
        cases hr
        rw [exchange_block_of_idle (he.1.idle hresult hidle)]
        simp

variable {k : Custody}

theorem Held.bump (h : Held k) : Held { k with nextPin := k.nextPin + 1 } :=
  { h with
    fresh_pin := fun t ht => Nat.lt_succ_of_lt (h.fresh_pin t ht)
    fresh_client := fun c t ht => Nat.lt_succ_of_lt (h.fresh_client c t ht)
    fresh_release := fun cmd hcmd t ht => Nat.lt_succ_of_lt (h.fresh_release cmd hcmd t ht) }

/-- `Begin` hands the next token to the future that waits for it. -/
theorem Held.grant (h : Held k) (hopen : k.closed = false)
    (hclient : k.clients c = .beginning none) :
    Held ({ k with nextPin := k.nextPin + 1, activePin := some k.nextPin }.setClient c
      (.beginning (some (.ok k.nextPin)))) := by
  have htokens : ∀ d t, ((Function.update k.clients c
      (.beginning (some (.ok k.nextPin)))) d).token = some t →
      (d = c ∧ t = k.nextPin) ∨ (d ≠ c ∧ (k.clients d).token = some t) := by
    intro d t hd
    by_cases hdc : d = c
    · subst hdc
      rw [Function.update_self] at hd
      cases hd
      exact .inl ⟨rfl, rfl⟩
    · rw [Function.update_of_ne hdc] at hd
      exact .inr ⟨hdc, hd⟩
  refine
    { teardown := h.teardown
      stopped := fun hclosed => by
        rw [show _ = k.closed from rfl, hopen] at hclosed
        cases hclosed
      fresh_pin := fun t ht => by
        cases ht
        exact Nat.lt_succ_self _
      fresh_client := fun d t hd => by
        rcases htokens d t hd with ⟨-, rfl⟩ | ⟨-, hd⟩
        · exact Nat.lt_succ_self _
        · exact Nat.lt_succ_of_lt (h.fresh_client d t hd)
      fresh_release := fun cmd hcmd t ht => Nat.lt_succ_of_lt (h.fresh_release cmd hcmd t ht)
      unique := ?_
      held := fun t ht => by
        cases ht
        exact .inl ⟨c, by simp [Custody.setClient, Client.Owns, Client.token]⟩
      disowned := ?_
      wrapped := h.wrapped }
  · intro d d' t hd hd'
    rcases htokens d t hd with ⟨rfl, rfl⟩ | ⟨hdc, hd⟩
    · rcases htokens d' _ hd' with ⟨rfl, -⟩ | ⟨-, hd'⟩
      · rfl
      · exact absurd (h.fresh_client d' _ hd') (Nat.lt_irrefl _)
    · rcases htokens d' t hd' with ⟨-, rfl⟩ | ⟨-, hd'⟩
      · exact absurd (h.fresh_client d _ hd) (Nat.lt_irrefl _)
      · exact h.unique d d' t hd hd'
  · intro cmd hcmd t ht d hd
    rcases htokens d t hd.1 with ⟨-, rfl⟩ | ⟨hdc, -⟩
    · exact absurd (h.fresh_release cmd hcmd _ ht) (Nat.lt_irrefl _)
    · exact h.disowned cmd hcmd t ht d (by simpa [Custody.setClient, hdc] using hd)

/-- Without poison, the block of a fresh pin is the only block of a pin. -/
theorem Clean.grant (hheld : Held k) (h : Clean k) (hclient : k.clients c = .beginning none)
    (hblock : ∀ t, block = some (.pin t) → t = k.nextPin) :
    Clean ({ k with
      nextPin := k.nextPin + 1, activePin := some k.nextPin, block := block }.setClient
      c (.beginning (some (.ok k.nextPin)))) := by
  have hset := h.setClient (c := c) (v := .beginning (some (.ok k.nextPin)))
    (by have hlocal := h.locals c; rw [hclient] at hlocal; exact hlocal)
    (fun t control hmem => absurd hmem (h.no_control
      (.inr (Client.not_owns_of_untokened (by rw [hclient]; rfl))) t control))
    (fun t ht => by rw [hclient] at ht; rcases ht with ht | ht <;> cases ht)
  refine
    { block_pin := fun t ht => by rw [hblock t ht]; rfl
      locals := fun d => ?_
      queued := fun cmd hcmd => ?_
      once := h.once }
  · by_cases hdc : d = c
    · subst hdc
      have hlocal := h.locals d
      rw [hclient] at hlocal
      simpa [Custody.setClient, LocalOk] using hlocal
    · simp only [Custody.setClient, Function.update_of_ne hdc]
      refine (h.locals d).of_block fun t htoken ht => ?_
      have hfresh := hheld.fresh_client d t htoken
      rw [hblock t ht] at hfresh
      exact absurd hfresh (Nat.lt_irrefl _)
  · have hok := hset.queued cmd hcmd
    cases cmd with
    | releasePin t reply =>
      intro ht
      have hfresh := hheld.fresh_release _ hcmd t rfl
      rw [hblock t ht] at hfresh
      exact Nat.lt_irrefl _ hfresh
    | _ => exact hok

/-- A `BEGIN` that fails, or whose reply finds no receiver, leaves no pin and,
without poison, no block. -/
theorem inv_begin_undone (hk : Inv k) {b : Option BlockOwner} {p : Bool}
    (hclean : p = false → k.poisoned = false ∧ ∀ t, b ≠ some (.pin t)) :
    Inv { k with nextPin := k.nextPin + 1, block := b, poisoned := p } where
  held := hk.held.bump.frame _ _ _
  clean := fun hp => by
    obtain ⟨hpoisoned, hblock⟩ := hclean hp
    exact ((hk.clean hpoisoned).setBlock (fun t ht => absurd ht (hblock t))).frame _ _ _ _

section

variable (hs : Inv s.custody)

include hs

/-- A `Begin` grants a fresh pin only after a BEGIN that left the session in a block;
otherwise it undoes the BEGIN or poisons the session. -/
theorem inv_execute_begin (he : e.Honest) {c : Nat} (hcur : s.current = some (.begin c)) :
    Inv (executeCommand s.take e (.begin c)).1.custody := by
  have htaken := inv_take hs hcur (fun t ht => ht)
  have hopen : s.take.custody.closed = false := not_closed_of_current (s := s) hs.held hcur
  simp only [executeCommand]
  split
  · exact inv_sendBegin_error htaken
  · rename_i hpin
    have hpin : s.take.custody.activePin = none :=
      Option.not_isSome_iff_eq_none.mp hpin
    unfold allocatePin
    split
    · rename_i error hexhausted
      exact inv_sendBegin_error htaken
    · rename_i token htoken
      have htoken : token = s.take.custody.nextPin := by
        split at htoken
        · exact (Except.ok.inj htoken).symm
        · cases htoken
      subst htoken
      obtain ⟨hframe, hblock⟩ := beginTransaction_frame
        { s.take with nextPin := s.take.nextPin + 1 } s.take.custody.nextPin he
      generalize beginTransaction { s.take with nextPin := s.take.nextPin + 1 }
        s.take.custody.nextPin e = r at hframe hblock ⊢
      have hr : r.1.custody = { s.take.custody with
          nextPin := s.take.custody.nextPin + 1, block := r.1.block,
          poisoned := r.1.transactionPoisoned } := hframe
      split
      · rename_i error hfailed
        refine inv_sendBegin_error ?_
        rw [hr]
        refine inv_begin_undone htaken (fun hp => ⟨(hblock hp).1, fun t ht => ?_⟩)
        have := ((hblock hp).2 t ht).2
        rw [hfailed] at this
        cases this
      · have hpinned : State.custody { r.1 with activePin := some s.take.custody.nextPin } =
            { s.take.custody with
              nextPin := s.take.custody.nextPin + 1,
              activePin := some s.take.custody.nextPin, block := r.1.block,
              poisoned := r.1.transactionPoisoned } := by
          rw [show State.custody { r.1 with activePin := some s.take.custody.nextPin } =
            { r.1.custody with activePin := some s.take.custody.nextPin } from rfl, hr]
        have hclients : r.1.clients = s.take.clients :=
          congrArg (fun k => k.clients) hr
        unfold State.sendBegin
        split
        · -- the token is delivered
          rename_i hclient
          have hclient : s.take.custody.clients c = .beginning none := by
            rw [← hclient]
            exact (congrFun hclients c).symm
          simp only [if_true]
          rw [custody_setClient, hpinned]
          constructor
          · exact (htaken.held.grant hopen hclient).frame _ _ _
          · intro hp
            exact ((htaken.clean (hblock hp).1).grant htaken.held hclient
              (fun t ht => ((hblock hp).2 t ht).1)).frame _ _ _ _
        · -- the receiver is gone: the owner rolls back
          simp only [Bool.false_eq_true, if_false]
          obtain ⟨block, p, hrolled, hclean⟩ := rollbackActivePin_custody
            (s := { r.1 with activePin := some s.take.custody.nextPin })
            s.take.custody.nextPin he.2 rfl
          rw [hrolled, hpinned]
          have hundone := inv_begin_undone (b := block) (p := p) htaken (fun hp =>
            ⟨(hblock (hclean hp).1).1, fun t => by
              rw [(hclean hp).2]
              exact nofun⟩)
          rw [show s.take.custody = { s.take.custody with activePin := none } from by
            rw [← hpin]] at hundone
          exact hundone

/-- `ReleasePin` and `RollbackAndReleasePin` of the active pin: without poison
its block is gone. -/
theorem inv_clearPin {b : Option BlockOwner} {p : Bool} (hcur : s.current = some cmd)
    (hpin : s.activePin = some token)
    (hclean : p = false → s.custody.poisoned = false ∧ b ≠ some (.pin token) ∧
      ∀ t, b = some (.pin t) → s.block = some (.pin t)) :
    Inv { s.take.custody with activePin := none, block := b, poisoned := p } where
  held := (hs.held.pop (p := none) (pending_of_current hcur) (.inr rfl)
    nofun).frame _ _ _
  clean := fun hp => by
    obtain ⟨hpoisoned, hne, hblock⟩ := hclean hp
    have hk := (hs.clean hpoisoned).pop (pending_of_current hcur)
    have hset := (hk.setBlock hblock).frame p s.nextPin s.teardownStarted s.closed
    refine
      { block_pin := fun t ht => ?_
        locals := hset.locals
        queued := fun cmd hcmd => by
          have hok := hset.queued cmd hcmd
          cases cmd <;> exact hok
        once := hset.once }
    have hactive := (hs.clean hpoisoned).block_pin t (hblock t ht)
    rw [show s.custody.activePin = some token from hpin] at hactive
    cases hactive
    exact absurd ht hne

/-- A rollback by the owner ends the pin. An unconfirmed one poisons the session. -/
theorem inv_rolledBack {o : Outcome Error} (ho : o.Honest) (hcur : s.current = some cmd)
    (hpin : s.activePin = some token) : Inv (rollbackActivePin s.take token o).custody ∧
      (rollbackActivePin s.take token o).activePin = none := by
  obtain ⟨block, p, hrolled, hclean⟩ := rollbackActivePin_custody (s := s.take) _ ho hpin
  refine ⟨?_, congrArg (fun k => k.activePin) hrolled⟩
  rw [hrolled]
  refine inv_clearPin (s := s) hs hcur hpin (fun hp => ?_)
  rw [(hclean hp).2]
  exact ⟨(hclean hp).1, nofun, nofun⟩

/-- `ReleasePin` clears the pin it names and answers its sender. -/
theorem inv_execute_release {reply : Option Nat}
    (hcur : s.current = some (.releasePin token reply)) :
    Inv (executeCommand s.take e (.releasePin token reply)).1.custody := by
  have hreleased : Inv (if s.take.activePin = some token then
      (({ s.take with activePin := none }, .ok ()) : State × Except Error Unit)
      else (s.take, .error inactiveTransactionError)).1.custody := by
    split
    · rename_i hpin
      refine inv_clearPin (s := s) (b := s.block) (p := s.transactionPoisoned) hs hcur hpin
        (fun hp => ⟨hp, ?_, fun t ht => ht⟩)
      exact (hs.clean hp).queued _ (mem_pending_of_current hcur)
    · rename_i hpin
      exact inv_skip hs hcur fun t ht h => hpin (by rw [show token = t from ht]; exact h)
  simp only [executeCommand]
  cases reply with
  | none => exact hreleased
  | some c => exact inv_sendRelease hreleased

/-- The rollback sent by a dropped future ends its pin. -/
theorem inv_execute_rollbackAndRelease (he : e.Honest) {token : Nat}
    (hcur : s.current = some (.rollbackAndReleasePin token)) :
    Inv (executeCommand s.take e (.rollbackAndReleasePin token)).1.custody := by
  simp only [executeCommand]
  by_cases hpin : s.take.activePin = some token
  · exact (inv_rolledBack hs he.1 hcur hpin).1
  · rw [show rollbackActivePin s.take token e.first = s.take from by
      simp [rollbackActivePin, hpin]]
    exact inv_skip hs hcur fun t ht h => hpin (by rw [show token = t from ht]; exact h)

/-- A close rolls the active pin back before the session is torn down. -/
theorem inv_execute_close (he : e.Honest) (hcur : s.current = some .close) :
    Inv (executeCommand s.take e .close).1.custody := by
  have htaken := inv_take hs hcur (fun t ht => ht)
  simp only [executeCommand]
  split
  · rename_i token hpin
    split
    · obtain ⟨hrolled, hnone⟩ := inv_rolledBack hs he.1 hcur hpin
      exact inv_stop hrolled (rollbackActivePin_current s.take token e.first) hnone
    · exact inv_scheduleTerminalDropClose
        (s := { s.take with closeInProgress := false, closing := false }) htaken
  · rename_i hpin
    exact inv_stop htaken rfl hpin

/-- **One `execute_command`.** Whatever honest engine answers, custody is kept. -/
theorem inv_ownerExecute (hstep : ownerExecute s e = some t) : Inv t.custody := by
  unfold ownerExecute at hstep
  split at hstep <;> try cases hstep
  rename_i cmd hcur
  split at hstep <;> cases hstep
  rename_i he
  cases cmd with
  | cancellable cmd request =>
    have hplain := hs.held.wrapped cmd request
      (mem_pending_of_current hcur)
    have htaken := inv_take hs hcur (fun t ht => ht)
    simp only [executeCommand]
    split
    · rw [dropCommand_of_plain hplain]
      exact htaken
    · exact inv_execute_plain htaken hplain
  | exec op | structuredExec op operation | stream op | backup op | backupTo op =>
    exact inv_execute_plain (inv_take hs hcur (fun t ht => ht)) trivial
  | pinnedExec token c control => exact inv_execute_control he hs hcur
  | pinnedStructuredExec token c op operation => exact inv_execute_statement hs hcur
  | begin c => exact inv_execute_begin hs he hcur
  | releasePin token reply => exact inv_execute_release hs hcur
  | rollbackAndReleasePin token => exact inv_execute_rollbackAndRelease hs he hcur
  | close => exact inv_execute_close hs he hcur

/-- An abandoned command is dropped; it is never one that custody depends on. -/
theorem inv_ownerReceive (hstep : ownerReceive s = some t) : Inv t.custody := by
  unfold ownerReceive at hstep
  split at hstep <;> cases hstep
  rename_i command rest hcur hqueue
  have hpending : s.custody.pending = command :: rest := by
    simp [State.custody, State.pending, hcur, hqueue]
  dsimp only
  split
  · rename_i habandoned
    have hdropped : State.custody { s with queue := rest } =
        { s.custody with pending := rest } := by
      simp [State.custody, State.pending, hcur]
    rw [hdropped]
    refine ⟨hs.held.pop hpending (.inl rfl) (fun t ht => ?_),
      fun hp => (hs.clean hp).pop hpending⟩
    cases command <;> first | exact ht.elim | cases habandoned
  · have hsame : State.custody { s with queue := rest, current := some command } = s.custody := by
      simp [State.custody, State.pending, hcur, hqueue]
    rw [hsame]
    exact hs

/-- **One step keeps the custody invariant**, unless it drops a future whose `Begin` reply was
delivered and not taken. -/
theorem inv_step {a : Action} (hpolled : ¬ DropsUnpolledBegin s a) (hstep : step s a = some t) :
    Inv t.custody := by
  cases a with
  | receive => exact inv_ownerReceive hs hstep
  | execute e => exact inv_ownerExecute hs hstep
  | submit work cancellation => exact inv_submitWork hs hstep
  | dropOp op | cancel request =>
    cases hstep
    exact hs
  | close =>
    cases hstep
    exact inv_closeDatabase hs
  | dropHandle =>
    cases hstep
    unfold dropExecutor
    split
    · exact hs
    · exact inv_scheduleTerminalDropClose (s := { s with terminalDrop := true }) hs
  | transaction c =>
    simp only [step] at hstep
    split at hstep <;> cases hstep
    rename_i hclient
    exact hs.move_untokened hclient rfl (by simp) rfl fun _ _ h => h
  | pollSend c => exact inv_pollSendBegin hs hstep
  | pollBegin c => exact inv_pollBeginReply hs hstep
  | statement c operation => exact inv_pollStatement hs hstep
  | rollback c =>
    simp only [step] at hstep
    split at hstep <;> try cases hstep
    rename_i token hclient
    split at hstep <;> cases hstep
    rename_i hactive
    exact inv_startRollback hs (by rw [hclient]; exact ⟨rfl, by simp⟩) hactive false
  | pollRollback c =>
    simp only [step] at hstep
    split at hstep <;> cases hstep
    rename_i token settling reply hclient
    exact inv_pollRollback hs hclient
  | abandonRollback c =>
    simp only [step] at hstep
    split at hstep <;> cases hstep
    rename_i token reply hclient
    exact inv_abandonRollback hs hclient
  | finishBody c succeeded => exact inv_returnBody hs hstep
  | settle c => exact inv_settleBody hs hstep
  | pollCommit c =>
    simp only [step] at hstep
    split at hstep <;> cases hstep
    rename_i token reply hclient
    exact inv_pollCommit hs hclient
  | pollRelease c =>
    simp only [step] at hstep
    split at hstep <;> cases hstep
    rename_i token reply hclient
    exact inv_pollRelease hs hclient
  | drop c => exact inv_dropFuture hs hpolled hstep

end

/-- No `transaction()` future is alive and the owner is idle on an empty queue. -/
def Quiet (s : State) : Prop :=
  (∀ c, ¬ (s.clients c).Alive) ∧ s.queue = [] ∧ s.current = none

/-- No pin is left, and no block of a pin unless the session is poisoned. -/
def NoPinLeft (s : State) : Prop :=
  s.activePin = none ∧ (s.transactionPoisoned = false → ∀ t, s.block ≠ some (.pin t))

/-- In a quiet state every pin has been released: nobody is left who could own one, and no
command is left that would release it. -/
theorem Inv.noPinLeft (hs : Inv s.custody) (hquiet : Quiet s) : NoPinLeft s := by
  obtain ⟨hgone, hqueue, hcurrent⟩ := hquiet
  have hpending : s.custody.pending = [] := by
    simp [State.custody, State.pending, hqueue, hcurrent]
  have hpin : s.activePin = none := by
    cases hactive : s.activePin with
    | none => rfl
    | some t =>
      rcases hs.held.held t hactive with ⟨c, hown⟩ | ⟨cmd, hmem, -⟩
      · refine absurd ⟨fun h => ?_, fun h => ?_⟩ (hgone c)
        · have hown := hown.1
          rw [show s.custody.clients c = .unused from h] at hown
          cases hown
        · have hown := hown.1
          rw [show s.custody.clients c = .gone from h] at hown
          cases hown
      · rw [hpending] at hmem
        cases hmem
  refine ⟨hpin, fun hp t ht => ?_⟩
  have hactive := (hs.clean hp).block_pin t ht
  rw [show s.custody.activePin = none from hpin] at hactive
  cases hactive

/-- **No leaked pin.** In every run in which no future is dropped between the
delivery of its `Begin` reply and the poll that takes it, every quiet state has
no active pin, and no open block of a dropped future unless it is poisoned. -/
theorem no_pin_leak {schedule : List Action} {s : State}
    (hpolled : Along step (fun s a => ¬ DropsUnpolledBegin s a) start schedule)
    (hrun : run step start schedule = some s) (hquiet : Quiet s) : NoPinLeft s := by
  have hs : Inv s.custody :=
    run_invariant_along (P := fun s => Inv s.custody)
      (fun s a t hs ha hstep => inv_step hs ha hstep) inv_start hpolled hrun
  exact hs.noPinLeft hquiet

/-- An engine that completes one command with the given tag and status. -/
def completing (tag : String) (status : ReadyStatus) : Engine where
  first :=
    { result := .ok { ready := .ok status, tags := .ok [tag], command := .ok (some tag) }
      inBlock := decide (status ≠ .idle) }
  second := { result := .error (.engine "no second call"), inBlock := false }
  stream := .readyForQuery (.ok ())
  streamInBlock := false
  callbackPanic := none
  backup := .ok ()

/-- A transaction whose callback runs one statement and commits. -/
def committed : List Action :=
  [.transaction 0, .pollSend 0, .receive, .execute (completing "BEGIN" .transaction),
    .pollBegin 0, .statement 0 "execute()", .receive,
    .execute (completing "INSERT 0 1" .transaction), .finishBody 0 true, .settle 0, .receive,
    .execute (completing "COMMIT" .idle), .pollCommit 0, .receive,
    .execute (completing "COMMIT" .idle), .pollRelease 0]

/-- The future is dropped after its `Begin` reply was delivered. -/
def droppedUnpolled : List Action :=
  [.transaction 0, .pollSend 0, .receive, .execute (completing "BEGIN" .transaction), .drop 0]

/-- A transaction that runs one statement and commits ends quietly and without a pin. -/
theorem no_pin_leak_committed :
    ∃ s, run step start committed = some s ∧ Quiet s ∧ NoPinLeft s := by
  refine ⟨_, rfl, ?quiet, @no_pin_leak committed _ ?polled rfl ?quiet⟩
  case polled =>
    refine along_of_forall_mem _ fun a ha s => ?_
    simp only [committed, List.mem_cons, List.not_mem_nil, or_false] at ha
    rcases ha with rfl | rfl | rfl | rfl | rfl | rfl | rfl | rfl | rfl | rfl | rfl | rfl | rfl |
      rfl | rfl | rfl <;> exact id
  case quiet =>
    refine ⟨fun c => ?_, rfl, rfl⟩
    cases c with
    | zero => exact fun h => h.2 rfl
    | succ c => exact fun h => h.1 rfl

/-- **The leak.** The future is dropped between the delivery of its `Begin` reply and the poll
that takes it: the pin stays active for ever, with its block open. -/
theorem pin_leaks_after_unpolled_begin :
    ¬ ∀ schedule s, run step start schedule = some s → Quiet s → NoPinLeft s := by
  intro h
  have hleft := h droppedUnpolled _ rfl ⟨fun c => ?_, rfl, rfl⟩
  · have hpin := hleft.1
    cases hpin
  · cases c with
    | zero => exact fun h => h.2 rfl
    | succ c => exact fun h => h.1 rfl

end Oliphaunt.Rust
