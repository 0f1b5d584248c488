import Oliphaunt.Rust.Transaction

/-!
# Oliphaunt — custody of the native Rust transaction pin

The owner's pin is set by `Begin` and cleared by `ReleasePin` and
`RollbackAndReleasePin`. Between the two somebody has to be responsible for it:
a `transaction()` future that holds the token, or a release that is already in
the queue. This file states that custody as an invariant of the whole system.

* `Held` — every active pin is owned by a live future or has a queued release;
  this part does not look at the poison flag.
* `Clean` — as long as the session is not poisoned, an open block that was begun
  for a pin has that pin active, and a pin that is about to be released without
  a `ROLLBACK` has no block.

The invariant is stated over `Custody`, the part of the state it reads, so that
steps which change nothing of it are preserved by definition.
-/

namespace Oliphaunt.Rust

open List
open Function (update update_of_ne update_self)

/-! ## Tokens of clients and commands -/

/-- The token a future has been given. -/
def Client.token : Client → Option Nat
  | .beginning (some (.ok token)) => some token
  | .body token | .settle token _ | .rollback token _ _ | .commit token _ | .release token _ =>
    some token
  | _ => none

/-- The future is responsible for the pin: dropping it queues a release. -/
def Client.Owns (c : Client) (t : Nat) : Prop :=
  c.token = some t ∧ ∀ reply, c ≠ .release t reply

/-- The command clears the pin `t`. -/
def Command.Releases (t : Nat) : Command → Prop
  | .releasePin token _ | .rollbackAndReleasePin token => token = t
  | _ => False

/-- The commands of plain work. -/
def Command.IsPlain : Command → Prop
  | .exec _ | .structuredExec .. | .stream _ | .backup _ | .backupTo _ => True
  | _ => False

/-- The pin that a transaction control is sent for. -/
def Command.controlToken : Command → Option Nat
  | .pinnedExec token _ _ => some token
  | _ => none

variable {c : Client}

theorem Client.Owns.unique_token (h : c.Owns t) (hu : c.token = some u) : u = t :=
  Option.some.inj (hu.symm.trans h.1)

theorem Client.not_owns_of_untokened (h : c.token = none) (t : Nat) :
    ¬ c.Owns t := by
  rintro ⟨htoken, -⟩
  cases h.symm.trans htoken

/-- What the responsibility for pins depends on. -/
structure Custody where
  pending : List Command
  activePin : Option Nat
  nextPin : Nat
  poisoned : Bool
  teardownStarted : Bool
  closed : Bool
  clients : Nat → Client
  guards : Nat → GuardState
  block : Option BlockOwner

/-- The commands not executed yet, the received one first. -/
def State.pending (s : State) : List Command := s.current.toList ++ s.queue

def State.custody (s : State) : Custody where
  pending := s.pending
  activePin := s.activePin
  nextPin := s.nextPin
  poisoned := s.transactionPoisoned
  teardownStarted := s.teardownStarted
  closed := s.closed
  clients := s.clients
  guards := fun c => (s.guards c).state
  block := s.block

/-- Every active pin is owned by a live future or has a queued release. -/
structure Held (k : Custody) : Prop where
  teardown : k.teardownStarted = true → k.closed = true
  stopped : k.closed = true → k.activePin = none ∧ k.pending = []
  fresh_pin : ∀ t, k.activePin = some t → t < k.nextPin
  fresh_client : ∀ c t, (k.clients c).token = some t → t < k.nextPin
  fresh_release : ∀ cmd ∈ k.pending, ∀ t, cmd.Releases t → t < k.nextPin
  /-- no two futures were given the same token -/
  unique : ∀ c d t, (k.clients c).token = some t → (k.clients d).token = some t → c = d
  held : ∀ t, k.activePin = some t →
    (∃ c, (k.clients c).Owns t) ∨ ∃ cmd ∈ k.pending, cmd.Releases t
  /-- a release is queued only by a future that gives its token up -/
  disowned : ∀ cmd ∈ k.pending, ∀ t, cmd.Releases t → ∀ c, ¬ (k.clients c).Owns t
  /-- only plain work is wrapped with a cancellation request -/
  wrapped : ∀ cmd request, Command.cancellable cmd request ∈ k.pending → cmd.IsPlain

/-- How the guard of a future and the open block fit its location. -/
def LocalOk (block : Option BlockOwner) (c : Client) (g : GuardState) : Prop :=
  match c with
  | .body t =>
    g = .active ∨ g = .finishing ∨ (g = .rolledBack ∧ block ≠ some (.pin t))
  | .settle _ _ => g = .active
  | .rollback _ _ none | .commit _ none => g = .finishing
  | .rollback t _ (some reply) | .commit t (some reply) =>
    g = .finishing ∧ ∀ r, reply = .ok r → r.ready = .ok .idle → block ≠ some (.pin t)
  | .release t _ => g ≠ .active ∧ block ≠ some (.pin t)
  | _ => g ≠ .active

/-- What holds for a command while it waits. -/
def PendingOk (k : Custody) : Command → Prop
  | .releasePin t _ => k.block ≠ some (.pin t)
  | .pinnedExec t c _ =>
    k.guards c = .finishing ∧ (k.clients c = .body t ∨
      (∃ settling, k.clients c = .rollback t settling none) ∨ k.clients c = .commit t none)
  | .pinnedStructuredExec t c _ _ => (k.clients c).token = some t ∨ k.clients c = .gone
  | _ => True

/-- As long as the session is not poisoned, blocks and pins agree. -/
structure Clean (k : Custody) : Prop where
  block_pin : ∀ t, k.block = some (.pin t) → k.activePin = some t
  locals : ∀ c, LocalOk k.block (k.clients c) (k.guards c)
  queued : ∀ cmd ∈ k.pending, PendingOk k cmd
  /-- a pin has at most one control in flight -/
  once : (k.pending.filterMap Command.controlToken).Nodup

structure Inv (k : Custody) : Prop where
  held : Held k
  clean : k.poisoned = false → Clean k

/-- Nothing is pinned when the executor starts. -/
theorem inv_start : Inv start.custody where
  held := by
    constructor <;> simp [State.custody, start, State.pending, Client.token]
  clean := by
    intro _
    constructor <;> simp [State.custody, start, State.pending, LocalOk]

def Custody.push (k : Custody) (cmd : Command) : Custody :=
  { k with pending := k.pending ++ [cmd] }

def Custody.setClient (k : Custody) (c : Nat) (v : Client) : Custody :=
  { k with clients := update k.clients c v }

def Custody.setGuard (k : Custody) (c : Nat) (g : GuardState) : Custody :=
  { k with guards := update k.guards c g }

/-- The guard of one future and the poison flag change. -/
def Custody.mark (k : Custody) (c : Nat) (g : GuardState) (poisoned : Bool) : Custody :=
  { k with guards := update k.guards c g, poisoned := poisoned }

def Custody.poison (k : Custody) : Custody := { k with poisoned := true }

@[simp] theorem custody_push (s : State) (cmd : Command) :
    (s.push cmd).custody = s.custody.push cmd := by
  simp [State.custody, State.push, State.pending, Custody.push]

@[simp] theorem custody_setClient (s : State) (c : Nat) (v : Client) :
    (s.setClient c v).custody = s.custody.setClient c v := rfl

@[simp] theorem custody_setGuard (s : State) (c : Nat) (g : TransactionGuard) :
    (s.setGuard c g).custody = s.custody.setGuard c g.state := by
  simp only [State.custody, State.setGuard, Custody.setGuard, State.pending, Custody.mk.injEq,
    true_and, and_true]
  funext d
  by_cases hd : d = c
  · subst hd
    simp
  · simp [hd]

@[simp] theorem custody_setGuardState (s : State) (c : Nat) (g : GuardState) :
    (s.setGuardState c g).custody = s.custody.setGuard c g :=
  custody_setGuard s c _

@[simp] theorem custody_poison (s : State) : s.poison.custody = s.custody.poison := rfl

variable {k : Custody}

section

variable (h : Held k)

include h

theorem Held.frame (guards : Nat → GuardState) (block : Option BlockOwner) (poisoned : Bool) :
    Held { k with guards := guards, block := block, poisoned := poisoned } :=
  { h with }

theorem Held.setGuard (c : Nat) (g : GuardState) : Held (k.setGuard c g) :=
  h.frame (update k.guards c g) k.block k.poisoned

theorem Held.poison : Held k.poison :=
  h.frame k.guards k.block true

variable {v : Client} {c : Nat}

/-- One future moves and commands enter the queue. The future gets no new token and
gives one up only when the pin is no longer active or its release is queued; a
release is queued only for a token that nobody owns any more. -/
theorem Held.moved (htoken : ∀ t, v.token = some t → (k.clients c).token = some t)
    (howns : ∀ t, v.Owns t → (k.clients c).Owns t)
    (hkeep : ∀ t, (k.clients c).Owns t → v.Owns t ∨ k.activePin ≠ some t ∨
      ∃ cmd ∈ k.pending ++ q, cmd.Releases t)
    (hopen : q = [] ∨ k.closed = false)
    (hrelease : ∀ cmd ∈ q, ∀ t, cmd.Releases t →
      t < k.nextPin ∧ ¬ v.Owns t ∧ ∀ d, d ≠ c → ¬ (k.clients d).Owns t)
    (hwrapped : ∀ cmd request, Command.cancellable cmd request ∈ q → cmd.IsPlain) :
    Held { k with clients := update k.clients c v, pending := k.pending ++ q } := by
  have htokens : ∀ d t, ((update k.clients c v) d).token = some t →
      (k.clients d).token = some t := by
    intro d t hd
    by_cases hdc : d = c
    · subst hdc
      rw [update_self] at hd
      exact htoken t hd
    · rwa [update_of_ne hdc] at hd
  refine
    { teardown := h.teardown
      stopped := fun hclosed => ?_
      fresh_pin := h.fresh_pin
      fresh_client := fun d t hd => h.fresh_client d t (htokens d t hd)
      fresh_release := fun cmd hcmd t ht => (mem_append.mp hcmd).elim
        (fun hold => h.fresh_release cmd hold t ht) fun hnew => (hrelease cmd hnew t ht).1
      unique := fun d d' t hd hd' => h.unique d d' t (htokens d t hd) (htokens d' t hd')
      held := fun t ht => ?_
      disowned := fun cmd hcmd t ht d hd => ?_
      wrapped := fun cmd request hmem => (mem_append.mp hmem).elim (h.wrapped cmd request)
        (hwrapped cmd request) }
  · rcases hopen with rfl | hopen
    · exact (h.stopped hclosed).imp_right fun hpending => by rw [hpending]; rfl
    · rw [show k.closed = true from hclosed] at hopen
      cases hopen
  · rcases h.held t ht with ⟨d, hd⟩ | ⟨cmd, hcmd, hrel⟩
    · by_cases hdc : d = c
      · subst hdc
        rcases hkeep t hd with hv | hpin | hqueued
        · exact .inl ⟨d, by simpa using hv⟩
        · exact absurd ht hpin
        · exact .inr hqueued
      · exact .inl ⟨d, by simpa [hdc] using hd⟩
    · exact .inr ⟨cmd, mem_append_left _ hcmd, hrel⟩
  · by_cases hdc : d = c
    · subst hdc
      have hd : v.Owns t := update_self d v k.clients ▸ hd
      rcases mem_append.mp hcmd with hold | hnew
      · exact h.disowned cmd hold t ht d (howns t hd)
      · exact (hrelease cmd hnew t ht).2.1 hd
    · have hd : (k.clients d).Owns t := update_of_ne hdc v k.clients ▸ hd
      rcases mem_append.mp hcmd with hold | hnew
      · exact h.disowned cmd hold t ht d hd
      · exact (hrelease cmd hnew t ht).2.2 d hdc hd

theorem Held.setClient (htoken : ∀ t, v.token = some t → (k.clients c).token = some t)
    (howns : ∀ t, v.Owns t → (k.clients c).Owns t)
    (hkeep : ∀ t, (k.clients c).Owns t → v.Owns t ∨ k.activePin ≠ some t) :
    Held (k.setClient c v) := by
  have hmoved := h.moved (q := []) htoken howns
    (fun t ht => (hkeep t ht).imp_right Or.inl) (.inl rfl) (by simp) (by simp)
  rwa [append_nil] at hmoved

theorem Held.push (hopen : k.closed = false)
    (hrelease : ∀ t, cmd.Releases t → t < k.nextPin ∧ ∀ c, ¬ (k.clients c).Owns t)
    (hwrapped : ∀ inner request, cmd = .cancellable inner request → inner.IsPlain) :
    Held (k.push cmd) := by
  have hmoved := h.moved (c := 0) (v := k.clients 0) (q := [cmd]) (fun _ => id) (fun _ => id)
    (fun _ ht => .inl ht) (.inr hopen)
    (fun cmd' hcmd' t ht => by
      rw [mem_singleton.mp hcmd'] at ht
      exact ⟨(hrelease t ht).1, (hrelease t ht).2 0, fun d _ => (hrelease t ht).2 d⟩)
    (fun inner request hmem => hwrapped inner request (mem_singleton.mp hmem).symm)
  rwa [Function.update_eq_self] at hmoved

end

theorem Client.not_owns_of_gone {v : Client} (hv : v = .gone ∨ v = .release t none) :
    ¬ v.Owns u := by
  rcases hv with rfl | rfl
  · rintro ⟨htoken, -⟩
    cases htoken
  · rintro ⟨htoken, hrelease⟩
    cases htoken
    exact hrelease none rfl

variable {cmd : Command}

/-- A future gives its token up and queues the release in the same step. -/
theorem Held.handOver (h : Held k) (hopen : k.closed = false) {c : Nat}
    (hown : (k.clients c).Owns t) (hv : v = .gone ∨ v = .release t none)
    (hcmd : ∀ u, cmd.Releases u ↔ u = t) : Held ((k.setClient c v).push cmd) := by
  refine h.moved (fun u hu => ?_) (fun u hu => absurd hu (Client.not_owns_of_gone hv))
    (fun u hu => ?_) (.inr hopen) (fun cmd' hcmd' u hu => ?_) (fun inner request hmem => ?_)
  · rcases hv with rfl | rfl
    · cases hu
    · cases hu
      exact hown.1
  · -- the token that was given up is the released one
    refine .inr (.inr ⟨cmd, mem_append_right _ (.head _), ?_⟩)
    exact (hcmd u).mpr (hu.unique_token hown.1).symm
  · rw [mem_singleton.mp hcmd', hcmd] at hu
    subst hu
    exact ⟨h.fresh_client c u hown.1, Client.not_owns_of_gone hv,
      fun d hdc hd => hdc (h.unique d c u hd.1 hown.1)⟩
  · rw [← mem_singleton.mp hmem] at hcmd
    exact absurd ((hcmd t).mpr rfl) (by simp [Command.Releases])

theorem Held.pop (h : Held k) (hpending : k.pending = cmd :: rest)
    (hpin : p = k.activePin ∨ p = none) (hrelease : ∀ t, cmd.Releases t → p ≠ some t) :
    Held { k with pending := rest, activePin := p } := by
  have hrest : ∀ cmd' ∈ rest, cmd' ∈ k.pending := by
    intro cmd' hcmd'
    rw [hpending]
    exact .tail cmd hcmd'
  have hactive : ∀ t, p = some t → k.activePin = some t := by
    intro t ht
    rcases hpin with hpin | hpin
    · rw [← hpin, ht]
    · cases hpin.symm.trans ht
  refine
    { teardown := h.teardown
      stopped := fun hclosed => by
        have hempty := (h.stopped hclosed).2
        cases hpending.symm.trans hempty
      fresh_pin := fun t ht => h.fresh_pin t (hactive t ht)
      fresh_client := h.fresh_client
      fresh_release := fun cmd' hcmd' => h.fresh_release cmd' (hrest cmd' hcmd')
      unique := h.unique
      held := ?_
      disowned := fun cmd' hcmd' => h.disowned cmd' (hrest cmd' hcmd')
      wrapped := fun inner request hmem => h.wrapped inner request (hrest _ hmem) }
  intro t ht
  rcases h.held t (hactive t ht) with howned | ⟨cmd', hcmd', hrel⟩
  · exact .inl howned
  · rw [hpending] at hcmd'
    rcases mem_cons.mp hcmd' with rfl | hmem
    · exact absurd ht (hrelease t hrel)
    · exact .inr ⟨cmd', hmem, hrel⟩

section

variable (h : Clean k)

include h

theorem Clean.frame (poisoned : Bool) (nextPin : Nat) (teardownStarted closed : Bool) :
    Clean { k with
      poisoned := poisoned, nextPin := nextPin, teardownStarted := teardownStarted,
      closed := closed } :=
  { h with
    queued := by
      intro cmd hcmd
      have hok := h.queued cmd hcmd
      cases cmd <;> exact hok }

variable {c : Nat}

/-- The control in flight of a pin belongs to the future that holds its token. -/
theorem Clean.control_token {control : Control}
    (hmem : Command.pinnedExec t c control ∈ k.pending) :
    k.guards c = .finishing ∧ (k.clients c).Owns t := by
  obtain ⟨hguard, hbody | ⟨settling, hrollback⟩ | hcommit⟩ := h.queued _ hmem
  · exact ⟨hguard, by rw [hbody]; exact ⟨rfl, by simp⟩⟩
  · exact ⟨hguard, by rw [hrollback]; exact ⟨rfl, by simp⟩⟩
  · exact ⟨hguard, by rw [hcommit]; exact ⟨rfl, by simp⟩⟩

theorem Clean.push (hcmd : PendingOk k m)
    (honce : ∀ t, m.controlToken = some t →
      ∀ c control, Command.pinnedExec t c control ∉ k.pending) :
    Clean (k.push m) where
  block_pin := h.block_pin
  locals := h.locals
  queued := by
    intro cmd' hcmd'
    have hok : PendingOk k cmd' := by
      rcases mem_append.mp hcmd' with hold | hnew
      · exact h.queued cmd' hold
      · rw [mem_singleton.mp hnew]
        exact hcmd
    cases cmd' <;> exact hok
  once := by
    simp only [Custody.push, filterMap_append]
    refine nodup_append.mpr ⟨h.once, ?_, ?_⟩
    · cases htoken : m.controlToken <;> simp [htoken]
    · rintro t hold u hnew rfl
      obtain ⟨cmd', hmem, hcmd'⟩ := mem_filterMap.mp hold
      have hnew : m.controlToken = some t := by simpa using hnew
      cases cmd' with
      | pinnedExec t' c control =>
        cases hcmd'
        exact honce _ hnew c control hmem
      | _ => cases hcmd'

theorem Clean.no_control (hidle : k.guards c ≠ .finishing ∨ ∀ t, ¬ (k.clients c).Owns t) (t : Nat)
    (control : Control) : Command.pinnedExec t c control ∉ k.pending := by
  intro hmem
  obtain ⟨hguard, howns⟩ := h.control_token hmem
  rcases hidle with hother | hnone
  · exact hother hguard
  · exact hnone t howns

theorem Clean.setLocal (hlocal : LocalOk k.block v g)
    (hcontrol : ∀ t control, Command.pinnedExec t c control ∈ k.pending →
      g = .finishing ∧
        (v = .body t ∨ (∃ settling, v = .rollback t settling none) ∨ v = .commit t none))
    (hstatement : ∀ t, (k.clients c).token = some t ∨ k.clients c = .gone →
      v.token = some t ∨ v = .gone) :
    Clean ((k.setGuard c g).setClient c v) where
  block_pin := h.block_pin
  locals := by
    intro d
    by_cases hdc : d = c
    · subst hdc
      simpa [Custody.setClient, Custody.setGuard] using hlocal
    · simpa [Custody.setClient, Custody.setGuard, hdc] using h.locals d
  queued := by
    intro cmd hcmd
    have hok := h.queued cmd hcmd
    cases cmd with
    | pinnedExec t d control =>
      by_cases hdc : d = c
      · subst hdc
        simpa [PendingOk, Custody.setClient, Custody.setGuard] using hcontrol t control hcmd
      · simpa [PendingOk, Custody.setClient, Custody.setGuard, hdc] using hok
    | pinnedStructuredExec t d op operation =>
      by_cases hdc : d = c
      · subst hdc
        simpa [PendingOk, Custody.setClient, Custody.setGuard] using hstatement t hok
      · simpa [PendingOk, Custody.setClient, Custody.setGuard, hdc] using hok
    | _ => exact hok
  once := h.once

theorem Clean.setClient (hlocal : LocalOk k.block v (k.guards c))
    (hcontrol : ∀ t control, Command.pinnedExec t c control ∈ k.pending →
      k.guards c = .finishing ∧
        (v = .body t ∨ (∃ settling, v = .rollback t settling none) ∨ v = .commit t none))
    (hstatement : ∀ t, (k.clients c).token = some t ∨ k.clients c = .gone →
      v.token = some t ∨ v = .gone) :
    Clean (k.setClient c v) := by
  have hset := h.setLocal hlocal hcontrol hstatement
  rwa [show k.setGuard c (k.guards c) = k by simp [Custody.setGuard]] at hset

theorem Clean.pop (hpending : k.pending = cmd :: rest) : Clean { k with pending := rest } where
  block_pin := h.block_pin
  locals := h.locals
  queued := by
    intro cmd' hcmd'
    have hok := h.queued cmd' (by rw [hpending]; exact .tail cmd hcmd')
    cases cmd' <;> exact hok
  once := by
    have honce := h.once
    rw [hpending] at honce
    cases htoken : cmd.controlToken with
    | none => rwa [filterMap_cons_none htoken] at honce
    | some t =>
      rw [filterMap_cons_some htoken] at honce
      exact (nodup_cons.mp honce).2

end

theorem LocalOk.of_block (h : LocalOk block c g)
    (hblock : ∀ t, c.token = some t → block' = some (.pin t) → block = some (.pin t)) :
    LocalOk block' c g := by
  cases c with
  | body t =>
    rcases h with hactive | hfinishing | ⟨hrolled, hne⟩
    · exact .inl hactive
    · exact .inr (.inl hfinishing)
    · exact .inr (.inr ⟨hrolled, fun hpin => hne (hblock t rfl hpin)⟩)
  | rollback t settling reply =>
    cases reply with
    | none => exact h
    | some reply => exact ⟨h.1, fun r hr hidle hpin => h.2 r hr hidle (hblock t rfl hpin)⟩
  | commit t reply =>
    cases reply with
    | none => exact h
    | some reply => exact ⟨h.1, fun r hr hidle hpin => h.2 r hr hidle (hblock t rfl hpin)⟩
  | release t reply => exact ⟨h.1, fun hpin => h.2 (hblock t rfl hpin)⟩
  | _ => exact h

/-- An exchange outside every pin starts no block of a pin. -/
theorem Clean.setBlock (h : Clean k)
    (hblock : ∀ t, block = some (.pin t) → k.block = some (.pin t)) :
    Clean { k with block := block } where
  block_pin := fun t ht => h.block_pin t (hblock t ht)
  locals := fun c => (h.locals c).of_block fun t _ ht => hblock t ht
  queued := by
    intro cmd hcmd
    have hok := h.queued cmd hcmd
    cases cmd with
    | releasePin t reply => exact fun ht => hok (hblock t ht)
    | _ => exact hok
  once := h.once

/-- An exchange for the active pin `u`, made for the future that owns it. -/
theorem Clean.setBlock_owned (hheld : Held k) (h : Clean k) {c : Nat} (hpin : k.activePin = some u)
    (hown : (k.clients c).Owns u) (hblock : ∀ t, b = some (.pin t) → t = u)
    (hlocal : LocalOk b (k.clients c) (k.guards c)) : Clean { k with block := b } where
  block_pin := fun t ht => by rw [hblock t ht]; exact hpin
  locals := by
    intro d
    by_cases hdc : d = c
    · subst hdc
      exact hlocal
    · refine (h.locals d).of_block fun t htoken ht => ?_
      rw [hblock t ht] at htoken
      exact absurd (hheld.unique d c u htoken hown.1) hdc
  queued := by
    intro cmd hcmd
    have hok := h.queued cmd hcmd
    cases cmd with
    | releasePin t reply =>
      intro ht
      exact hheld.disowned _ hcmd u (hblock t ht) c hown
    | _ => exact hok
  once := h.once

end Oliphaunt.Rust
