import Mathlib.Logic.Basic

/-!
# Effects that change a state and may throw

`Effect σ ε α` is a computation on a state that returns a value or throws; the state
it reached is kept in both cases, as that of a program with mutable variables is.
`Triple P m Q E` says that from a state with `P` the computation returns with `Q` or
throws with `E`. There is one rule for every way to put computations together.
-/

/-- A computation on a state that returns or throws. -/
def Effect (σ ε α : Type) := σ → Except ε α × σ

namespace Effect

variable {σ ε α β : Type}

protected def pure (a : α) : Effect σ ε α := fun s => (.ok a, s)

protected def bind (m : Effect σ ε α) (f : α → Effect σ ε β) : Effect σ ε β := fun s =>
  match m s with
  | (.ok a, t) => f a t
  | (.error e, t) => (.error e, t)

instance : Monad (Effect σ ε) where
  pure := Effect.pure
  bind := Effect.bind

def throw (e : ε) : Effect σ ε α := fun s => (.error e, s)

/-- Run the handler on what is thrown, from the state reached. -/
def catching (m : Effect σ ε α) (handler : ε → Effect σ ε α) : Effect σ ε α := fun s =>
  match m s with
  | (.ok a, t) => (.ok a, t)
  | (.error e, t) => handler e t

def modify (f : σ → σ) : Effect σ ε Unit := fun s => (.ok (), f s)

/-- A result that is already there: its error is thrown. -/
def lift (x : Except ε α) : Effect σ ε α := fun s => (x, s)

/-- Run on every element in turn. -/
def forEach (f : α → Effect σ ε β) : List α → Effect σ ε (List β)
  | [] => Pure.pure []
  | a :: rest => do
    let b ← f a
    let more ← forEach f rest
    Pure.pure (b :: more)

/-- From `P` the computation returns with `Q` or throws with `E`. -/
def Triple (P : σ → Prop) (m : Effect σ ε α) (Q : α → σ → Prop) (E : ε → σ → Prop) : Prop :=
  ∀ s, P s → (∀ a t, m s = (.ok a, t) → Q a t) ∧ ∀ e t, m s = (.error e, t) → E e t

variable {P P' : σ → Prop} {Q Q' : α → σ → Prop} {E E' : ε → σ → Prop} {m : Effect σ ε α} {a : α}
  {s : σ} {e : ε}

theorem ends_ok (h : Q a s) : (∀ b t, ((.ok a, s) : Except ε α × σ) = (.ok b, t) → Q b t) ∧
      ∀ e t, ((.ok a, s) : Except ε α × σ) = (.error e, t) → E e t := by
  refine ⟨fun b t ht => ?_, fun e t ht => ?_⟩
  · obtain ⟨hb, rfl⟩ := Prod.mk.inj ht
    rwa [← Except.ok.inj hb]
  · cases (Prod.mk.inj ht).1

theorem ends_error (h : E e s) : (∀ b t, ((.error e, s) : Except ε α × σ) = (.ok b, t) → Q b t) ∧
      ∀ e' t, ((.error e, s) : Except ε α × σ) = (.error e', t) → E e' t := by
  refine ⟨fun b t ht => ?_, fun e' t ht => ?_⟩
  · cases (Prod.mk.inj ht).1
  · obtain ⟨he, rfl⟩ := Prod.mk.inj ht
    rwa [← Except.error.inj he]

theorem Triple.conseq (h : Triple P m Q E) (hP : ∀ s, P' s → P s)
    (hQ : ∀ a s, Q a s → Q' a s) (hE : ∀ e s, E e s → E' e s) : Triple P' m Q' E' :=
  fun s hs => ⟨fun a t ht => hQ a t ((h s (hP s hs)).1 a t ht),
    fun e t ht => hE e t ((h s (hP s hs)).2 e t ht)⟩

theorem Triple.errors (h : Triple P m Q E) (hE : ∀ e s, E e s → E' e s) : Triple P m Q E' :=
  h.conseq (fun _ hs => hs) (fun _ _ hs => hs) hE

theorem Triple.pure (h : ∀ s, P s → Q a s) : Triple P (Pure.pure a) Q E :=
  fun s hs => ends_ok (h s hs)

theorem Triple.throw (h : ∀ s, P s → E e s) : Triple P (Effect.throw e : Effect σ ε α) Q E :=
  fun s hs => ends_error (h s hs)

theorem Triple.modify {Q : Unit → σ → Prop} (h : ∀ s, P s → Q () (f s)) :
    Triple P (Effect.modify f : Effect σ ε Unit) Q E :=
  fun s hs => ends_ok (h s hs)

theorem Triple.lift (hok : ∀ a, x = .ok a → ∀ s, P s → Q a s)
    (herror : ∀ e, x = .error e → ∀ s, P s → E e s) : Triple P (Effect.lift x) Q E := by
  intro s hs
  cases x with
  | ok a => exact ends_ok (hok a rfl s hs)
  | error e => exact ends_error (herror e rfl s hs)

theorem Triple.bind {f : β → Effect σ ε α} (hn : Triple P n R E)
    (hf : ∀ b, Triple (R b) (f b) Q E) :
    Triple P (n >>= f) Q E := by
  intro s hs
  have hbind : (n >>= f) s = match n s with
    | (.ok b, t) => f b t
    | (.error e, t) => (.error e, t) := rfl
  rw [hbind]
  cases hrun : n s with
  | mk outcome t =>
    cases outcome with
    | ok b => exact hf b t ((hn s hs).1 b t hrun)
    | error e => exact ends_error ((hn s hs).2 e t hrun)

theorem Triple.catching (hm : Triple P m Q R) (hhandler : ∀ e, Triple (R e) (handler e) Q E) :
    Triple P (Effect.catching m handler) Q E := by
  intro s hs
  rw [Effect.catching]
  cases hrun : m s with
  | mk outcome t =>
    cases outcome with
    | error e => exact hhandler e t ((hm s hs).2 e t hrun)
    | ok a => exact ends_ok ((hm s hs).1 a t hrun)

theorem Triple.ite [Decidable c] (hm : c → Triple P m Q E) (hn : ¬ c → Triple P n Q E) :
    Triple P (if c then m else n) Q E := by
  by_cases hc : c
  · rw [if_pos hc]
    exact hm hc
  · rw [if_neg hc]
    exact hn hc

/-- What every step keeps, the loop keeps. -/
theorem Triple.forEach {f : α → Effect σ ε β} (h : ∀ a, Triple I (f a) (fun _ => I) (fun _ => I))
    (as : List α) : Triple I (Effect.forEach f as) (fun _ => I) (fun _ => I) := by
  induction as with
  | nil => exact .pure fun _ hs => hs
  | cons a rest ih => exact (h a).bind fun _ => ih.bind fun _ => .pure fun _ hs => hs

end Effect
