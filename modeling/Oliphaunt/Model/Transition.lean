import Mathlib.Logic.Basic

/-!
# Partial transition functions and their runs

A system is given by a partial step function `step : σ → α → Option σ`: the
label `α` carries every nondeterministic choice (which party moves, what the
environment answers), so a schedule is a plain list of labels and a run is
the fold of `step` along it.

Two notions are used by every safety proof:

* `run step s as` — the state reached from `s` by the schedule `as`, if every
  step of it is enabled;
* `Along step C s as` — every step of the schedule meets `C` in the state it
  is taken from.

`run_invariant` is the induction rule: what one step preserves, a whole run
preserves. `run_invariant_along` is the same for runs whose steps all meet a
side condition.

Progress is `Inevitably`: whichever of the allowed steps are taken, a state of the
wanted kind is reached. `inevitably_of_decreasing` is its rule.
-/

namespace Transition

universe u v

variable {σ : Type u} {α : Type v} (step : σ → α → Option σ)

/-- The state a schedule leads to, `none` when one of its steps is disabled. -/
def run : σ → List α → Option σ
  | s, [] => some s
  | s, a :: rest => (step s a).bind fun t => run t rest

/-- Every step of the schedule meets `C` in the state it is taken from. -/
def Along (C : σ → α → Prop) : σ → List α → Prop
  | _, [] => True
  | s, a :: rest => C s a ∧ ∀ t ∈ step s a, Along C t rest

instance decidableForallMemOption {p : σ → Prop} [DecidablePred p] :
    ∀ o : Option σ, Decidable (∀ t ∈ o, p t)
  | none => isTrue (by simp)
  | some t => decidable_of_iff (p t) (by simp)

instance decidableAlong {C : σ → α → Prop} [∀ s a, Decidable (C s a)] :
    ∀ s as, Decidable (Along step C s as)
  | _, [] => isTrue trivial
  | s, a :: rest =>
    have : DecidablePred fun t => Along step C t rest := fun t => decidableAlong t rest
    inferInstanceAs (Decidable (C s a ∧ ∀ t ∈ step s a, Along step C t rest))

variable {step}

@[simp] theorem run_nil (s : σ) : run step s [] = some s := rfl

@[simp] theorem run_cons (s : σ) (a : α) (rest : List α) :
    run step s (a :: rest) = (step s a).bind fun t => run step t rest := rfl

variable {s t : σ} {as : List α}

theorem run_cons_some (h : run step s (a :: rest) = some t) :
    ∃ m, step s a = some m ∧ run step m rest = some t :=
  Option.bind_eq_some_iff.mp h

variable {C : σ → α → Prop} {P : σ → Prop}

/-- A schedule runs to the end, and what is computed of its last state. -/
theorem exists_run {v : β} (h : (run step s as).map f = some v)
    (hP : ∀ t, run step s as = some t → f t = v → P t) : ∃ t, run step s as = some t ∧ P t := by
  obtain ⟨t, hrun, hv⟩ := Option.map_eq_some_iff.mp h
  exact ⟨t, hrun, hP t hrun hv⟩

/-- What every step preserves under its side condition, a run whose steps all
meet the condition preserves. -/
theorem run_invariant_along (hstep : ∀ s a t, P s → C s a → step s a = some t → P t) :
    ∀ {as : List α} {s t : σ}, P s → Along step C s as →
      run step s as = some t → P t
  | [], _, _, hs, _, hrun => Option.some.inj hrun ▸ hs
  | _ :: _, s, _, hs, hok, hrun => by
    obtain ⟨m, hm, hrest⟩ := run_cons_some hrun
    exact run_invariant_along hstep (hstep s _ m hs hok.1 hm) (hok.2 m hm) hrest

/-- What every step preserves, every run preserves. -/
theorem run_invariant (hstep : ∀ s a t, P s → step s a = some t → P t) (hs : P s)
    (hrun : run step s as = some t) : P t := by
  refine run_invariant_along (C := fun _ _ => True)
    (fun s a t hi _ h => hstep s a t hi h) hs ?_ hrun
  clear hrun hs hstep
  induction as generalizing s with
  | nil => trivial
  | cons a rest ih => exact ⟨trivial, fun m _ => ih⟩

/-- A condition that every label of the schedule meets in every state. -/
theorem along_of_forall_mem :
    ∀ {as : List α} (s : σ), (∀ a ∈ as, ∀ s, C s a) → Along step C s as
  | [], _, _ => trivial
  | a :: _, s, h => ⟨h a (.head _) s, fun t _ =>
      along_of_forall_mem t fun b hb => h b (.tail a hb)⟩

variable {D : σ → α → Prop}

theorem Along.mono (himp : ∀ s a, C s a → D s a) :
    ∀ {as : List α} {s : σ}, Along step C s as → Along step D s as
  | [], _, _ => trivial
  | _ :: _, s, h => ⟨himp s _ h.1, fun t ht => (h.2 t ht).mono himp⟩

/-- What the side condition implies in every state of an invariant, it implies
along every schedule. -/
theorem Along.of_invariant (hstep : ∀ s a t, P s → C s a → step s a = some t → P t)
    (himp : ∀ s a, P s → C s a → D s a) :
    ∀ {as : List α} {s : σ}, P s → Along step C s as → Along step D s as
  | [], _, _, _ => trivial
  | _ :: _, s, hs, h => ⟨himp s _ hs h.1, fun t ht =>
      (h.2 t ht).of_invariant hstep himp (hstep s _ t hs h.1 ht)⟩

/-- Whichever steps of `A` are taken from here, a state of `P` comes after finitely many,
and until then there is one to take. -/
inductive Inevitably (step : σ → α → Option σ) (A : σ → α → Prop) (P : σ → Prop) : σ → Prop where
  | now {s : σ} : P s → Inevitably step A P s
  | later {s : σ} : (∃ a t, A s a ∧ step s a = some t) →
      (∀ a t, A s a → step s a = some t → Inevitably step A P t) → Inevitably step A P s

/-- Under an invariant `I`, enough that there is a step as long as `P` does not hold, and
that every step lowers a rank. -/
theorem inevitably_of_decreasing {I : σ → Prop} {r : β → β → Prop} (hr : WellFounded r)
    (rank : σ → β)
    (hstep : ∀ s a t, I s → C s a → step s a = some t → I t ∧ r (rank t) (rank s))
    (henabled : ∀ s, I s → P s ∨ ∃ a t, C s a ∧ step s a = some t) (hs : I s) :
    Inevitably step C P s := by
  induction hb : rank s using hr.induction generalizing s with
  | _ b ih =>
    subst hb
    rcases henabled s hs with hP | hnext
    · exact .now hP
    · refine .later hnext fun a t ha ht => ?_
      obtain ⟨hi, hlt⟩ := hstep s a t hs ha ht
      exact ih (rank t) hlt hi rfl

theorem along_congr (h : ∀ s a, C s a ↔ D s a) (s : σ) (as : List α) :
    Along step C s as ↔ Along step D s as :=
  ⟨Along.mono fun s a => (h s a).mp, Along.mono fun s a => (h s a).mpr⟩

end Transition
