import Oliphaunt.Rust.WasixOwner

/-!
# Oliphaunt — what the WASIX direct client knows of its session

Specifications of the operations of `oliphaunt/client.rs` that the owner calls:
what each does to `transaction_outcome_unknown` and `in_transaction`, and what
block it can leave open while the session counts as known. They hold for every
answer of PostgreSQL whose `ReadyForQuery`, if readable, tells the truth.
-/

namespace Oliphaunt.Wasix

open Direct

/-- A step of the direct client never forgets that the session is unknown, and
leaves the other gates of `check_ready` alone. -/
structure Direct.Step (d d' : Direct) : Prop where
  unknown : d.transactionOutcomeUnknown = true → d'.transactionOutcomeUnknown = true
  closed : d'.closed = d.closed
  exit : d'.backupModeExitUnconfirmed = d.backupModeExitUnconfirmed

theorem Direct.Step.refl (d : Direct) : d.Step d := ⟨id, rfl, rfl⟩

theorem Direct.Step.known {d : Direct} (h : d.Step d') (hd : d'.transactionOutcomeUnknown = false) :
    d.transactionOutcomeUnknown = false := by
  by_contra hne
  rw [h.unknown (by simpa using hne)] at hd
  cases hd

theorem Direct.checkReady_none {d : Direct} :
    d.checkReady = none ↔ d.closed = false ∧ d.transactionOutcomeUnknown = false ∧
      d.backupModeExitUnconfirmed = false := by
  unfold checkReady
  cases d.closed <;> cases d.transactionOutcomeUnknown <;>
    cases d.backupModeExitUnconfirmed <;> simp

section

variable (d : Direct)

include d

variable {o : Outcome Error}

/-- After a one-command exchange only an idle boundary leaves the session known
without a result. -/
theorem Direct.transactionResponse_spec (sql : String) (ho : o.Honest) :
    (d.transactionResponse sql o.result).1.block = d.block ∧
    (d.transactionResponse sql o.result).1.inTransaction = d.inTransaction ∧
    d.Step (d.transactionResponse sql o.result).1 ∧
    (∀ error, (d.transactionResponse sql o.result).2 = .error error →
      (d.transactionResponse sql o.result).1.transactionOutcomeUnknown = true ∨
        o.inBlock = false) ∧
    ∀ command, (d.transactionResponse sql o.result).2 = .ok command →
      (d.transactionResponse sql o.result).1 = d ∧
        o.inBlock = decide (command.readyStatus ≠ .idle) := by
  unfold transactionResponse
  cases hresult : o.result with
  | error error => exact ⟨rfl, rfl, ⟨fun _ => rfl, rfl, rfl⟩, fun _ _ => .inl rfl, by simp⟩
  | ok response =>
    dsimp only
    cases hready : response.ready with
    | error message =>
      exact ⟨rfl, rfl, ⟨fun _ => rfl, rfl, rfl⟩, fun _ _ => .inl rfl, by simp⟩
    | ok ready =>
      have hblock : o.inBlock = decide (ready ≠ .idle) := by
        simpa [Outcome.Honest, hresult, hready] using ho
      cases hparse : response.parseCommand with
      | ok command =>
        have hstatus := Response.parseCommand_ready hparse
        cases hready.symm.trans hstatus
        refine ⟨rfl, rfl, Step.refl d, by simp, fun command' hcommand => ?_⟩
        cases hcommand
        exact ⟨rfl, hblock⟩
      | error message =>
        by_cases hidle : ready = .idle
        · subst hidle
          refine ⟨rfl, rfl, Step.refl d, fun _ _ => .inr ?_, by simp⟩
          simpa using hblock
        · simp only [ne_eq, hidle, not_false_eq_true, if_true]
          exact ⟨rfl, rfl, ⟨fun _ => rfl, rfl, rfl⟩, fun _ _ => .inl rfl, by simp⟩

/-- A `BEGIN` that fails leaves no new block behind unless the session is
unknown; one that succeeds starts at a ready session. -/
theorem Direct.ownerBeginTransaction_spec (token : Nat) (ho : o.Honest) :
    d.Step (d.ownerBeginTransaction token o).1 ∧
    (∀ error, (d.ownerBeginTransaction token o).2 = .error error →
      (d.ownerBeginTransaction token o).1.transactionOutcomeUnknown = false →
      ∀ t, (d.ownerBeginTransaction token o).1.block = some (.transaction t) →
        d.block = some (.transaction t)) ∧
    ((d.ownerBeginTransaction token o).2 = .ok () →
      d.closed = false ∧ d.backupModeExitUnconfirmed = false ∧
      (d.ownerBeginTransaction token o).1.inTransaction = true ∧
      ∀ t, (d.ownerBeginTransaction token o).1.block = some (.transaction t) → t = token) := by
  unfold ownerBeginTransaction
  cases hready : d.checkReady with
  | some error => exact ⟨Step.refl d, fun _ _ _ t ht => ht, by simp⟩
  | none =>
    obtain ⟨hclosed, hknown, hexit⟩ := checkReady_none.mp hready
    dsimp only
    split
    · exact ⟨Step.refl d, fun _ _ _ t ht => ht, by simp⟩
    · obtain ⟨hblock, -, hstep, herror, hok⟩ :=
        (d.exchangeBegin token o.inBlock).transactionResponse_spec "BEGIN" ho
      generalize (d.exchangeBegin token o.inBlock).transactionResponse "BEGIN" o.result = r at *
      have hstep : d.Step r.1 := ⟨hstep.unknown, hstep.closed, hstep.exit⟩
      have hidle : o.inBlock = false → r.1.block = none := by
        intro hin
        simp [hblock, exchangeBegin, hin]
      have hown : ∀ t, r.1.block = some (.transaction t) → t = token := by
        intro t ht
        rw [hblock] at ht
        cases hin : o.inBlock <;> simp [exchangeBegin, hin] at ht
        exact ht.symm
      cases hresult : r.2 with
      | error error =>
        have hunknown := herror error hresult
        cases error with
        | postgres message =>
          refine ⟨hstep, fun _ _ hno t ht => ?_, by simp⟩
          rcases hunknown with hunknown | hin
          · exact absurd (hunknown.symm.trans hno) (by simp)
          · rw [hidle hin] at ht
            cases ht
        | _ =>
          exact ⟨⟨fun _ => rfl, hstep.closed, hstep.exit⟩, nofun, by simp⟩
      | ok begin =>
        obtain ⟨hsame, hin⟩ := hok begin hresult
        dsimp only
        split
        · exact ⟨⟨hstep.unknown, hstep.closed, hstep.exit⟩, by simp,
            fun _ => ⟨hclosed, hexit, rfl, hown⟩⟩
        · split
          · rename_i hrolled
            refine ⟨hstep, fun _ _ _ t ht => ?_, by simp⟩
            rw [hidle (by simpa [hrolled.2] using hin)] at ht
            cases ht
          · refine ⟨⟨fun hbad => ?_, hstep.closed, hstep.exit⟩, fun _ _ hno t ht => ?_, by simp⟩
            · cases hknown.symm.trans hbad
            · rw [show r.1.block = none from hidle (hin.trans hno)] at ht
              cases ht

/-- `COMMIT` and `ROLLBACK` retire the host side of the transaction; on a ready
session they leave no block behind unless it becomes unknown. -/
theorem Direct.ownerFinishTransaction_spec (token : Nat) (commit : Bool) (ho : o.Honest) :
    d.Step (d.ownerFinishTransaction token commit o).1 ∧
    (d.ownerFinishTransaction token commit o).1.inTransaction = false ∧
    (d.inTransaction = true → d.closed = false → d.backupModeExitUnconfirmed = false →
      (d.ownerFinishTransaction token commit o).1.transactionOutcomeUnknown = false →
      (d.ownerFinishTransaction token commit o).1.block = none) := by
  unfold ownerFinishTransaction
  by_cases hin : d.inTransaction = true
  · simp only [hin, not_true_eq_false, if_false]
    cases hready : d.checkReady with
    | some error =>
      refine ⟨⟨id, rfl, rfl⟩, rfl, fun _ hclosed hexit hno => ?_⟩
      rw [checkReady_none.mpr ⟨hclosed, hno, hexit⟩] at hready
      cases hready
    | none =>
      obtain ⟨-, hknown, -⟩ := checkReady_none.mp hready
      obtain ⟨hblock, -, hstep, herror, hok⟩ :=
        (d.exchange (.transaction token) o.inBlock).transactionResponse_spec
          (finishCommand commit) ho
      generalize (d.exchange (.transaction token) o.inBlock).transactionResponse
        (finishCommand commit) o.result = r at *
      have hidle : o.inBlock = false → r.1.block = none := by
        simp [hblock, exchange, hin]
      cases hresult : r.2 with
      | error error =>
        refine ⟨⟨hstep.unknown, hstep.closed, hstep.exit⟩, rfl, fun _ _ _ hno => ?_⟩
        rcases herror error hresult with hunknown | hblock
        · exact absurd (hunknown.symm.trans hno) (by simp)
        · exact hidle hblock
      | ok result =>
        obtain ⟨-, hinBlock⟩ := hok result hresult
        dsimp only
        split
        · rename_i hdone
          exact ⟨⟨hstep.unknown, hstep.closed, hstep.exit⟩, rfl,
            fun _ _ _ _ => hidle (by simpa [hdone.2] using hinBlock)⟩
        · split
          · rename_i hdone
            exact ⟨⟨hstep.unknown, hstep.closed, hstep.exit⟩, rfl,
              fun _ _ _ _ => hidle (by simpa [hdone.2.2] using hinBlock)⟩
          · refine ⟨⟨fun hbad => ?_, hstep.closed, hstep.exit⟩, rfl,
              fun _ _ _ hno => hidle (hinBlock.trans hno)⟩
            cases hknown.symm.trans hbad
  · rw [if_pos hin]
    exact ⟨Step.refl d, by simpa using hin, fun hbad => absurd hbad hin⟩

end

/-- A block that is still open on a known session was not the transaction's. -/
theorem Direct.ownerFinishTransaction_block {d : Direct} (token : Nat) (commit : Bool)
    (ho : o.Honest) (hready : d.closed = false ∧
      d.backupModeExitUnconfirmed = false) (hd : d' = (d.ownerFinishTransaction token commit o).1)
    (hknown : d'.transactionOutcomeUnknown = false) (ht : d'.block = some (.transaction t)) :
    d.block = some (.transaction t) ∧ d'.inTransaction = d.inTransaction := by
  subst hd
  by_cases hrunning : d.inTransaction = true
  · obtain ⟨-, -, hdone⟩ := d.ownerFinishTransaction_spec token commit ho
    rw [hdone hrunning hready.1 hready.2 hknown] at ht
    cases ht
  · have hsame : (d.ownerFinishTransaction token commit o).1 = d := by
      unfold ownerFinishTransaction
      rw [if_pos hrunning]
    rw [hsame] at ht ⊢
    exact ⟨ht, rfl⟩

theorem Direct.ownerAbandonUnknownTransaction_spec (d : Direct) :
    d.Step d.ownerAbandonUnknownTransaction.1 ∧
    d.ownerAbandonUnknownTransaction.1.transactionOutcomeUnknown = d.transactionOutcomeUnknown ∧
    d.ownerAbandonUnknownTransaction.1.block = d.block ∧
    (d.inTransaction = false → d.ownerAbandonUnknownTransaction.1.inTransaction = false) := by
  unfold ownerAbandonUnknownTransaction
  split
  · exact ⟨Step.refl d, rfl, rfl, id⟩
  · split
    · exact ⟨Step.refl d, rfl, rfl, id⟩
    · exact ⟨⟨id, rfl, rfl⟩, rfl, rfl, fun _ => rfl⟩

theorem Direct.exchange_block {d : Direct}
    (h : (d.exchange who inBlock).block = some (.transaction t)) :
    who = .transaction t ∨ d.block = some (.transaction t) := by
  cases inBlock with
  | false => simp [exchange] at h
  | true =>
    cases hblock : d.block with
    | none =>
      rw [exchange, hblock] at h
      exact .inl (by simpa using h)
    | some owner =>
      rw [exchange, hblock] at h
      exact .inr (by simpa using h)

/-- A statement keeps the host side of its transaction. -/
theorem Direct.runTransactionRequest_spec (d : Direct) (token : Nat) (operation : String)
    (o : Outcome Error) :
    d.Step (d.runTransactionRequest token operation o).1 ∧
    (d.runTransactionRequest token operation o).1.inTransaction = d.inTransaction ∧
    (∀ t, (d.runTransactionRequest token operation o).1.block = some (.transaction t) →
      d.block = some (.transaction t) ∨ (t = token ∧ d.inTransaction = true)) := by
  unfold runTransactionRequest
  cases hready : d.checkReady with
  | some error => exact ⟨Step.refl d, rfl, fun t ht => .inl ht⟩
  | none =>
    dsimp only
    split
    · exact ⟨Step.refl d, rfl, fun t ht => .inl ht⟩
    · rename_i hin
      have hblock : ∀ t, (d.exchange (.transaction token) o.inBlock).block =
          some (.transaction t) →
          d.block = some (.transaction t) ∨ (t = token ∧ d.inTransaction = true) := by
        intro t ht
        rcases exchange_block ht with hwho | hold
        · cases hwho
          exact .inr ⟨rfl, by simpa using hin⟩
        · exact .inl hold
      split
      · exact ⟨⟨fun _ => rfl, rfl, rfl⟩, rfl, hblock⟩
      · split
        · exact ⟨⟨id, rfl, rfl⟩, rfl, hblock⟩
        · exact ⟨⟨fun _ => rfl, rfl, rfl⟩, rfl, hblock⟩

/-- Work outside every transaction starts no block of one. -/
def Direct.Plain (d d' : Direct) : Prop :=
  (d.transactionOutcomeUnknown = true → d'.transactionOutcomeUnknown = true) ∧
    ∀ t, d'.block = some (.transaction t) → d.block = some (.transaction t)

theorem Direct.plain_exchange (d : Direct) (inBlock : Bool) :
    d.Plain (d.exchange .other inBlock) :=
  ⟨id, fun _ ht => (exchange_block ht).resolve_left (by simp)⟩

theorem Direct.Plain.trans {d : Direct} (h : d.Plain d') (h' : d'.Plain d'') : d.Plain d'' :=
  ⟨fun hd => h'.1 (h.1 hd), fun t ht => h.2 t (h'.2 t ht)⟩

section

variable (d : Direct)

include d

theorem Direct.plain_unknown : d.Plain d.unknown := ⟨fun _ => rfl, fun _ ht => ht⟩

theorem Direct.Plain.refl : d.Plain d := ⟨id, fun _ ht => ht⟩

theorem Direct.runDatabaseRequest_plain (operation : String) (first second : Outcome Error) :
    d.Plain (d.runDatabaseRequest operation first second).1 := by
  have hcalled := d.plain_exchange first.inBlock
  have hrecovered := hcalled.trans ((d.exchange .other first.inBlock).plain_exchange second.inBlock)
  unfold runDatabaseRequest
  split
  · exact Plain.refl d
  · split
    · exact Plain.refl d
    · split
      · exact hcalled.trans (plain_unknown _)
      · split
        · exact hcalled.trans (plain_unknown _)
        · exact hcalled
        · split
          · exact hrecovered
          · exact hrecovered.trans (plain_unknown _)

theorem Direct.execProtocolRaw_plain (o : Outcome Error) : d.Plain (d.execProtocolRaw o).1 := by
  have hcalled := d.plain_exchange o.inBlock
  unfold execProtocolRaw
  split
  · exact Plain.refl d
  · split
    · exact hcalled.trans (plain_unknown _)
    · exact hcalled

theorem Direct.other_plain (effect : OtherEffect) : d.Plain (d.other effect).1 := by
  unfold other
  split
  · exact Plain.refl d
  · refine ⟨fun hd => ?_, (d.plain_exchange effect.inBlock).2⟩
    show (d.transactionOutcomeUnknown || effect.unknown) = true
    rw [hd, Bool.true_or]

theorem Direct.close_plain (teardown : Except Error Unit) : d.Plain (d.close teardown).1 := by
  unfold close
  split
  · exact Plain.refl d
  · split
    · exact Plain.refl d
    · exact ⟨id, fun _ ht => ht⟩

end

end Oliphaunt.Wasix
