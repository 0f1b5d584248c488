import Mathlib.Tactic.Common

/-!
# PostgreSQL transaction blocks

What the transaction commands of PostgreSQL do to a session, and which command
tag each one reports. A session is inside a block or not; a block is live or
failed, and carries its savepoints. Blocks are numbered as they are opened, so
that being in the same block is more than being in some block.

A session also remembers the statements that succeeded since it was observed,
each with the block it ran in: rolling back to a savepoint forgets the ones it
undoes, ending the block does not. `Session.Inside b` says that everything a
session remembers happened in the still open block `b`, and `execAll_inside` is
the rule for it: a text leaves the block only if a response to it shows that.
-/

namespace TransactionBlock

inductive Command where
  | begin
  | startTransaction
  | commit (chain : Bool)
  | rollback (chain : Bool)
  | prepareTransaction
  | commitPrepared
  | rollbackPrepared
  | savepoint
  | release
  | rollbackTo
  /-- not a transaction command -/
  | other
deriving DecidableEq, Repr

/-- A word as the keyword lookup sees it: only ASCII letters are folded. A token
that is not a word is no keyword. -/
def keyword : Option (List Char) → String
  | some word => String.ofList (word.map Char.toLower)
  | none => ""

def dropQualifier : List String → List String
  | "work" :: rest => rest
  | "transaction" :: rest => rest
  | rest => rest

/-- The chain clause that closes a statement, `none` if there is no such clause. -/
def chainClause : List String → Option Bool
  | [] => some false
  | ["and", "chain"] => some true
  | ["and", "no", "chain"] => some false
  | _ => none

def Command.commitOf (rest : List String) : Command :=
  match chainClause (dropQualifier rest) with
  | some chain => .commit chain
  | none => .other

def Command.rollbackOf (rest : List String) : Command :=
  match chainClause (dropQualifier rest) with
  | some chain => .rollback chain
  | none => .other

/-- The command that a statement's keywords make. -/
def Command.ofKeywords : List String → Command
  | "begin" :: _ => .begin
  | "start" :: "transaction" :: _ => .startTransaction
  | "prepare" :: "transaction" :: _ => .prepareTransaction
  | "commit" :: "prepared" :: _ => .commitPrepared
  | "rollback" :: "prepared" :: _ => .rollbackPrepared
  | "savepoint" :: _ => .savepoint
  | "release" :: _ => .release
  | "commit" :: rest => .commitOf rest
  | "end" :: rest => .commitOf rest
  | "abort" :: rest => .rollbackOf rest
  | "rollback" :: rest =>
    if (dropQualifier rest).head? = some "to" then .rollbackTo else .rollbackOf rest
  | _ => .other

/-- The command that a statement's tokens make. -/
def Command.ofWords (words : List (Option (List Char))) : Command :=
  .ofKeywords (words.map keyword)

theorem Command.commitOf_ne (rest : List String) (chain : Bool) :
    Command.commitOf rest ≠ .rollback chain := by
  unfold Command.commitOf
  split <;> exact Command.noConfusion

/-- A chained rollback is written `ROLLBACK` or `ABORT`, a qualifier or none, and the
chain clause. -/
theorem Command.ofKeywords_rollback (h : Command.ofKeywords keywords = .rollback true) :
    ∃ first rest, keywords = first :: rest ∧ (first = "rollback" ∨ first = "abort") ∧
      chainClause (dropQualifier rest) = some true := by
  have hclause : ∀ {rest}, Command.rollbackOf rest = .rollback true →
      chainClause (dropQualifier rest) = some true := by
    intro rest hrest
    unfold Command.rollbackOf at hrest
    split at hrest <;> cases hrest
    rename_i hsome
    exact hsome
  unfold Command.ofKeywords at h
  split at h
  case h_8 => exact absurd h (Command.commitOf_ne _ _)
  case h_9 => exact absurd h (Command.commitOf_ne _ _)
  case h_10 rest => exact ⟨_, rest, rfl, .inr rfl, hclause h⟩
  case h_11 rest _ =>
    split at h <;> try cases h
    exact ⟨_, rest, rfl, .inl rfl, hclause h⟩
  all_goals cases h

structure Block where
  id : Nat
  failed : Bool
  /-- innermost first, how many remembered statements each one keeps -/
  savepoints : List Nat
deriving DecidableEq, Repr

structure Session (α : Type) where
  block : Option Block
  nextBlock : Nat
  /-- the statements that succeeded and were not undone by a rollback to a savepoint -/
  done : List (α × Nat)
  /-- the blocks that were committed -/
  committed : List Nat
deriving DecidableEq

/-- What PostgreSQL decides about one command. -/
structure Verdict where
  succeeds : Bool := true
  /-- the tag of a command that is not a transaction command -/
  tag : String := ""
  /-- the savepoint a command names, counted from the innermost -/
  savepoint : Nat := 0
deriving DecidableEq

variable {α : Type}

/-- A session as it is when observation starts: idle, or inside a block that has
savepoints. -/
def Session.start (failed : Option Bool) (savepoints : Nat) : Session α where
  block := failed.map fun f => { id := 0, failed := f, savepoints := List.replicate savepoints 0 }
  nextBlock := 1
  done := []
  committed := []

def Session.failed (s : Session α) : Bool :=
  match s.block with
  | some b => b.failed
  | none => false

/-- An error inside a block. -/
def Session.fail (s : Session α) : Session α :=
  { s with block := s.block.map fun b => { b with failed := true } }

/-- The block a `BEGIN` or an `AND CHAIN` opens. -/
def Session.fresh (s : Session α) : Session α :=
  { s with
    block := some { id := s.nextBlock, failed := false, savepoints := [] }
    nextBlock := s.nextBlock + 1 }

/-- The end of a block, with the next one when it is chained. -/
def Session.finish (s : Session α) (chain : Bool) : Session α :=
  if chain then s.fresh else { s with block := none }

/-- A command outside any block. -/
def execIdle (s : Session α) (statement : α) (c : Command) (v : Verdict) :
    Session α × Option String :=
  match c with
  | .begin => if v.succeeds then (s.fresh, some "BEGIN") else (s, none)
  | .startTransaction => if v.succeeds then (s.fresh, some "START TRANSACTION") else (s, none)
  | .commit chain => if chain then (s, none) else (s, some "COMMIT")
  | .rollback chain => if chain then (s, none) else (s, some "ROLLBACK")
  | .prepareTransaction => (s, some "ROLLBACK")
  | .commitPrepared => if v.succeeds then (s, some "COMMIT PREPARED") else (s, none)
  | .rollbackPrepared => if v.succeeds then (s, some "ROLLBACK PREPARED") else (s, none)
  | .savepoint | .release | .rollbackTo => (s, none)
  | .other =>
    if v.succeeds then
      ({ s with
        nextBlock := s.nextBlock + 1
        done := s.done ++ [(statement, s.nextBlock)]
        committed := s.committed ++ [s.nextBlock] }, some v.tag)
    else (s, none)

/-- The rollback to a savepoint of the block: it stays, the later ones go, and so does
what was done after it. -/
def rollbackToSavepoint (s : Session α) (b : Block) (v : Verdict) : Session α × Option String :=
  match v.succeeds, b.savepoints[v.savepoint]? with
  | true, some kept =>
    ({ s with
      block := some { b with failed := false, savepoints := b.savepoints.drop v.savepoint }
      done := s.done.take kept }, some "ROLLBACK")
  | _, _ => (s.fail, none)

/-- A command inside the failed block `b`. -/
def execFailed (s : Session α) (b : Block) (c : Command) (v : Verdict) :
    Session α × Option String :=
  match c with
  | .commit chain => (s.finish chain, some "ROLLBACK")
  | .rollback chain => (s.finish chain, some "ROLLBACK")
  | .prepareTransaction => (s.finish false, some "ROLLBACK")
  | .rollbackTo => rollbackToSavepoint s b v
  | _ => (s, none)

/-- A command inside the live block `b`. -/
def execLive (s : Session α) (b : Block) (statement : α) (c : Command) (v : Verdict) :
    Session α × Option String :=
  match c with
  | .rollback chain => (s.finish chain, some "ROLLBACK")
  | .commit chain =>
    if v.succeeds then
      ({ s with committed := s.committed ++ [b.id] }.finish chain, some "COMMIT")
    else (s.finish false, none)
  | .prepareTransaction =>
    (s.finish false, if v.succeeds then some "PREPARE TRANSACTION" else none)
  | .begin => if v.succeeds then (s, some "BEGIN") else (s.fail, none)
  | .startTransaction => if v.succeeds then (s, some "START TRANSACTION") else (s.fail, none)
  | .commitPrepared | .rollbackPrepared => (s.fail, none)
  | .savepoint =>
    if v.succeeds then
      ({ s with block := some { b with savepoints := s.done.length :: b.savepoints } },
        some "SAVEPOINT")
    else (s.fail, none)
  | .release =>
    if v.succeeds ∧ v.savepoint < b.savepoints.length then
      ({ s with block := some { b with savepoints := b.savepoints.drop (v.savepoint + 1) } },
        some "RELEASE")
    else (s.fail, none)
  | .rollbackTo => rollbackToSavepoint s b v
  | .other =>
    if v.succeeds then ({ s with done := s.done ++ [(statement, b.id)] }, some v.tag)
    else (s.fail, none)

/-- One command: the session after it and the tag it reports, `none` for an error. -/
def exec (s : Session α) (statement : α) (c : Command) (v : Verdict) :
    Session α × Option String :=
  match s.block with
  | none => execIdle s statement c v
  | some b => if b.failed then execFailed s b c v else execLive s b statement c v

/-- The commands of one text, up to the first error: the session after them, the
tags they report and whether one failed. -/
def execAll : Session α → List (α × Command × Verdict) → Session α × List String × Bool
  | s, [] => (s, [], false)
  | s, (statement, c, v) :: rest =>
    match exec s statement c v with
    | (t, none) => (t, [], true)
    | (t, some tag) =>
      let r := execAll t rest
      (r.1, tag :: r.2.1, r.2.2)

/-- The session is inside block `b`, nothing was committed, and every remembered
statement ran in `b`. -/
structure Session.Inside (b : Nat) (s : Session α) : Prop where
  block : ∃ k, s.block = some k ∧ k.id = b
  committed : s.committed = []
  done : ∀ e ∈ s.done, e.2 = b

/-- The tags that show that a block was opened or committed. -/
def openingTags : List String := ["BEGIN", "START TRANSACTION", "COMMIT"]

variable {s : Session α} {b : Block} {v : Verdict} {tag : String} {c : Command} {n : Nat}

theorem Session.Inside.fail {b : Nat} (h : s.Inside b) : s.fail.Inside b := by
  obtain ⟨k, hk, hid⟩ := h.block
  exact ⟨⟨{ k with failed := true }, by simp [Session.fail, hk], hid⟩, h.committed, h.done⟩

theorem Session.finish_failed (s : Session α) (chain : Bool) :
    (s.finish chain).failed = false := by
  cases chain <;> rfl

theorem rollbackToSavepoint_failed (h : rollbackToSavepoint s b v = (t, some tag)) :
    t.failed = false := by
  unfold rollbackToSavepoint at h
  split at h <;> cases h
  rfl

/-- A command that reports a tag leaves no failed block behind. -/
theorem exec_failed (h : exec s statement c v = (t, some tag)) : t.failed = false := by
  unfold exec at h
  split at h
  · rename_i hblock
    unfold execIdle at h
    split at h <;> (try split at h) <;> cases h <;> simp [Session.failed, Session.fresh, hblock]
  · rename_i b hblock
    split at h
    · unfold execFailed at h
      split at h <;> try cases h
      · exact s.finish_failed _
      · exact s.finish_failed _
      · exact s.finish_failed false
      · exact rollbackToSavepoint_failed h
    · rename_i hlive
      have hs : s.failed = false := by simpa [Session.failed, hblock] using hlive
      unfold execLive at h
      split at h
      case h_10 => exact rollbackToSavepoint_failed h
      all_goals (try split at h) <;> cases h <;>
        first
        | exact hs
        | exact Session.finish_failed _ _
        | simpa [Session.failed] using hlive

theorem rollbackToSavepoint_inside (v : Verdict) (hs : s.Inside n) (hid : b.id = n) :
    (rollbackToSavepoint s b v).1.Inside n := by
  unfold rollbackToSavepoint
  split
  · exact ⟨⟨_, rfl, hid⟩, hs.committed, fun e he => hs.done e (List.mem_of_mem_take he)⟩
  · exact hs.fail

/-- A command that neither chains a rollback nor chains a commit of a failed block
stays in the block, ends it without a successor, or reports a commit. -/
theorem exec_inside (statement : α) (v : Verdict) (hs : s.Inside n) (hrollback : c ≠ .rollback true)
    (hcommit : s.failed = true → c ≠ .commit true) :
    (exec s statement c v).1.Inside n ∨ (exec s statement c v).1.block = none ∨
      (exec s statement c v).2 = some "COMMIT" := by
  obtain ⟨b, hb, hid⟩ := hs.block
  simp only [exec, hb]
  split
  · rename_i hfailed
    have hnot : c ≠ .commit true := hcommit (by simp [Session.failed, hb, hfailed])
    unfold execFailed
    split
    · rename_i chain
      cases chain
      · exact .inr (.inl rfl)
      · exact absurd rfl hnot
    · rename_i chain
      cases chain
      · exact .inr (.inl rfl)
      · exact absurd rfl hrollback
    · exact .inr (.inl rfl)
    · exact .inl (rollbackToSavepoint_inside v hs hid)
    · exact .inl hs
  · unfold execLive
    split
    · rename_i chain
      cases chain
      · exact .inr (.inl rfl)
      · exact absurd rfl hrollback
    · split
      · exact .inr (.inr rfl)
      · exact .inr (.inl rfl)
    · exact .inr (.inl rfl)
    · split
      · exact .inl hs
      · exact .inl hs.fail
    · split
      · exact .inl hs
      · exact .inl hs.fail
    · exact .inl hs.fail
    · exact .inl hs.fail
    · split
      · exact .inl ⟨⟨_, rfl, hid⟩, hs.committed, hs.done⟩
      · exact .inl hs.fail
    · split
      · exact .inl ⟨⟨_, rfl, hid⟩, hs.committed, hs.done⟩
      · exact .inl hs.fail
    · exact .inl (rollbackToSavepoint_inside v hs hid)
    · split
      · refine .inl ⟨⟨b, hb, hid⟩, hs.committed, fun e he => ?_⟩
        rcases List.mem_append.mp he with he | he
        · exact hs.done e he
        · exact (List.mem_singleton.mp he ▸ hid : e.2 = n)
      · exact .inl hs.fail

/-- Outside a block only a `BEGIN` or `START TRANSACTION` gets into one. -/
theorem exec_idle (statement : α) (c : Command) (v : Verdict) (hs : s.block = none) :
    (exec s statement c v).1.block = none ∨
      ∃ tag ∈ openingTags, (exec s statement c v).2 = some tag := by
  simp only [exec, hs]
  unfold execIdle
  split <;> (try split) <;> first
    | exact .inl hs
    | exact .inr ⟨_, by simp [openingTags], rfl⟩

theorem execAll_idle (commands : List (α × Command × Verdict)) (hs : s.block = none) :
    (execAll s commands).1.block = none ∨ ∃ tag ∈ openingTags, tag ∈ (execAll s commands).2.1 := by
  induction commands generalizing s with
  | nil => exact .inl hs
  | cons command rest ih =>
    obtain ⟨statement, c, v⟩ := command
    rcases hexec : exec s statement c v with ⟨t, _ | tag⟩
    · have hidle := exec_idle statement c v hs
      simp only [execAll, hexec] at hidle ⊢
      exact hidle.imp_right fun ⟨_, _, h⟩ => by cases h
    · have hidle := exec_idle statement c v hs
      simp only [execAll, hexec] at hidle ⊢
      rcases hidle with hidle | ⟨opening, hmem, heq⟩
      · exact (ih hidle).imp_right fun ⟨tag', hmem, hin⟩ => ⟨tag', hmem, .tail _ hin⟩
      · exact .inr ⟨opening, hmem, Option.some.inj heq ▸ (.head _)⟩

/-- The rule for a text: unless it chains a rollback, or chains the commit of a block
that had already failed, it stays in the block, leaves the session idle, or reports that
a block was opened or committed. -/
theorem execAll_inside (commands : List (α × Command × Verdict)) (hs : s.Inside n)
    (hrollback : ∀ c ∈ commands, c.2.1 ≠ .rollback true)
    (hcommit : s.failed = true → ∀ c ∈ commands.head?, c.2.1 ≠ .commit true) :
    (execAll s commands).1.Inside n ∨ (execAll s commands).1.block = none ∨
      ∃ tag ∈ openingTags, tag ∈ (execAll s commands).2.1 := by
  induction commands generalizing s with
  | nil => exact .inl hs
  | cons command rest ih =>
    obtain ⟨statement, c, v⟩ := command
    have hstep :=
      exec_inside statement v hs (hrollback _ (.head _)) fun hfailed => hcommit hfailed _ rfl
    rcases hexec : exec s statement c v with ⟨t, _ | tag⟩
    · simp only [execAll, hexec] at hstep ⊢
      rcases hstep with hin | hidle | hcommits
      · exact .inl hin
      · exact .inr (.inl hidle)
      · cases hcommits
    · -- A reported tag leaves no failed block, so the rest meets the condition by itself.
      have hlive : t.failed = false := exec_failed hexec
      simp only [execAll, hexec] at hstep ⊢
      have hlater : ∀ {p : Prop}, (∃ tag' ∈ openingTags, tag' ∈ (execAll t rest).2.1) →
          p ∨ ∃ tag' ∈ openingTags, tag' ∈ tag :: (execAll t rest).2.1 :=
        fun ⟨tag', hmem, hin⟩ => .inr ⟨tag', hmem, .tail _ hin⟩
      rcases hstep with hin | hidle | hcommits
      · rcases ih hin (fun c hc => hrollback c (.tail _ hc)) (by simp [hlive]) with h | h | h
        · exact .inl h
        · exact .inr (.inl h)
        · exact .inr (hlater h)
      · rcases execAll_idle rest hidle with h | h
        · exact .inr (.inl h)
        · exact .inr (hlater h)
      · cases hcommits
        exact .inr (.inr ⟨"COMMIT", by simp [openingTags], .head _⟩)

end TransactionBlock
