import Mathlib.Tactic.Common

/-!
# Splitting a text into statements

A scanner walks a text in turns. Each turn looks at the first symbol that is left
and what follows it, says what it found there, and leaves a rest. What the turns
found is then split: `items` keeps the tokens outside parentheses and the
semicolons between statements. A `Scan` is a search through the items.

* `Lexer` — one turn, with the proof that it leaves less;
* `Lexer.places`, `Lexer.founds` — where the turns over a whole text are taken,
  and what they find;
* `Scan.finds_iff` — a scan succeeds exactly if it does on some statement;
* `Scan.visited` — the places that a scan comes to before it succeeds, each with
  whether the scan is at work there;
* `Scan.answers_of_follows` — what a scan finds through one lexer it finds through
  another one that follows the first to the places visited;
* `Scan.answers_congr` — two scans through two lexers that agree on the places
  visited give the same answer.
-/

namespace Statements

variable {α β φ : Type}

theorem suffix_cons_cons (c d : α) (cs : List α) : cs <:+ c :: d :: cs :=
  (List.suffix_cons d cs).trans (List.suffix_cons c (d :: cs))

structure Lexer (α φ : Type) where
  /-- what a turn finds at `c :: cs`, and what it leaves -/
  turn : α → List α → φ × List α
  rest_le : ∀ c cs, (turn c cs).2.length ≤ cs.length

/-- Where the turns over a text are taken: the symbol there and what follows it. -/
def Lexer.places (lexer : Lexer α φ) (text : List α) : List (α × List α) :=
  match text with
  | [] => []
  | c :: cs => (c, cs) :: lexer.places (lexer.turn c cs).2
termination_by text.length
decreasing_by exact Nat.lt_succ_of_le (lexer.rest_le c cs)

/-- What the turns over a text find. -/
def Lexer.founds (lexer : Lexer α φ) (text : List α) : List φ :=
  (lexer.places text).map fun place => (lexer.turn place.1 place.2).1

section

variable (lexer : Lexer α φ)

include lexer

@[simp] theorem Lexer.places_nil : lexer.places [] = [] := by
  rw [Lexer.places]

theorem Lexer.places_cons (c : α) (cs : List α) :
    lexer.places (c :: cs) = (c, cs) :: lexer.places (lexer.turn c cs).2 := by
  rw [Lexer.places]

@[simp] theorem Lexer.founds_nil : lexer.founds [] = [] := by
  rw [Lexer.founds, Lexer.places_nil]
  rfl

theorem Lexer.founds_cons (c : α) (cs : List α) :
    lexer.founds (c :: cs) = (lexer.turn c cs).1 :: lexer.founds (lexer.turn c cs).2 := by
  rw [Lexer.founds, Lexer.places_cons]
  rfl

end

/-- What a turn can find, as far as statements go. -/
inductive Found (α : Type) where
  /-- nothing: white space or a comment -/
  | skipped
  | word (text : List α)
  | other
  | openParen
  | closeParen
  | semicolon
deriving DecidableEq, Repr

/-- A token outside parentheses, or the end of a statement. -/
inductive Item (α : Type) where
  | boundary
  | word (text : List α)
  | other
deriving DecidableEq, Repr

/-- A token is kept outside parentheses only. -/
def emit (depth : Nat) (item : Item α) (rest : List (Item α)) : List (Item α) :=
  if depth = 0 then item :: rest else rest

/-- The items of what was found inside `depth` parentheses. A closing parenthesis without
an opening one is a token if `unmatched` says so, and nothing otherwise. -/
def items (unmatched : Bool) : Nat → List (Found α) → List (Item α)
  | _, [] => []
  | depth, .skipped :: rest => items unmatched depth rest
  | depth, .word text :: rest => emit depth (.word text) (items unmatched depth rest)
  | depth, .other :: rest => emit depth .other (items unmatched depth rest)
  | depth, .openParen :: rest => emit depth .other (items unmatched (depth + 1) rest)
  | 0, .closeParen :: rest =>
    if unmatched then .other :: items unmatched 0 rest else items unmatched 0 rest
  | depth + 1, .closeParen :: rest => items unmatched depth rest
  | 0, .semicolon :: rest => .boundary :: items unmatched 0 rest
  | depth + 1, .semicolon :: rest => items unmatched (depth + 1) rest

variable {founds : List (Found α)}

def Found.map (f : List α → List β) : Found α → Found β
  | .skipped => .skipped
  | .word text => .word (f text)
  | .other => .other
  | .openParen => .openParen
  | .closeParen => .closeParen
  | .semicolon => .semicolon

def Item.map (f : List α → List β) : Item α → Item β
  | .boundary => .boundary
  | .word text => .word (f text)
  | .other => .other

/-- What one turn adds to the items, when the items of the rest are renamed. -/
theorem items_cons_map (f : List α → List β) (unmatched : Bool)
    (h : ∀ depth, items unmatched depth founds' = (items unmatched depth founds).map (Item.map f))
    (found : Found α) (depth : Nat) : items unmatched depth (found.map f :: founds') =
      (items unmatched depth (found :: founds)).map (Item.map f) := by
  have hemit : ∀ (item : Item α) (depth' : Nat),
      emit depth (item.map f) (items unmatched depth' founds') =
        (emit depth item (items unmatched depth' founds)).map (Item.map f) := by
    intro item depth'
    unfold emit
    split
    · rw [h, List.map_cons]
    · exact h depth'
  cases found with
  | skipped => exact h depth
  | word text => exact hemit (.word text) depth
  | other => exact hemit .other depth
  | openParen => exact hemit .other (depth + 1)
  | closeParen =>
    cases depth with
    | zero =>
      simp only [Found.map, items]
      split
      · rw [h, List.map_cons]
        rfl
      · exact h 0
    | succ depth => exact h depth
  | semicolon =>
    cases depth with
    | zero =>
      simp only [Found.map, items, h, List.map_cons]
      rfl
    | succ depth => exact h (depth + 1)

/-! ## Scans -/

/-- A search through the items of a text, statement after statement. -/
structure Scan (α σ : Type) where
  /-- in front of a statement -/
  start : σ
  /-- nothing more is to be found in the statement -/
  idle : σ
  /-- a word of the statement; `none` when the search succeeds with it -/
  next : σ → List α → Option σ
  next_idle : ∀ text, next idle text = some idle

variable {σ : Type}

/-- The scan succeeds somewhere in the items. -/
def Scan.finds (scan : Scan α σ) : σ → List (Item α) → Bool
  | _, [] => false
  | _, .boundary :: rest => scan.finds scan.start rest
  | _, .other :: rest => scan.finds scan.idle rest
  | s, .word text :: rest =>
    match scan.next s text with
    | none => true
    | some s' => scan.finds s' rest

/-- Renaming the words changes nothing for a scan that goes by the new names. -/
theorem Scan.finds_map {scan : Scan α σ} {scan' : Scan β σ} {f : List α → List β}
    (hstart : scan'.start = scan.start) (hidle : scan'.idle = scan.idle)
    (hnext : ∀ s text, scan'.next s (f text) = scan.next s text) (s : σ) (found : List (Item α)) :
    scan'.finds s (found.map (Item.map f)) = scan.finds s found := by
  induction found generalizing s with
  | nil => rfl
  | cons item rest ih =>
    cases item with
    | boundary => exact (ih _).trans (by rw [hstart, finds])
    | other => exact (ih _).trans (by rw [hidle, finds])
    | word text => simp only [List.map_cons, Item.map, finds, hnext, ih]

/-- Some statement begins with a word that satisfies `p`; `start` says that the items
begin a statement. -/
def leads (p : List α → Bool) : Bool → List (Item α) → Bool
  | _, [] => false
  | _, .boundary :: rest => leads p true rest
  | start, .word text :: rest => (start && p text) || leads p false rest
  | _, .other :: rest => leads p false rest

/-- The search for a first word that satisfies `p`. -/
def opening (p : List α → Bool) : Scan α Bool where
  start := true
  idle := false
  next start text := if start && p text then none else some false
  next_idle _ := rfl

theorem leads_eq (p : List α → Bool) (start : Bool) (found : List (Item α)) :
    leads p start found = (opening p).finds start found := by
  induction found generalizing start with
  | nil => rfl
  | cons item rest ih =>
    cases item with
    | boundary => exact ih true
    | other => exact ih false
    | word text =>
      rw [leads, Scan.finds, ih false]
      simp only [opening]
      cases start && p text <;> rfl

/-- The tokens in front of the first boundary, and those of the statements behind it that
have one. A token that is not a word is `none`. -/
def divide : List (Item α) → List (Option (List α)) × List (List (Option (List α)))
  | [] => ([], [])
  | .boundary :: rest =>
    ([], if (divide rest).1 = [] then (divide rest).2 else (divide rest).1 :: (divide rest).2)
  | .word text :: rest => (some text :: (divide rest).1, (divide rest).2)
  | .other :: rest => (none :: (divide rest).1, (divide rest).2)

/-- The tokens of each statement that has one. -/
def statements (found : List (Item α)) : List (List (Option (List α))) :=
  (divide (.boundary :: found)).2

/-- The scan succeeds on the tokens of one statement. -/
def Scan.reads (scan : Scan α σ) : σ → List (Option (List α)) → Bool
  | _, [] => false
  | _, none :: rest => scan.reads scan.idle rest
  | s, some text :: rest =>
    match scan.next s text with
    | none => true
    | some s' => scan.reads s' rest

section

variable (scan : Scan α σ)

theorem Scan.finds_divide (s : σ) (found : List (Item α)) :
    scan.finds s found = true ↔ scan.reads s (divide found).1 = true ∨
      ∃ words ∈ (divide found).2, scan.reads scan.start words = true := by
  induction found generalizing s with
  | nil => simp [finds, divide, reads]
  | cons item rest ih =>
    cases item with
    | boundary =>
      rw [finds, ih scan.start, divide]
      split
      · rename_i hnone
        simp [hnone, reads]
      · simp [reads]
    | other => rw [finds, ih scan.idle, divide, reads]
    | word text =>
      rw [finds, divide, reads]
      cases scan.next s text with
      | none => simp
      | some s' => exact ih s'

/-- A scan succeeds exactly if it does on some statement. -/
theorem Scan.finds_iff (found : List (Item α)) : scan.finds scan.start found = true ↔
    ∃ words ∈ statements found, scan.reads scan.start words = true := by
  have h := scan.finds_divide scan.start (.boundary :: found)
  simpa [finds, divide, reads, statements] using h

/-- One turn inside `depth` parentheses; `none` when the scan succeeds there. -/
def Scan.turn (unmatched : Bool) (depth : Nat) (s : σ) : Found α → Option (Nat × σ)
  | .skipped => some (depth, s)
  | .word text => if depth = 0 then (scan.next s text).map (depth, ·) else some (depth, s)
  | .other => some (depth, if depth = 0 then scan.idle else s)
  | .openParen => some (depth + 1, if depth = 0 then scan.idle else s)
  | .closeParen => some (depth - 1, if depth = 0 ∧ unmatched = true then scan.idle else s)
  | .semicolon => some (depth, if depth = 0 then scan.start else s)

/-- The scan succeeds on what was found. -/
def Scan.answers (scan : Scan α σ) (unmatched : Bool) : Nat → σ → List (Found α) → Bool
  | _, _, [] => false
  | depth, s, found :: rest =>
    match scan.turn unmatched depth s found with
    | none => true
    | some (depth', s') => scan.answers unmatched depth' s' rest

theorem Scan.finds_items (unmatched : Bool) (depth : Nat) (s : σ) (founds : List (Found α)) :
    scan.finds s (items unmatched depth founds) = scan.answers unmatched depth s founds := by
  induction founds generalizing depth s with
  | nil => rfl
  | cons found rest ih =>
    cases found with
    | skipped => exact ih depth s
    | word text =>
      rw [items, emit, answers, turn]
      split
      · rw [finds]
        cases scan.next s text with
        | none => rfl
        | some s' => exact ih depth s'
      · exact ih depth s
    | other =>
      rw [items, emit, answers, turn]
      split <;> exact ih depth _
    | openParen =>
      rw [items, emit, answers, turn]
      split <;> exact ih (depth + 1) _
    | closeParen =>
      cases depth with
      | zero => cases unmatched <;> exact ih 0 _
      | succ depth => exact ih depth s
    | semicolon =>
      cases depth with
      | zero => exact ih 0 scan.start
      | succ depth => exact ih (depth + 1) s

/-- What one turn answers, over a text. -/
theorem Scan.answers_cons (lexer : Lexer α (Found α)) (unmatched : Bool) (depth : Nat) (s : σ)
    (c : α) (cs : List α) : scan.answers unmatched depth s (lexer.founds (c :: cs)) =
      match scan.turn unmatched depth s (lexer.turn c cs).1 with
      | none => true
      | some (depth', s') =>
        scan.answers unmatched depth' s' (lexer.founds (lexer.turn c cs).2) := by
  rw [Lexer.founds_cons, answers]

variable [DecidableEq σ]

/-- The places that the scan comes to before it succeeds, each with whether the scan is at
work there: outside parentheses, and not idle. -/
def Scan.visited {σ : Type} [DecidableEq σ] (scan : Scan α σ)
    (lexer : Lexer α (Found α)) (unmatched : Bool) :
    Nat → σ → List (α × List α) → List (Bool × α × List α)
  | _, _, [] => []
  | depth, s, (c, cs) :: rest =>
    (decide (depth = 0 ∧ s ≠ scan.idle), c, cs) ::
      match scan.turn unmatched depth s (lexer.turn c cs).1 with
      | none => []
      | some (depth', s') => scan.visited lexer unmatched depth' s' rest

theorem Scan.mem_of_visited {lexer : Lexer α (Found α)} {places : List (α × List α)}
    (h : place ∈ scan.visited lexer unmatched depth s places) : place.2 ∈ places := by
  induction places generalizing depth s with
  | nil => cases h
  | cons first rest ih =>
    rw [visited] at h
    rcases List.mem_cons.mp h with rfl | hlater
    · exact .head _
    · split at hlater
      · cases hlater
      · exact .tail _ (ih hlater)

/-- What holds wherever the scan comes to in a text holds at its first place, and wherever
it comes to in what the turn there leaves. -/
theorem Scan.forall_visited_cons {lexer : Lexer α (Found α)} {P : Bool → α → List α → Prop}
    (h : ∀ place ∈ scan.visited lexer unmatched depth s (lexer.places (c :: cs)),
      P place.1 place.2.1 place.2.2) :
    P (decide (depth = 0 ∧ s ≠ scan.idle)) c cs ∧
      ∀ depth' s', scan.turn unmatched depth s (lexer.turn c cs).1 = some (depth', s') →
        ∀ place ∈ scan.visited lexer unmatched depth' s' (lexer.places (lexer.turn c cs).2),
          P place.1 place.2.1 place.2.2 := by
  rw [Lexer.places_cons, visited] at h
  refine ⟨h _ (.head _), fun depth' s' hturn place hplace => h place (.tail _ ?_)⟩
  rw [hturn]
  exact hplace

end

/-! ## Two lexers on one text -/

/-- Nothing that begins or ends parentheses or a statement. -/
def Found.isPlain : Found α → Bool
  | .skipped | .word _ | .other => true
  | _ => false

/-- The turns from `text` to `rest` find nothing that begins or ends parentheses or a
statement. -/
inductive Lexer.Passes (lexer : Lexer α (Found α)) : List α → List α → Prop where
  | refl {text : List α} : lexer.Passes text text
  | turn {c : α} {cs rest : List α} : (lexer.turn c cs).1.isPlain = true →
      lexer.Passes (lexer.turn c cs).2 rest → lexer.Passes (c :: cs) rest

/-- At a place where another lexer finds `found` and leaves `rest`, this one takes the same
turn, or it passes to `rest` and the difference does not matter there. -/
def Lexer.Follows (lexer : Lexer α (Found α)) (atWork : Bool) (c : α) (cs : List α)
    (found : Found α) (rest : List α) : Prop :=
  lexer.turn c cs = (found, rest) ∨
    (found = .other ∨ found = .skipped ∧ atWork = false) ∧ lexer.Passes (c :: cs) rest

variable {scan : Scan α σ} {lexer lexer' : Lexer α (Found α)}

/-- A scan that succeeds on the rest whatever has become of it succeeds on a text that
passes to the rest. Inside parentheses nothing becomes of it. -/
theorem Lexer.Passes.answers (h : lexer.Passes text rest)
    (hrest : ∀ s', (depth ≠ 0 → s' = s) →
      scan.answers unmatched depth s' (lexer.founds rest) = true) :
    scan.answers unmatched depth s (lexer.founds text) = true := by
  induction h generalizing s with
  | refl => exact hrest s fun _ => rfl
  | @turn c cs rest hplain _ ih =>
    rw [Scan.answers_cons]
    have hnext : ∀ s', (depth ≠ 0 → s' = s) →
        scan.answers unmatched depth s' (lexer.founds (lexer.turn c cs).2) = true :=
      fun s' hs' => ih fun s'' hs'' => hrest s'' fun hdepth => (hs'' hdepth).trans (hs' hdepth)
    cases hfound : (lexer.turn c cs).1 with
    | skipped => exact hnext s fun _ => rfl
    | other =>
      refine hnext _ fun hdepth => ?_
      rw [if_neg hdepth]
    | word word =>
      rw [Scan.turn]
      by_cases hdepth : depth = 0
      · rw [if_pos hdepth]
        cases scan.next s word with
        | none => rfl
        | some s' => exact hnext s' fun hne => absurd hdepth hne
      · rw [if_neg hdepth]
        exact hnext s fun _ => rfl
    | openParen | closeParen | semicolon =>
      rw [hfound] at hplain
      cases hplain

variable {depth : Nat} {s g : σ}

/-- A scan that is idle, or in the same state, goes on to be idle or in the same state; the
other one tells an unmatched parenthesis or does not. -/
theorem Scan.turn_simulates (unmatched : Bool) (hstate : s = scan.idle ∨ s = g)
    (found : Found α) : scan.turn unmatched depth g found = none ∨
      ∃ depth' s' g', scan.turn true depth s found = some (depth', s') ∧
        scan.turn unmatched depth g found = some (depth', g') ∧ (s' = scan.idle ∨ s' = g') := by
  have hsame : ∀ t : σ, (if depth = 0 then t else s) = scan.idle ∨
      (if depth = 0 then t else s) = if depth = 0 then t else g := by
    intro t
    split
    · exact .inr rfl
    · exact hstate
  cases found with
  | skipped => exact .inr ⟨_, _, _, rfl, rfl, hstate⟩
  | other => exact .inr ⟨_, _, _, rfl, rfl, hsame _⟩
  | openParen => exact .inr ⟨_, _, _, rfl, rfl, hsame _⟩
  | semicolon => exact .inr ⟨_, _, _, rfl, rfl, hsame _⟩
  | closeParen =>
    refine .inr ⟨_, _, _, rfl, rfl, ?_⟩
    by_cases hdepth : depth = 0
    · exact .inl (if_pos ⟨hdepth, rfl⟩)
    · simpa [hdepth] using hstate
  | word text =>
    simp only [turn]
    by_cases hdepth : depth = 0
    · simp only [if_pos hdepth]
      cases hnext : scan.next g text with
      | none => exact .inl rfl
      | some g' =>
        rcases hstate with rfl | rfl
        · exact .inr ⟨_, _, _, by rw [scan.next_idle]; rfl, rfl, .inl rfl⟩
        · exact .inr ⟨_, _, _, by rw [hnext]; rfl, rfl, .inr rfl⟩
    · simp only [if_neg hdepth]
      exact .inr ⟨_, _, _, rfl, rfl, hstate⟩

variable [DecidableEq σ]

/-- **What a scan finds through one lexer it finds through another one that follows the
first to the places visited.** The induction follows the first lexer's turns. The second
scan may still be at work where the first one is idle, never the other way round, so it
may also succeed earlier. -/
theorem Scan.answers_of_follows (unmatched : Bool) (text : List α) (depth : Nat)
    (hfollows : ∀ place ∈ scan.visited lexer true depth s (lexer.places text),
      lexer'.Follows place.1 place.2.1 place.2.2 (lexer.turn place.2.1 place.2.2).1
        (lexer.turn place.2.1 place.2.2).2)
    (hstate : s = scan.idle ∨ s = g)
    (hfound : scan.answers true depth s (lexer.founds text) = true) :
    scan.answers unmatched depth g (lexer'.founds text) = true := by
  induction hlen : text.length using Nat.strongRecOn generalizing text depth s g with
  | ind n ih =>
    cases text with
    | nil =>
      rw [Lexer.founds_nil] at hfound
      cases hfound
    | cons c cs =>
      obtain ⟨hhere, hlater⟩ := scan.forall_visited_cons (P := fun atWork c cs =>
        lexer'.Follows atWork c cs (lexer.turn c cs).1 (lexer.turn c cs).2) hfollows
      have hless : (lexer.turn c cs).2.length < n := by
        rw [← hlen]
        exact Nat.lt_succ_of_le (lexer.rest_le c cs)
      have hrest :
          ∀ {depth' s' g'}, scan.turn true depth s (lexer.turn c cs).1 = some (depth', s') →
          (s' = scan.idle ∨ s' = g') →
          scan.answers unmatched depth' g' (lexer'.founds (lexer.turn c cs).2) = true := by
        intro depth' s' g' hturn hstate'
        rw [answers_cons, hturn] at hfound
        exact ih _ hless _ depth' (hlater depth' s' hturn) hstate' hfound rfl
      rcases hhere with hsame | ⟨hkind, hpasses⟩
      · rw [answers_cons, hsame]
        rcases scan.turn_simulates unmatched hstate (lexer.turn c cs).1 with
          hnone | ⟨depth', s', g', hturn, hturn', hstate'⟩
        · rw [hnone]
        · rw [hturn']
          exact hrest hturn hstate'
      · refine hpasses.answers fun g' hg' => ?_
        rcases hkind with hother | ⟨hskipped, hidle⟩
        · refine hrest (by rw [hother]; rfl) ?_
          by_cases hdepth : depth = 0
          · exact .inl (if_pos hdepth)
          · rw [if_neg hdepth, hg' hdepth]
            exact hstate
        · refine hrest (by rw [hskipped]; rfl) ?_
          by_cases hdepth : depth = 0
          · exact .inl (by simpa [hdepth] using hidle)
          · rw [hg' hdepth]
            exact hstate

/-- Two scans through two lexers agree at a place: they take the same turn, the first
does not come to an unmatched parenthesis there while it is at work, and the word found
is the same to both; or the second finds a token in white space of the first, which is
not at work. -/
def Scan.AgreesAt (scan scan' : Scan α σ) (lexer lexer' : Lexer α (Found α)) (atWork : Bool)
    (c : α) (cs : List α) : Prop :=
  (lexer'.turn c cs = lexer.turn c cs ∧ (atWork = true →
    (lexer.turn c cs).1 ≠ .closeParen ∧
      ∀ text, (lexer.turn c cs).1 = .word text → ∀ s, scan'.next s text = scan.next s text)) ∨
    atWork = false ∧ (lexer.turn c cs).1 = .skipped ∧
      lexer'.turn c cs = (.other, (lexer.turn c cs).2)

variable {scan' : Scan α σ}

theorem Scan.AgreesAt.turn (hstart : scan'.start = scan.start) (hidle : scan'.idle = scan.idle)
    (h : scan.AgreesAt scan' lexer lexer' (decide (depth = 0 ∧ s ≠ scan.idle)) c cs) :
    scan'.turn true depth s (lexer'.turn c cs).1 = scan.turn false depth s (lexer.turn c cs).1 ∧
      (lexer'.turn c cs).2 = (lexer.turn c cs).2 := by
  rcases h with ⟨hsame, hwork⟩ | ⟨hnot, hskipped, hother⟩
  · rw [hsame]
    refine ⟨?_, rfl⟩
    have hidleOr : depth = 0 → s = scan.idle ∨
        ((lexer.turn c cs).1 ≠ .closeParen ∧ ∀ text, (lexer.turn c cs).1 = .word text →
          ∀ s, scan'.next s text = scan.next s text) := by
      intro hdepth
      by_cases hs : s = scan.idle
      · exact .inl hs
      · exact .inr (hwork (by simp [hdepth, hs]))
    cases hfound : (lexer.turn c cs).1 with
    | skipped => rfl
    | other => rw [Scan.turn, Scan.turn, hidle]
    | openParen => rw [Scan.turn, Scan.turn, hidle]
    | semicolon => rw [Scan.turn, Scan.turn, hstart]
    | closeParen =>
      by_cases hdepth : depth = 0
      · rcases hidleOr hdepth with hs | ⟨hne, -⟩
        · simp [Scan.turn, hdepth, hidle, hs]
        · exact absurd hfound hne
      · simp [Scan.turn, hdepth]
    | word text =>
      by_cases hdepth : depth = 0
      · rcases hidleOr hdepth with hs | ⟨-, hnext⟩
        · have hnext' := scan'.next_idle text
          rw [hidle] at hnext'
          simp only [Scan.turn, hs, scan.next_idle, hnext']
        · simp only [Scan.turn, hnext text hfound]
      · simp [Scan.turn, hdepth]
  · rw [hskipped, hother]
    refine ⟨?_, rfl⟩
    by_cases hdepth : depth = 0
    · have hs : s = scan.idle := by simpa [hdepth] using hnot
      simp [Scan.turn, hdepth, hidle, hs]
    · simp [Scan.turn, hdepth]

/-- **Two scans that agree at the places visited give the same answer**, though an unmatched
parenthesis is a token to the second and nothing to the first. -/
theorem Scan.answers_congr (hstart : scan'.start = scan.start) (hidle : scan'.idle = scan.idle)
    (text : List α) (depth : Nat) (s : σ)
    (hagree : ∀ place ∈ scan.visited lexer false depth s (lexer.places text),
      scan.AgreesAt scan' lexer lexer' place.1 place.2.1 place.2.2) :
    scan'.answers true depth s (lexer'.founds text) =
      scan.answers false depth s (lexer.founds text) := by
  induction hlen : text.length using Nat.strongRecOn generalizing text depth s with
  | ind n ih =>
    cases text with
    | nil =>
      rw [Lexer.founds_nil, Lexer.founds_nil]
      rfl
    | cons c cs =>
      obtain ⟨hhere, hlater⟩ := scan.forall_visited_cons
        (P := scan.AgreesAt scan' lexer lexer') hagree
      have hless : (lexer.turn c cs).2.length < n := by
        rw [← hlen]
        exact Nat.lt_succ_of_le (lexer.rest_le c cs)
      obtain ⟨hturn, hrest⟩ := hhere.turn hstart hidle
      rw [answers_cons, answers_cons, hturn, hrest]
      cases hnext : scan.turn false depth s (lexer.turn c cs).1 with
      | none => rfl
      | some next => exact ih _ hless _ next.1 next.2 (hlater _ _ hnext) rfl

end Statements
