import Oliphaunt.TS.TarTree

/-!
# Paths read back from an archive

A path of PGDATA is written as a text below `pgdata`, with a separator at its end for a
directory, and read back from the two name fields of its header. The decoder drops a
byte order mark at the start of a field, so a component is read back without its mark
when the second field begins with it.
-/

namespace Oliphaunt.PhysicalArchive

open FileTree Tar TarArchive List
open OpfsPool (isEntryName)

/-- The components of a text that are not empty. -/
def components (text : Text) : Path := ((text.splitOn '/').filter (· ≠ [])).map String.ofList

theorem components_append_separator (front back : Text) :
    components (front ++ '/' :: back) = components front ++ components back := by
  rw [components, splitOn_append_cons_self, filter_append, map_append, components,
    components]

variable {c : Char}

/-- The first component of a text begins as the text does. -/
theorem head_splitOn (hc : c ≠ '/') (rest : Text) :
    ∃ segment segments, (c :: rest).splitOn '/' = (c :: segment) :: segments := by
  obtain ⟨segment, segments, hrest⟩ := exists_cons_of_ne_nil (splitOn_ne_nil '/' rest)
  rw [splitOn_cons_eq_if_modifyHead, if_neg (by simpa using hc), hrest]
  exact ⟨segment, segments, rfl⟩

theorem mem_of_mem_splitOn {text : Text} :
    ∀ segment ∈ text.splitOn '/', ∀ c ∈ segment, c ∈ text ∧ c ≠ '/' := by
  induction text with
  | nil => simp [splitOn_nil]
  | cons d text ih =>
    have hlater : ∀ segment ∈ text.splitOn '/', ∀ c ∈ segment, c ∈ d :: text ∧ c ≠ '/' :=
      fun segment hsegment c hc => (ih segment hsegment c hc).imp_left (.tail _)
    rw [splitOn_cons_eq_if_modifyHead]
    split
    · exact forall_mem_cons.mpr ⟨nofun, hlater⟩
    · rename_i hd
      obtain ⟨first, segments, hrest⟩ := exists_cons_of_ne_nil (splitOn_ne_nil '/' text)
      rw [hrest] at hlater ⊢
      obtain ⟨hfirst, hsegments⟩ := forall_mem_cons.mp hlater
      refine forall_mem_cons.mpr ⟨forall_mem_cons.mpr ⟨⟨.head _, ?_⟩, hfirst⟩, hsegments⟩
      simpa using hd

/-- What an entry name is, as a property. -/
theorem isEntryName_iff : isEntryName part = true ↔ part ≠ "" ∧ part ≠ "." ∧ part ≠ ".." ∧
      '/' ∉ part.toList ∧ '\\' ∉ part.toList ∧ Char.ofNat 0 ∉ part.toList := by
  have hall : (part.toList.all fun c => c ≠ '/' && c ≠ '\\' && c ≠ Char.ofNat 0) = true ↔
      '/' ∉ part.toList ∧ '\\' ∉ part.toList ∧ Char.ofNat 0 ∉ part.toList := by
    simp only [all_eq_true, Bool.and_eq_true, decide_eq_true_eq]
    constructor
    · intro h
      exact ⟨fun hmem => (h _ hmem).1.1 rfl, fun hmem => (h _ hmem).1.2 rfl,
        fun hmem => (h _ hmem).2 rfl⟩
    · rintro ⟨hslash, hback, hnul⟩ c hc
      exact ⟨⟨fun h => hslash (h ▸ hc), fun h => hback (h ▸ hc)⟩, fun h => hnul (h ▸ hc)⟩
  rw [isEntryName, Bool.and_eq_true, hall, Bool.and_eq_true, Bool.and_eq_true, decide_eq_true_eq,
    decide_eq_true_eq, decide_eq_true_eq, and_assoc, and_assoc]

variable {path : Path}

theorem not_mem_joinPath (hslash : c ≠ '/') (h : ∀ part ∈ path, c ∉ part.toList) :
    c ∉ joinPath path := by
  induction path with
  | nil => exact not_mem_nil
  | cons part path ih =>
    obtain ⟨hpart, hrest⟩ := forall_mem_cons.mp h
    by_cases hlast : path = []
    · subst hlast
      rwa [joinPath, map_singleton, intercalate_singleton]
    · rw [joinPath, map_cons, intercalate_cons_of_ne_nil (by simpa using hlast),
        mem_append, mem_append, mem_singleton]
      rintro ((hmem | hc) | hmem)
      · exact hpart hmem
      · exact hslash hc
      · exact ih hrest hmem

/-- Joined names are split at the same places. -/
theorem splitOn_joinPath (hne : path ≠ [])
    (hnames : ∀ part ∈ path, isEntryName part = true) :
    (joinPath path).splitOn '/' = path.map String.toList := by
  rw [joinPath, splitOn_intercalate]
  · intro part hpart
    obtain ⟨name, hname, rfl⟩ := mem_map.mp hpart
    exact (isEntryName_iff.mp (hnames name hname)).2.2.2.1
  · simpa using hne

theorem components_joinPath (hne : path ≠ [])
    (hnames : ∀ part ∈ path, isEntryName part = true) : components (joinPath path) = path := by
  have hkeep : (path.map String.toList).filter (· ≠ []) = path.map String.toList := by
    rw [filter_eq_self]
    intro part hpart
    obtain ⟨name, hname, rfl⟩ := mem_map.mp hpart
    have hempty := (isEntryName_iff.mp (hnames name hname)).1
    simpa using hempty
  rw [components, splitOn_joinPath hne hnames, hkeep, map_map]
  refine (map_congr_left fun name _ => ?_).trans (map_id _)
  exact String.ofList_toList

theorem components_nil : components [] = [] := by
  rfl

/-- The text of a file of PGDATA. -/
def fileText (path : Path) : Text := joinPath ("pgdata" :: path)

/-- The text of a directory of PGDATA, and of PGDATA itself. -/
def directoryText (path : Path) : Text := joinPath ("pgdata" :: path) ++ ['/']

/-- A path as `validateStoredPath` accepts it. -/
def IsStored (path : Path) : Prop := path ≠ [] ∧ ∀ part ∈ path, isEntryName part = true

theorem isEntryName_pgdata : isEntryName "pgdata" = true := by decide +kernel

section

variable (h : ∀ part ∈ path, isEntryName part = true)

include h

theorem names_below : ∀ part ∈ "pgdata" :: path, isEntryName part = true := by
  intro part hpart
  rcases mem_cons.mp hpart with rfl | hpart
  · exact isEntryName_pgdata
  · exact h part hpart

theorem components_fileText : components (fileText path) = "pgdata" :: path :=
  components_joinPath (cons_ne_nil _ _) (names_below h)

theorem components_directoryText : components (directoryText path) = "pgdata" :: path := by
  rw [directoryText, components_append_separator, components_nil, append_nil]
  exact components_joinPath (cons_ne_nil _ _) (names_below h)

end

/-- A text below `pgdata` without a character that is special to the reader. -/
structure Plain (text : Text) : Prop where
  below : ∃ rest, text = "pgdata".toList ++ '/' :: rest
  backslash : '\\' ∉ text
  nul : Char.ofNat 0 ∉ text

theorem joinPath_pgdata (hne : path ≠ []) :
    joinPath ("pgdata" :: path) = "pgdata".toList ++ '/' :: joinPath path := by
  rw [joinPath, map_cons, intercalate_cons_of_ne_nil (by simpa using hne),
    append_assoc]
  rfl

theorem Plain.file (h : IsStored path) : Plain (fileText path) where
  below := ⟨_, joinPath_pgdata h.1⟩
  backslash := not_mem_joinPath (by decide) fun part hpart =>
    (isEntryName_iff.mp (names_below h.2 part hpart)).2.2.2.2.1
  nul := not_mem_joinPath (by decide) fun part hpart =>
    (isEntryName_iff.mp (names_below h.2 part hpart)).2.2.2.2.2

theorem Plain.directory (h : ∀ part ∈ path, isEntryName part = true) :
    Plain (directoryText path) := by
  have hname := fun part hpart => isEntryName_iff.mp (names_below h part hpart)
  refine ⟨?_, ?_, ?_⟩
  · by_cases hne : path = []
    · subst hne
      exact ⟨[], rfl⟩
    · refine ⟨joinPath path ++ ['/'], ?_⟩
      rw [directoryText, joinPath_pgdata hne, append_assoc, cons_append]
  · rw [directoryText, mem_append, mem_singleton]
    rintro (hmem | hslash)
    · exact not_mem_joinPath (by decide) (fun part hpart => (hname part hpart).2.2.2.2.1) hmem
    · cases hslash
  · rw [directoryText, mem_append, mem_singleton]
    rintro (hmem | hslash)
    · exact not_mem_joinPath (by decide) (fun part hpart => (hname part hpart).2.2.2.2.2) hmem
    · cases hslash

/-- The path that the reader has for a text. -/
def readPath (text : Text) : Path := components (readText text)

section Read

variable {text name lead : Text}

theorem length_encodeText_dropMark (text : Text) :
    (encodeText (Bytes.dropMark text)).length ≤ (encodeText text).length := by
  obtain ⟨front, hfront⟩ := Bytes.dropMark_suffix text
  conv_rhs => rw [← hfront, encodeText_append, length_append]
  exact Nat.le_add_left _ _

/-- Only the second of two fields can lose a mark. -/
theorem Plain.readText_eq (h : Plain text) (hsplit : splitUstarPath text = some (name, lead)) :
    (lead = [] ∧ readText text = text) ∨
      (text = lead ++ '/' :: name ∧ (∃ rest, lead = 'p' :: rest) ∧
        readText text = lead ++ '/' :: Bytes.dropMark name) := by
  obtain ⟨rest, hrest⟩ := h.below
  rcases (split_parts hsplit).1 with ⟨rfl, rfl⟩ | ⟨hlead, htext⟩
  · left
    have hmark : Bytes.dropMark text = text := by
      refine Bytes.dropMark_eq_self ?_
      rw [hrest]
      exact fun h => absurd (Option.some.inj (h : some 'p' = _)) (by decide)
    exact ⟨rfl, by rw [readText, hsplit]; exact hmark⟩
  · right
    have hp : ∃ rest, lead = 'p' :: rest := by
      cases lead with
      | nil => exact absurd rfl hlead
      | cons c more =>
        rw [htext, cons_append] at hrest
        obtain ⟨rfl, -⟩ := List.cons.inj (hrest.trans rfl : c :: (more ++ '/' :: name) = 'p' :: _)
        exact ⟨more, rfl⟩
    have hmark : Bytes.dropMark lead = lead := by
      obtain ⟨more, rfl⟩ := hp
      exact Bytes.dropMark_eq_self (by rw [List.head?_cons]; decide)
    refine ⟨htext, hp, ?_⟩
    rw [readText, hsplit]
    simp only [hmark, if_pos hlead]

theorem components_ne_nil (hc : c ≠ '/') (rest : Text) : components (c :: rest) ≠ [] := by
  obtain ⟨segment, segments, hsplit⟩ := head_splitOn hc rest
  rw [components, hsplit, filter_cons_of_pos (by simp), map_cons]
  exact cons_ne_nil _ _

theorem Plain.components_text (h : Plain text) :
    ∃ below, components text = "pgdata" :: below := by
  obtain ⟨rest, rfl⟩ := h.below
  refine ⟨components rest, ?_⟩
  rfl

section

variable (hsplit : splitUstarPath text = some (name, lead))

include hsplit

theorem Plain.readPath_below (h : Plain text) : ∃ below, readPath text = "pgdata" :: below := by
  obtain ⟨below, hbelow⟩ := h.components_text
  rcases h.readText_eq hsplit with ⟨-, hread⟩ | ⟨htext, ⟨rest, rfl⟩, hread⟩
  · exact ⟨below, by rw [readPath, hread, hbelow]⟩
  · rw [readPath, hread, components_append_separator]
    rw [htext, components_append_separator] at hbelow
    cases hlead : components ('p' :: rest) with
    | nil => exact absurd hlead (components_ne_nil (by decide) rest)
    | cons first more =>
      rw [hlead] at hbelow
      obtain ⟨rfl, -⟩ := List.cons.inj hbelow
      exact ⟨more ++ components (Bytes.dropMark name), rfl⟩

/-- Reading back adds no character. -/
theorem mem_readText (h : Plain text) (hc : c ∈ readText text) : c ∈ text := by
  rcases h.readText_eq hsplit with ⟨-, hread⟩ | ⟨htext, -, hread⟩
  · rwa [hread] at hc
  · rw [hread, mem_append, mem_cons] at hc
    rw [htext, mem_append, mem_cons]
    exact hc.imp_right (Or.imp_right (Bytes.dropMark_suffix name).mem)

theorem Plain.readText_head (h : Plain text) : ∃ rest, readText text = 'p' :: rest := by
  rcases h.readText_eq hsplit with ⟨-, hread⟩ | ⟨-, ⟨rest, rfl⟩, hread⟩
  · obtain ⟨rest, htext⟩ := h.below
    exact ⟨_, by rw [hread, htext]; rfl⟩
  · exact ⟨_, hread⟩

theorem length_readText (h : Plain text) : (encodeText (readText text)).length ≤ maxPathBytes := by
  obtain ⟨hparts, hname, hlead⟩ := split_parts hsplit
  rw [maxPathBytes]
  rcases h.readText_eq hsplit with ⟨hnil, hread⟩ | ⟨htext, -, hread⟩
  · have hwhole : text = name := by
      rcases hparts with ⟨-, heq⟩ | ⟨hne, -⟩
      · exact heq
      · exact absurd hnil hne
    rw [hread, hwhole]
    omega
  · have hdrop := length_encodeText_dropMark name
    have hseparator : ('/' :: Bytes.dropMark name) = ['/'] ++ Bytes.dropMark name := rfl
    have hone : (encodeText ['/']).length = 1 := by decide +kernel
    rw [hread, hseparator, encodeText_append, encodeText_append, length_append,
      length_append, hone]
    omega

end

/-- A path that the reader takes: not too deep, and without dots. -/
def Legible (path : Path) : Prop :=
  path.length ≤ maxPathDepth ∧ "." ∉ path ∧ ".." ∉ path

theorem any_dots (text : Text) :
    (((text.splitOn '/').filter (· ≠ [])).any fun segment =>
      segment = ['.'] || segment = ['.', '.']) = true ↔
        "." ∈ components text ∨ ".." ∈ components text := by
  have hmem : ∀ segment : Text, segment ∈ (text.splitOn '/').filter (· ≠ []) ↔
      String.ofList segment ∈ components text := by
    intro segment
    rw [components, mem_map]
    constructor
    · exact fun h => ⟨segment, h, rfl⟩
    · rintro ⟨other, hother, heq⟩
      rwa [← String.toList_ofList (l := segment), ← heq, String.toList_ofList]
  rw [any_eq_true]
  constructor
  · rintro ⟨segment, hsegment, hdot⟩
    simp only [Bool.or_eq_true, decide_eq_true_eq] at hdot
    rcases hdot with rfl | rfl
    · exact .inl ((hmem _).mp hsegment)
    · exact .inr ((hmem _).mp hsegment)
  · rintro (hdot | hdot)
    · exact ⟨['.'], (hmem _).mpr hdot, by decide⟩
    · exact ⟨['.', '.'], (hmem _).mpr hdot, by decide⟩

section

variable (hsplit : splitUstarPath text = some (name, lead))

include hsplit

/-- The sanitiser takes exactly the legible paths. -/
theorem Plain.sanitizeTarPath (h : Plain text) {path : Option Path} :
    sanitizeTarPath (readText text) = .ok path ↔
      path = some (readPath text) ∧ Legible (readPath text) := by
  have hback : (readText text).contains '\\' = false := by
    rw [← Bool.not_eq_true, contains_iff_mem]
    exact fun hmem => h.backslash (mem_readText hsplit h hmem)
  have hnul : (readText text).contains (Char.ofNat 0) = false := by
    rw [← Bool.not_eq_true, contains_iff_mem]
    exact fun hmem => h.nul (mem_readText hsplit h hmem)
  have hbytes : ¬ maxPathBytes < (Bytes.utf8 (String.ofList (readText text))).length :=
    Nat.not_lt.mpr (length_readText hsplit h)
  obtain ⟨rest, hp⟩ := h.readText_head hsplit
  have hdot : dropDotSlash (readText text) = readText text := by
    rw [hp]
    rfl
  have hempty : ¬ (readText text = [] ∨ readText text = ['.']) := by
    rw [hp]
    rintro (hnil | hone)
    · cases hnil
    · exact absurd (List.cons.inj hone).1 (by decide)
  have hrelative : ¬ (readText text).head? = some '/' := by
    rw [hp, List.head?_cons]
    decide
  have hdepth :
      (((readText text).splitOn '/').filter (· ≠ [])).length = (readPath text).length := by
    rw [readPath, components, length_map]
  rw [TarArchive.sanitizeTarPath, if_neg (by rw [hback]; decide)]
  simp only [hdot]
  rw [if_neg hempty, if_neg hrelative, if_neg (by rw [hnul]; decide), hdepth]
  by_cases hdeep : maxPathDepth < (readPath text).length
  · have hnot : ¬ Legible (readPath text) := fun hlegible => Nat.not_lt.mpr hlegible.1 hdeep
    simp only [if_pos (Or.inr hdeep), hnot, and_false, reduceCtorEq]
  · rw [if_neg (not_or.mpr ⟨hbytes, hdeep⟩)]
    split
    · rename_i hdots
      have hnot : ¬ Legible (readPath text) := fun hlegible =>
        ((any_dots _).mp hdots).elim hlegible.2.1 hlegible.2.2
      simp only [hnot, and_false, reduceCtorEq]
    · rename_i hdots
      have hplain := not_or.mp (fun hmem => hdots ((any_dots (readText text)).mpr hmem))
      have hlegible : Legible (readPath text) := ⟨Nat.not_lt.mp hdeep, hplain⟩
      simp only [hlegible, and_true, Except.ok.injEq]
      exact eq_comm

theorem Plain.readPath_names (h : Plain text) (hlegible : Legible (readPath text)) :
    ∀ part ∈ readPath text, isEntryName part = true := by
  intro part hpart
  obtain ⟨segment, hsegment, rfl⟩ := mem_map.mp hpart
  obtain ⟨hmem, hne⟩ := mem_filter.mp hsegment
  have hchar : ∀ c ∈ segment, c ∈ text ∧ c ≠ '/' := by
    intro c hc
    obtain ⟨hread, hslash⟩ := mem_of_mem_splitOn segment hmem c hc
    exact ⟨mem_readText hsplit h hread, hslash⟩
  rw [isEntryName_iff, String.toList_ofList]
  refine ⟨?_, ?_, ?_, fun hc => (hchar _ hc).2 rfl, fun hc => h.backslash (hchar _ hc).1,
    fun hc => h.nul (hchar _ hc).1⟩
  · intro hempty
    have : segment = [] := by rw [← String.toList_ofList (l := segment), hempty]; rfl
    simp [this] at hne
  · exact fun hdot => hlegible.2.1 (hdot ▸ hpart)
  · exact fun hdots => hlegible.2.2 (hdots ▸ hpart)

/-- Without a mark at the start of a component, the text is read as it was written. -/
theorem Plain.readText_unmarked (h : Plain text)
    (hmark : ∀ segment ∈ text.splitOn '/', segment.head? ≠ some '\uFEFF') :
    readText text = text := by
  rcases h.readText_eq hsplit with ⟨-, hread⟩ | ⟨htext, -, hread⟩
  · exact hread
  · rw [hread, htext, Bytes.dropMark_eq_self]
    intro hhead
    cases name with
    | nil => cases hhead
    | cons c rest =>
      obtain rfl : c = '\uFEFF' := Option.some.inj hhead
      obtain ⟨segment, segments, hname⟩ := head_splitOn (c := '\uFEFF') (by decide) rest
      refine hmark ('\uFEFF' :: segment) ?_ rfl
      rw [htext, splitOn_append_cons_self, hname]
      exact mem_append_right _ (.head _)

end

end Read

/-- No component begins with a byte order mark. -/
def Unmarked (path : Path) : Prop := ∀ part ∈ path, part.toList.head? ≠ some '\uFEFF'

theorem Unmarked.below (h : Unmarked path) : Unmarked ("pgdata" :: path) := by
  intro part hpart
  rcases mem_cons.mp hpart with rfl | hpart
  · decide +kernel
  · exact h part hpart

theorem readPath_fileText (h : IsStored path) (hmark : Unmarked path)
    (hsplit : splitUstarPath (fileText path) ≠ none) :
      readPath (fileText path) = "pgdata" :: path := by
  obtain ⟨⟨name, lead⟩, hsplit⟩ := Option.ne_none_iff_exists'.mp hsplit
  rw [readPath, (Plain.file h).readText_unmarked hsplit, components_fileText h.2]
  intro segment hsegment
  rw [fileText, splitOn_joinPath (cons_ne_nil _ _) (names_below h.2)] at hsegment
  obtain ⟨part, hpart, rfl⟩ := mem_map.mp hsegment
  exact hmark.below part hpart

theorem readPath_directoryText (h : ∀ part ∈ path, isEntryName part = true)
    (hmark : Unmarked path) (hsplit : splitUstarPath (directoryText path) ≠ none) :
    readPath (directoryText path) = "pgdata" :: path := by
  obtain ⟨⟨name, lead⟩, hsplit⟩ := Option.ne_none_iff_exists'.mp hsplit
  rw [readPath, (Plain.directory h).readText_unmarked hsplit, components_directoryText h]
  intro segment hsegment
  rw [directoryText, splitOn_append_cons_self,
    splitOn_joinPath (cons_ne_nil _ _) (names_below h), mem_append] at hsegment
  rcases hsegment with hsegment | hempty
  · obtain ⟨part, hpart, rfl⟩ := mem_map.mp hsegment
    exact hmark.below part hpart
  · rw [splitOn_nil, mem_singleton] at hempty
    rw [hempty]
    decide

end Oliphaunt.PhysicalArchive
