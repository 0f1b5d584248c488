import Mathlib.Tactic.Common
import Mathlib.Data.List.Nodup
import Mathlib.Data.List.Induction

/-!
# Directory trees as maps from paths

A tree is an association list from paths to nodes, a path the list of its
segments. `set` and `delete` are the operations of a map. `WellFormed` says what
makes such a map a directory tree: one node for each path, and a directory above
each node.

`move` renames a path with everything under it. It keeps a tree well formed as
long as the new path is free and does not lie under the old one
(`WellFormed.move`).
-/

namespace FileTree

open List

abbrev Path := List String

inductive Node (α : Type) where
  | directory
  | file (value : α)
deriving DecidableEq, Repr

abbrev PathTree (α : Type) := List (Path × Node α)

namespace PathTree

variable {α : Type}

def get (t : PathTree α) (p : Path) : Option (Node α) := (t.find? fun e => e.1 = p).map Prod.snd

def delete (t : PathTree α) (p : Path) : PathTree α := t.filter fun e => e.1 ≠ p

def set (t : PathTree α) (p : Path) (n : Node α) : PathTree α := t.delete p ++ [(p, n)]

def hasChildren (t : PathTree α) (p : Path) : Bool := t.any fun e => e.1 ≠ [] ∧ e.1.dropLast = p

/-- The nodes in the directory `p`. -/
def children (t : PathTree α) (p : Path) : PathTree α :=
  t.filter fun e => e.1 ≠ [] ∧ e.1.dropLast = p

/-- The tree without `p` and everything under it. -/
def deleteUnder (t : PathTree α) (p : Path) : PathTree α := t.filter fun e => ¬ p <+: e.1

/-- The path of `p` after `src` has become `dst`. -/
def rebase (src dst p : Path) : Path := dst ++ p.drop src.length

/-- The nodes at and under `src`, set again under `dst`. -/
def move (t : PathTree α) (src dst : Path) : PathTree α :=
  (t.filter fun e => src <+: e.1).foldl (fun acc e => acc.set (rebase src dst e.1) e.2)
    (t.filter fun e => ¬ src <+: e.1)

def paths (t : PathTree α) : List Path := t.map Prod.fst

/-- One node for each path, a directory at the root and above every other node. -/
structure WellFormed (t : PathTree α) : Prop where
  nodup : t.paths.Nodup
  root : ([], Node.directory) ∈ t
  parent : ∀ p n, (p, n) ∈ t → p ≠ [] → (p.dropLast, Node.directory) ∈ t

variable {t : PathTree α} {p : Path}

theorem mem_paths : p ∈ t.paths ↔ ∃ n, (p, n) ∈ t := by
  simp [paths]

variable {n : Node α}

theorem mem_of_get (h : t.get p = some n) : (p, n) ∈ t := by
  rw [get, Option.map_eq_some_iff] at h
  obtain ⟨⟨q, m⟩, hfind, rfl⟩ := h
  have hq := List.find?_some hfind
  rw [← (of_decide_eq_true hq : q = p)]
  exact mem_of_find?_eq_some hfind

theorem get_eq_none : t.get p = none ↔ p ∉ t.paths := by
  rw [get, Option.map_eq_none_iff, List.find?_eq_none, mem_paths]
  constructor
  · rintro h ⟨n, hn⟩
    exact h (p, n) hn (decide_eq_true rfl)
  · rintro h ⟨q, n⟩ hn hq
    obtain rfl : q = p := of_decide_eq_true hq
    exact h ⟨n, hn⟩

variable {p : Path} {n m : Node α} {es : List (Path × Node α)} {v : Path → Option (Node α)}
  {e : Path × Node α}

theorem node_unique (hnodup : t.paths.Nodup) (hn : (p, n) ∈ t) (hm : (p, m) ∈ t) : n = m := by
  have heq := inj_on_of_nodup_map hnodup hn hm rfl
  exact (Prod.mk.inj heq).2

theorem get_of_mem (hnodup : t.paths.Nodup) (h : (p, n) ∈ t) : t.get p = some n := by
  cases hget : t.get p with
  | none => exact absurd (mem_paths.mpr ⟨n, h⟩) (get_eq_none.mp hget)
  | some m => rw [node_unique hnodup h (mem_of_get hget)]

/-- Membership determines the value of a map. -/
theorem get_of_mem_iff {v : Option (Node α)}
    (h : ∀ n, (p, n) ∈ t ↔ v = some n) : t.get p = v := by
  cases hget : t.get p with
  | none =>
    cases v with
    | none => rfl
    | some n => exact absurd (mem_paths.mpr ⟨n, (h n).mpr rfl⟩) (get_eq_none.mp hget)
  | some m => exact ((h m).mp (mem_of_get hget)).symm

theorem get_nil (p : Path) : get ([] : PathTree α) p = none := rfl

theorem get_cons (e : Path × Node α) (t : PathTree α) (p : Path) :
    get (e :: t) p = if e.1 = p then some e.2 else t.get p := by
  rw [get, List.find?_cons]
  split <;> rename_i h
  · rw [if_pos (of_decide_eq_true h)]
    rfl
  · rw [if_neg (of_decide_eq_false h)]
    rfl

theorem get_filter (f : Path → Bool) (t : PathTree α) (p : Path) :
    get (t.filter fun e => f e.1) p = if f p then t.get p else none := by
  induction t with
  | nil =>
    split <;> rfl
  | cons e t ih =>
    rw [get_cons]
    by_cases hf : f e.1 = true
    · rw [filter_cons, if_pos hf, get_cons, ih]
      by_cases he : e.1 = p
      · rw [if_pos he, if_pos he, ← he, if_pos hf]
      · rw [if_neg he, if_neg he]
    · rw [filter_cons, if_neg hf, ih]
      by_cases he : e.1 = p
      · rw [if_neg (he ▸ hf), if_neg (he ▸ hf)]
      · rw [if_neg he]

theorem get_delete (t : PathTree α) (p q : Path) :
    (t.delete p).get q = if q = p then none else t.get q := by
  rw [delete, get_filter fun r => decide (r ≠ p)]
  by_cases h : q = p <;> simp [h]

theorem get_deleteUnder (t : PathTree α) (p q : Path) :
    (t.deleteUnder p).get q = if p <+: q then none else t.get q := by
  rw [deleteUnder, get_filter fun r => decide (¬ p <+: r)]
  by_cases h : p <+: q <;> simp [h]

theorem get_append (s t : PathTree α) (p : Path) :
    get (s ++ t) p = (s.get p).or (t.get p) := by
  induction s with
  | nil => rfl
  | cons e s ih =>
    rw [cons_append, get_cons, get_cons, ih]
    split <;> rfl

theorem get_set (t : PathTree α) (p q : Path) (n : Node α) :
    (t.set p n).get q = if q = p then some n else t.get q := by
  rw [set, get_append, get_delete, get_cons, get_nil]
  by_cases h : q = p
  · subst h
    simp
  · rw [if_neg h, if_neg (Ne.symm h), if_neg h, Option.or_none]

/-! ## Folds of the operations, read through `get` -/

theorem get_foldl_delete (ps : List Path) (t : PathTree α) (q : Path) :
    (ps.foldl delete t).get q = if q ∈ ps then none else t.get q := by
  induction ps generalizing t with
  | nil => simp
  | cons p ps ih =>
    rw [foldl_cons, ih, get_delete]
    by_cases hps : q ∈ ps
    · rw [if_pos hps, if_pos (.tail _ hps)]
    · by_cases hp : q = p <;> simp [hps, hp]

theorem get_foldl_deleteUnder (ps : List Path) (t : PathTree α) (q : Path) :
    (ps.foldl deleteUnder t).get q = if ∃ p ∈ ps, p <+: q then none else t.get q := by
  induction ps generalizing t with
  | nil => simp
  | cons p ps ih =>
    rw [foldl_cons, ih, get_deleteUnder]
    by_cases hps : ∃ p' ∈ ps, p' <+: q
    · obtain ⟨p', hp', hunder⟩ := hps
      rw [if_pos ⟨p', hp', hunder⟩, if_pos ⟨p', .tail _ hp', hunder⟩]
    · by_cases hp : p <+: q <;> simp [hps, hp]

/-- A map after the entries have been put into it, one after the other. -/
def putAll (es : List (Path × Node α)) (v : Path → Option (Node α)) : Path → Option (Node α) :=
  es.foldl (fun v e => Function.update v e.1 (some e.2)) v

theorem get_foldl_set (es : List (Path × Node α)) (t : PathTree α) :
    (es.foldl (fun t e => t.set e.1 e.2) t).get = putAll es t.get := by
  induction es generalizing t with
  | nil => rfl
  | cons e es ih =>
    have hset : (t.set e.1 e.2).get = Function.update t.get e.1 (some e.2) := by
      funext q
      rw [get_set, Function.update_apply]
    rw [foldl_cons, ih, hset]
    rfl

variable {q : Path}

theorem putAll_of_not_mem (h : ∀ n, (q, n) ∉ es) : putAll es v q = v q := by
  induction es generalizing v with
  | nil => rfl
  | cons e es ih =>
    have hne : q ≠ e.1 := by
      rintro rfl
      exact h e.2 (.head _)
    refine (ih fun n hn => h n (.tail _ hn)).trans ?_
    exact Function.update_of_ne hne _ _

theorem putAll_of_mem (h : (q, n) ∈ es) (hunique : ∀ m, (q, m) ∈ es → m = n) :
    putAll es v q = some n := by
  induction es generalizing v with
  | nil => cases h
  | cons e es ih =>
    by_cases hrest : ∃ m, (q, m) ∈ es
    · obtain ⟨m, hm⟩ := hrest
      obtain rfl := hunique m (.tail _ hm)
      exact ih hm fun m' hm' => hunique m' (.tail _ hm')
    · -- the head is the last entry with this path
      have hnot : ∀ m, (q, m) ∉ es := fun m hm => hrest ⟨m, hm⟩
      obtain rfl : (q, n) = e := (mem_cons.mp h).resolve_right (hnot n)
      exact (putAll_of_not_mem hnot).trans (Function.update_self _ _ _)

theorem mem_deleteUnder :
    (q, n) ∈ t.deleteUnder p ↔ (q, n) ∈ t ∧ ¬ p <+: q := by
  rw [deleteUnder, mem_filter, decide_eq_true_iff]

theorem nodup_deleteUnder (h : t.paths.Nodup) (p : Path) :
    (t.deleteUnder p).paths.Nodup :=
  h.sublist (filter_sublist.map _)

theorem mem_delete :
    (q, n) ∈ t.delete p ↔ (q, n) ∈ t ∧ q ≠ p := by
  simp [delete]

theorem mem_set : (q, m) ∈ t.set p n ↔ ((q, m) ∈ t ∧ q ≠ p) ∨ (q = p ∧ m = n) := by
  rw [set, mem_append, mem_delete, mem_singleton, Prod.mk.injEq]

theorem paths_delete (t : PathTree α) (p : Path) : (t.delete p).paths = t.paths.filter (· ≠ p) := by
  rw [paths, paths, delete, filter_map]
  rfl

theorem nodup_delete (h : t.paths.Nodup) (p : Path) : (t.delete p).paths.Nodup := by
  rw [paths_delete]
  exact h.filter _

theorem nodup_set (h : t.paths.Nodup) (p : Path) (n : Node α) :
    (t.set p n).paths.Nodup := by
  have hpaths : (t.set p n).paths = (t.delete p).paths ++ [p] := by
    rw [set, paths, map_append]
    rfl
  rw [hpaths, nodup_append]
  refine ⟨nodup_delete h p, nodup_singleton p, ?_⟩
  intro q hq r hr
  rw [paths_delete, mem_filter] at hq
  rw [mem_singleton.mp hr]
  exact of_decide_eq_true hq.2

theorem hasChildren_eq_false :
    t.hasChildren p = false ↔ ∀ q n, (q, n) ∈ t → q ≠ [] → q.dropLast ≠ p := by
  rw [hasChildren, any_eq_false]
  constructor
  · intro h q n hq hne heq
    exact h (q, n) hq (decide_eq_true ⟨hne, heq⟩)
  · rintro h ⟨q, n⟩ hq hdec
    obtain ⟨hne, heq⟩ := of_decide_eq_true hdec
    exact h q n hq hne heq

section

variable (h : t.WellFormed)

include h

variable {p q : Path}

/-- Every proper initial part of a path in the tree is a directory of it. -/
theorem WellFormed.directory_of_prefix (hq : (q, n) ∈ t) (hpre : p <+: q) (hne : p ≠ q) :
    (p, Node.directory) ∈ t := by
  obtain ⟨rest, rfl⟩ := hpre
  induction rest using List.reverseRecOn generalizing n with
  | nil => exact absurd (append_nil p).symm hne
  | append_singleton rest last ih =>
    have hparent := h.parent _ n hq (by simp)
    rw [← append_assoc, dropLast_concat] at hparent
    by_cases hrest : rest = []
    · rw [hrest, append_nil] at hparent
      exact hparent
    · refine ih hparent ?_
      intro heq
      exact hrest (append_right_eq_self.mp heq.symm)

theorem WellFormed.mem_of_prefix (hq : q ∈ t.paths) (hpre : p <+: q) : p ∈ t.paths := by
  obtain ⟨n, hn⟩ := mem_paths.mp hq
  by_cases hne : p = q
  · rw [hne]
    exact hq
  · exact mem_paths.mpr ⟨_, h.directory_of_prefix hn hpre hne⟩

theorem WellFormed.file_maximal (hp : (p, Node.file a) ∈ t) (hq : q ∈ t.paths) (hpre : p <+: q) :
    p = q := by
  by_contra hne
  obtain ⟨n, hn⟩ := mem_paths.mp hq
  cases node_unique h.nodup hp (h.directory_of_prefix hn hpre hne)

end

theorem mem_children : e ∈ t.children p ↔ e ∈ t ∧ e.1 ≠ [] ∧ e.1.dropLast = p := by
  rw [children, mem_filter, decide_eq_true_iff]

theorem prefix_of_mem_children (h : e ∈ t.children p) : p <+: e.1 ∧ e.1.length = p.length + 1 := by
  obtain ⟨-, hne, rfl⟩ := mem_children.mp h
  have hlen : 0 < e.1.length := length_pos_of_ne_nil hne
  have hle : e.1.dropLast <+: e.1 := dropLast_prefix _
  refine ⟨hle, ?_⟩
  rw [length_dropLast]
  omega

/-- Between a directory and a node under it there is one of its children. -/
theorem exists_child (h : t.WellFormed) (hq : (q, n) ∈ t) (hpre : p <+: q) (hne : p ≠ q) :
    ∃ e ∈ t.children p, e.1 <+: q := by
  obtain ⟨rest, rfl⟩ := hpre
  cases rest with
  | nil => exact absurd (append_nil p).symm hne
  | cons name rest =>
    have hchild : p ++ [name] <+: p ++ name :: rest := ⟨rest, by simp⟩
    obtain ⟨m, hm⟩ := mem_paths.mp (h.mem_of_prefix (mem_paths.mpr ⟨n, hq⟩) hchild)
    exact ⟨(p ++ [name], m), mem_children.mpr ⟨hm, by simp, by simp⟩, hchild⟩

/-- The node lies strictly under `p`. -/
def Below (t : PathTree α) (p : Path) (e : Path × Node α) : Prop := e ∈ t ∧ p <+: e.1 ∧ p ≠ e.1

section

variable (h : t.WellFormed)

include h

/-- What lies under a path is a child of it, or lies under one that is a directory. -/
theorem WellFormed.below_iff :
    t.Below p (q, n) ↔ ∃ e ∈ t.children p, (q, n) = e ∨ e.2 = .directory ∧ t.Below e.1 (q, n) := by
  constructor
  · rintro ⟨hq, hpre, hne⟩
    obtain ⟨⟨r, m⟩, he, hunder⟩ := exists_child h hq hpre hne
    have hr := (mem_children.mp he).1
    refine ⟨(r, m), he, ?_⟩
    by_cases heq : r = q
    · subst heq
      rw [node_unique h.nodup hr hq]
      exact .inl rfl
    · exact .inr ⟨node_unique h.nodup hr (h.directory_of_prefix hq hunder heq), hq, hunder, heq⟩
  · rintro ⟨e, he, hq⟩
    obtain ⟨hpre, hlength⟩ := prefix_of_mem_children he
    have hunder : (q, n) ∈ t ∧ e.1 <+: q := by
      rcases hq with rfl | ⟨-, hmem, hunder, -⟩
      · exact ⟨(mem_children.mp he).1, prefix_refl _⟩
      · exact ⟨hmem, hunder⟩
    refine ⟨hunder.1, hpre.trans hunder.2, ?_⟩
    rintro rfl
    have hle := hunder.2.length_le
    omega

variable {p : Path}

theorem WellFormed.set (hne : p ≠ []) (hfree : p ∉ t.paths)
    (hparent : (p.dropLast, Node.directory) ∈ t) : (t.set p n).WellFormed where
  nodup := nodup_set h.nodup p n
  root := mem_set.mpr (.inl ⟨h.root, hne.symm⟩)
  parent := by
    intro q m hq hqne
    have hkeep : ∀ r, (r, Node.directory) ∈ t → (r, Node.directory) ∈ t.set p n := by
      intro r hr
      refine mem_set.mpr (.inl ⟨hr, ?_⟩)
      rintro rfl
      exact hfree (mem_paths.mpr ⟨_, hr⟩)
    rcases mem_set.mp hq with ⟨hq, -⟩ | ⟨rfl, -⟩
    · exact hkeep _ (h.parent q m hq hqne)
    · exact hkeep _ hparent

theorem WellFormed.delete (hne : p ≠ []) (hleaf : ∀ q n, (q, n) ∈ t → q ≠ [] → q.dropLast ≠ p) :
    (t.delete p).WellFormed where
  nodup := nodup_delete h.nodup p
  root := mem_delete.mpr ⟨h.root, hne.symm⟩
  parent := by
    intro q m hq hqne
    obtain ⟨hq, -⟩ := mem_delete.mp hq
    exact mem_delete.mpr ⟨h.parent q m hq hqne, hleaf q m hq hqne⟩

theorem WellFormed.delete_file (hne : p ≠ []) (hp : (p, Node.file a) ∈ t) :
    (t.delete p).WellFormed := by
  refine h.delete hne ?_
  rintro q n hq hqne rfl
  cases node_unique h.nodup hp (h.parent q n hq hqne)

end

theorem set_of_not_mem (n : Node α) (h : p ∉ t.paths) :
    t.set p n = t ++ [(p, n)] := by
  have hdelete : t.delete p = t := by
    rw [PathTree.delete, filter_eq_self]
    rintro ⟨q, m⟩ hq
    refine decide_eq_true ?_
    rintro rfl
    exact h (mem_paths.mpr ⟨m, hq⟩)
  rw [PathTree.set, hdelete]

/-- Setting nodes one after the other under new paths only appends them. -/
theorem foldl_set {moved rest : PathTree α} (hnodup : (moved.paths.map f).Nodup)
    (hfresh : ∀ p ∈ moved.paths, f p ∉ rest.paths) :
    moved.foldl (fun acc e => acc.set (f e.1) e.2) rest =
      rest ++ moved.map fun e => (f e.1, e.2) := by
  induction moved generalizing rest with
  | nil => simp
  | cons e moved ih =>
    rw [paths, map_cons, map_cons, nodup_cons] at hnodup
    have hhead : f e.1 ∉ rest.paths := hfresh e.1 (by simp [paths])
    rw [foldl_cons, set_of_not_mem e.2 hhead, ih hnodup.2]
    · simp
    · intro p hp
      rw [paths, map_append, mem_append, not_or]
      refine ⟨hfresh p (by exact .tail _ hp), ?_⟩
      simp only [map_cons, map_nil, mem_singleton]
      intro heq
      exact hnodup.1 (mem_map.mpr ⟨p, hp, heq⟩)

theorem rebase_injOn {src : Path} (hp : src <+: p) (hq : src <+: q)
    (h : rebase src dst p = rebase src dst q) : p = q := by
  obtain ⟨a, rfl⟩ := hp
  obtain ⟨b, rfl⟩ := hq
  simpa [rebase] using h

theorem prefix_rebase (src dst p : Path) : dst <+: rebase src dst p := ⟨_, rfl⟩

section

variable (h : t.WellFormed)

include h

variable {src dst : Path}

theorem WellFormed.move_eq (hfree : dst ∉ t.paths) :
    t.move src dst = (t.filter fun e => ¬ src <+: e.1) ++
      (t.filter fun e => src <+: e.1).map fun e => (rebase src dst e.1, e.2) := by
  refine foldl_set ?_ ?_
  · refine List.Nodup.map_on ?_ ?_
    · intro p hp q hq heq
      rw [mem_paths] at hp hq
      obtain ⟨n, hn⟩ := hp
      obtain ⟨m, hm⟩ := hq
      exact rebase_injOn (of_decide_eq_true (mem_filter.mp hn).2)
        (of_decide_eq_true (mem_filter.mp hm).2) heq
    · exact h.nodup.sublist (filter_sublist.map _)
  · intro p _ hmem
    have hin : rebase src dst p ∈ t.paths := by
      obtain ⟨n, hn⟩ := mem_paths.mp hmem
      exact mem_paths.mpr ⟨n, (mem_filter.mp hn).1⟩
    exact hfree (h.mem_of_prefix hin (prefix_rebase src dst p))

theorem WellFormed.mem_move (hfree : dst ∉ t.paths) : (q, n) ∈ t.move src dst ↔
      ((q, n) ∈ t ∧ ¬ src <+: q) ∨ ∃ p, (p, n) ∈ t ∧ src <+: p ∧ q = rebase src dst p := by
  rw [h.move_eq hfree, mem_append, mem_filter, mem_map]
  constructor
  · rintro (⟨hq, hsrc⟩ | ⟨⟨p, m⟩, hp, heq⟩)
    · exact .inl ⟨hq, of_decide_eq_true hsrc⟩
    · obtain ⟨hmem, hsrc⟩ := mem_filter.mp hp
      obtain ⟨rfl, rfl⟩ := Prod.mk.inj heq
      exact .inr ⟨p, hmem, of_decide_eq_true hsrc, rfl⟩
  · rintro (⟨hq, hsrc⟩ | ⟨p, hp, hsrc, rfl⟩)
    · exact .inl ⟨hq, decide_eq_true hsrc⟩
    · exact .inr ⟨(p, n), mem_filter.mpr ⟨hp, decide_eq_true hsrc⟩, rfl⟩

theorem WellFormed.nodup_move (hfree : dst ∉ t.paths) : (t.move src dst).paths.Nodup := by
  rw [h.move_eq hfree, paths, map_append, nodup_append]
  refine ⟨h.nodup.sublist (filter_sublist.map _), ?_, ?_⟩
  · rw [map_map]
    have hmap : (List.filter (fun e => decide (src <+: e.1)) t).map
        (Prod.fst ∘ fun e : Path × Node α => (rebase src dst e.1, e.2)) =
        ((t.filter fun e => src <+: e.1).map Prod.fst).map (rebase src dst) := by
      rw [map_map]
      rfl
    rw [hmap]
    refine List.Nodup.map_on ?_ (h.nodup.sublist (filter_sublist.map _))
    intro p hp q hq heq
    obtain ⟨⟨p', n⟩, hn, rfl⟩ := mem_map.mp hp
    obtain ⟨⟨q', m⟩, hm, rfl⟩ := mem_map.mp hq
    exact rebase_injOn (of_decide_eq_true (mem_filter.mp hn).2)
      (of_decide_eq_true (mem_filter.mp hm).2) heq
  · rintro p hp q hq rfl
    obtain ⟨⟨p', n⟩, hn, rfl⟩ := mem_map.mp hp
    rw [map_map] at hq
    obtain ⟨⟨q', m⟩, hm, heq⟩ := mem_map.mp hq
    have hin : p' ∈ t.paths := mem_paths.mpr ⟨n, (mem_filter.mp hn).1⟩
    have hdst : dst <+: p' := by
      rw [← show rebase src dst q' = p' from heq]
      exact prefix_rebase src dst q'
    exact hfree (h.mem_of_prefix hin hdst)

/-- **A rename keeps a tree** if the destination is free, has a parent and is not below the
source. -/
theorem WellFormed.move (hsrc : src ≠ []) (hfree : dst ∉ t.paths) (hout : ¬ src <+: dst)
    (hparent : (dst.dropLast, Node.directory) ∈ t) : (t.move src dst).WellFormed where
  nodup := h.nodup_move hfree
  root := by
    refine (h.mem_move hfree).mpr (.inl ⟨h.root, ?_⟩)
    rw [prefix_nil]
    exact hsrc
  parent := by
    intro q n hq hne
    rw [h.mem_move hfree] at hq ⊢
    rcases hq with ⟨hq, hsrcq⟩ | ⟨p, hp, ⟨rest, rfl⟩, rfl⟩
    · have hle : q.dropLast <+: q := dropLast_prefix q
      exact .inl ⟨h.parent q n hq hne, fun hpre => hsrcq (hpre.trans hle)⟩
    · have hbase : rebase src dst (src ++ rest) = dst ++ rest := by simp [rebase]
      rw [hbase]
      by_cases hrest : rest = []
      · subst hrest
        rw [append_nil]
        have hle : dst.dropLast <+: dst := dropLast_prefix dst
        exact .inl ⟨hparent, fun hpre => hout (hpre.trans hle)⟩
      · have hup := h.parent _ n hp (by simp [hrest])
        rw [dropLast_append_of_ne_nil hrest] at hup
        refine .inr ⟨src ++ rest.dropLast, hup, prefix_append _ _, ?_⟩
        rw [dropLast_append_of_ne_nil hrest]
        simp [rebase]

end

end PathTree

end FileTree
