import Mathlib.Data.List.Basic
import Mathlib.Tactic

/-!
# File trees with symbolic links

A tree of files, symbolic links and directories.  Every node is listed under its place, the names
on the way to it from the root, and what is not in the root is in a directory.

`walk` resolves a path as the kernel does, through `..` and through links.  Along a place of the
tree it goes straight on (`walk_names`): there are directories only on the way.

`Pruned` compares two trees of which the second has lost nodes of some places and is otherwise the
same.
-/

namespace FileTree

inductive Step (N : Type) where
  | up
  | into (name : N)
deriving DecidableEq

/-- The target of a symbolic link. -/
structure Route (N : Type) where
  absolute : Bool
  steps : List (Step N)
deriving DecidableEq

inductive Kind (N : Type) where
  | file
  | link (target : Route N)
  | dir
deriving DecidableEq

structure Node (N A : Type) where
  kind : Kind N
  attr : A
deriving DecidableEq

section Search

variable {N : Type} {search : List N → Bool}

/-- Every directory on the way from `cur` may be searched. -/
def mayPass (search : List N → Bool) : List N → List N → Bool
  | _, [] => true
  | cur, n :: ns => search cur && mayPass search (cur ++ [n]) ns

theorem mayPass_snoc (cur ns : List N) (n : N) :
    mayPass search cur (ns ++ [n]) = (mayPass search cur ns && search (cur ++ ns)) := by
  induction ns generalizing cur with
  | nil => simp [mayPass]
  | cons m ns ih => simp [mayPass, ih, Bool.and_assoc]

end Search

section Entries

variable {N A : Type} [DecidableEq N]

def nodeAt (entries : List (List N × Node N A)) (q : List N) : Option (Node N A) :=
  (entries.find? fun e => e.1 = q).map Prod.snd

/-- The root is a directory without an entry. -/
def isDirAt (entries : List (List N × Node N A)) (q : List N) : Bool :=
  match q with
  | [] => true
  | _ :: _ =>
      match nodeAt entries q with
      | some ⟨.dir, _⟩ => true
      | _ => false

end Entries

structure Tree (N A : Type) [DecidableEq N] where
  entries : List (List N × Node N A)
  /-- What is in the tree is in the root or in a directory of the tree. -/
  closed : ∀ e ∈ entries, ∀ p n, e.1 = p ++ [n] → isDirAt entries p = true

namespace Tree

variable {N A : Type} [DecidableEq N] (t : Tree N A)

def node (q : List N) : Option (Node N A) :=
  nodeAt t.entries q

def isDir (q : List N) : Bool :=
  isDirAt t.entries q

/-- The names in a directory. -/
def names (p : List N) : List N :=
  t.entries.filterMap fun e => if e.1.dropLast = p then e.1.getLast? else none

variable {t} {p q : List N} {n : N}

theorem node_eq_some {node : Node N A} (h : t.node q = some node) : (q, node) ∈ t.entries := by
  obtain ⟨⟨q', node'⟩, hfind, rfl⟩ := Option.map_eq_some_iff.1 h
  have hq := List.find?_some hfind
  have hmem := List.mem_of_find?_eq_some hfind
  simp only [decide_eq_true_eq] at hq
  subst hq
  exact hmem

theorem node_ne_none_of_mem {e : List N × Node N A} (h : e ∈ t.entries) : t.node e.1 ≠ none := by
  intro hnone
  rw [node, nodeAt, Option.map_eq_none_iff] at hnone
  simpa using List.find?_eq_none.1 hnone e h

theorem isDir_parent (h : t.node (p ++ [n]) ≠ none) : t.isDir p = true := by
  obtain ⟨node, hnode⟩ := Option.ne_none_iff_exists'.1 h
  exact t.closed _ (node_eq_some hnode) p n rfl

theorem node_of_isDir (hq : q ≠ []) (h : t.isDir q = true) :
    ∃ a, t.node q = some ⟨.dir, a⟩ := by
  cases q with
  | nil => exact absurd rfl hq
  | cons n q =>
      rw [isDir, isDirAt] at h
      split at h
      · rename_i a hnode
        exact ⟨a, hnode⟩
      · cases h

theorem isDir_of_node {a : A} (h : t.node q = some ⟨.dir, a⟩) : t.isDir q = true := by
  cases q with
  | nil => rfl
  | cons n q => rw [isDir, isDirAt, ← node, h]

theorem isDir_congr {t' : Tree N A} (h : t'.node q = t.node q) : t'.isDir q = t.isDir q := by
  cases q with
  | nil => rfl
  | cons n q => rw [isDir, isDir, isDirAt, isDirAt, ← node, ← node, h]

theorem not_isDir_of_node {node : Node N A} (hq : q ≠ []) (h : t.node q = some node)
    (hkind : node.kind ≠ .dir) : t.isDir q = false := by
  by_contra hdir
  obtain ⟨a, hnode⟩ := node_of_isDir hq (Bool.eq_true_of_not_eq_false hdir)
  rw [h] at hnode
  cases hnode
  exact hkind rfl

/-- There are directories only on the way to a node. -/
theorem isDir_above {ms : List N} (hms : ms ≠ []) (h : t.node (p ++ ms) ≠ none) :
    t.isDir p = true := by
  induction ms using List.reverseRecOn with
  | nil => exact absurd rfl hms
  | append_singleton ms m ih =>
      rw [← List.append_assoc] at h
      have hdir := isDir_parent h
      by_cases hnil : ms = []
      · subst hnil
        simpa using hdir
      · obtain ⟨a, hnode⟩ := node_of_isDir (by simp [hnil]) hdir
        exact ih hnil (by simp [hnode])

theorem mem_names : n ∈ t.names p ↔ t.node (p ++ [n]) ≠ none := by
  constructor
  · intro h
    obtain ⟨e, he, hn⟩ := List.mem_filterMap.1 h
    split at hn
    · rename_i hp
      have hq : e.1 = p ++ [n] := by
        rw [← hp]
        exact (List.dropLast_append_getLast? n hn).symm
      rw [← hq]
      exact node_ne_none_of_mem he
    · cases hn
  · intro h
    obtain ⟨node, hnode⟩ := Option.ne_none_iff_exists'.1 h
    refine List.mem_filterMap.2 ⟨_, node_eq_some hnode, ?_⟩
    simp

/-- Only directories have something below them. -/
theorem names_eq_nil (h : t.isDir p = false) : t.names p = [] := by
  apply List.eq_nil_iff_forall_not_mem.2
  intro n hn
  rw [isDir_parent (mem_names.1 hn)] at h
  cases h

/-- Remove a node with nothing below it. -/
def remove (t : Tree N A) (q : List N) (h : t.names q = []) : Tree N A where
  entries := t.entries.filter fun e => e.1 ≠ q
  closed := by
    intro e he p n hp
    obtain ⟨hmem, hne⟩ := List.mem_filter.1 he
    have hpq : p ≠ q := by
      rintro rfl
      have hn : n ∈ t.names p := mem_names.2 (hp ▸ node_ne_none_of_mem hmem)
      rw [h] at hn
      cases hn
    have hdir := t.closed e hmem p n hp
    cases p with
    | nil => rfl
    | cons m p =>
        have hsame : nodeAt (t.entries.filter fun e => e.1 ≠ q) (m :: p) =
            nodeAt t.entries (m :: p) := by
          rw [nodeAt, nodeAt, List.find?_filter]
          congr 1
          apply List.find?_congr
          intro e _
          by_cases heq : e.1 = m :: p <;> simp [heq, hpq]
        rw [isDirAt] at hdir ⊢
        rw [hsame]
        exact hdir

theorem node_remove (h : t.names q = []) (p : List N) :
    (t.remove q h).node p = if p = q then none else t.node p := by
  rw [node, node, nodeAt, nodeAt, remove]
  split
  · rename_i hpq
    subst hpq
    simp
  · rename_i hpq
    rw [List.find?_filter]
    congr 1
    apply List.find?_congr
    intro e _
    by_cases heq : e.1 = p <;> simp [heq, hpq]

section Walk

variable (t : Tree N A) (search : List N → Bool) (last : Bool)

/-- One way down, up to the first link, from which `retry` goes on; a link at the end of the path
is followed if `last` says so. -/
def follow (retry : List N → List (Step N) → Option (List N)) :
    List N → List (Step N) → Option (List N)
  | cur, [] => some cur
  | cur, .up :: rest => if search cur then follow retry cur.dropLast rest else none
  | cur, .into n :: rest =>
      if search cur then
        match t.node (cur ++ [n]) with
        | none => none
        | some ⟨.file, _⟩ => if rest = [] then some (cur ++ [n]) else none
        | some ⟨.dir, _⟩ => follow retry (cur ++ [n]) rest
        | some ⟨.link target, _⟩ =>
            if rest = [] ∧ last = false then some (cur ++ [n])
            else retry (if target.absolute then [] else cur) (target.steps ++ rest)
      else none

/-- The place that a path leads to from `cur`, with so many links at most. -/
def walk : Nat → List N → List (Step N) → Option (List N)
  | 0 => t.follow search last fun _ _ => none
  | links + 1 => t.follow search last (walk links)

end Walk

section Straight

variable {search : List N → Bool} {retry : List N → List (Step N) → Option (List N)}

/-- The names of a place lead there. -/
theorem follow_names {ns cur : List N} (hnode : t.node (cur ++ ns) ≠ none) :
    t.follow search false retry cur (ns.map .into) =
      if mayPass search cur ns then some (cur ++ ns) else none := by
  induction ns generalizing cur with
  | nil => simp [follow, mayPass]
  | cons n ns ih =>
      have hnode' : t.node (cur ++ [n] ++ ns) ≠ none := by simpa using hnode
      rw [List.map_cons, follow, mayPass]
      cases search cur with
      | false => rfl
      | true =>
          rw [if_pos rfl, Bool.true_and]
          cases ns with
          | nil =>
              obtain ⟨⟨kind, a⟩, hfound⟩ := Option.ne_none_iff_exists'.1 hnode
              rw [hfound]
              cases kind <;> simp [follow, mayPass]
          | cons m ns =>
              -- there is more on the way, so this is a directory
              obtain ⟨a, hfound⟩ := node_of_isDir (by simp) (isDir_above (by simp) hnode')
              rw [hfound]
              dsimp only
              rw [ih hnode', List.append_assoc]
              rfl

theorem walk_names {ns cur : List N} (hnode : t.node (cur ++ ns) ≠ none) (links : Nat) :
    t.walk search false links cur (ns.map .into) =
      if mayPass search cur ns then some (cur ++ ns) else none := by
  cases links with
  | zero => exact follow_names hnode
  | succ links => exact follow_names hnode

end Straight

end Tree

section Pruned

variable {N A : Type} [DecidableEq N] {S S' : List N → Prop} {t t' t'' : Tree N A}

/-- The second tree has lost nodes of some places, and is otherwise the same. -/
def Pruned (S : List N → Prop) (t t' : Tree N A) : Prop :=
  ∀ p, t'.node p = t.node p ∨ (S p ∧ t'.node p = none)

namespace Pruned

theorem refl : Pruned S t t :=
  fun _ => .inl rfl

theorem mono (h : Pruned S t t') (hS : ∀ p, S p → S' p) : Pruned S' t t' :=
  fun p => (h p).imp_right fun hp => ⟨hS p hp.1, hp.2⟩

theorem trans (h : Pruned S t t') (h' : Pruned S t' t'') : Pruned S t t'' := by
  intro p
  rcases h' p with heq | hgone
  · rw [heq]
    exact h p
  · exact .inr hgone

theorem node_none {p : List N} (h : Pruned S t t') (hp : t.node p = none) : t'.node p = none := by
  rcases h p with heq | hgone
  · rw [heq, hp]
  · exact hgone.2

theorem node_ne_none {p : List N} (h : Pruned S t t') (hp : t'.node p ≠ none) : t.node p ≠ none :=
  fun hnone => hp (h.node_none hnone)

theorem node_same {p : List N} (h : Pruned S t t') (hp : ¬ S p) : t'.node p = t.node p :=
  (h p).resolve_right fun hgone => hp hgone.1

theorem isDir {p : List N} (h : Pruned S t t') (hp : t'.isDir p = true) : t.isDir p = true := by
  cases p with
  | nil => rfl
  | cons n p =>
      obtain ⟨a, hnode⟩ := Tree.node_of_isDir (by simp) hp
      rcases h (n :: p) with heq | ⟨-, hgone⟩
      · rw [heq] at hnode
        exact Tree.isDir_of_node hnode
      · rw [hgone] at hnode
        cases hnode

theorem remove {q : List N} (hq : t.names q = []) (hS : S q) : Pruned S t (t.remove q hq) := by
  intro p
  rw [Tree.node_remove]
  by_cases hpq : p = q
  · subst hpq
    exact .inr ⟨hS, if_pos rfl⟩
  · exact .inl (if_neg hpq)

end Pruned

/-- Nothing is left below a place without a node. -/
theorem Tree.node_below {p q : List N} (h : t.node p = none) (hne : p ≠ []) (hpq : p <+: q) :
    t.node q = none := by
  obtain ⟨ms, rfl⟩ := hpq
  cases ms with
  | nil => simpa using h
  | cons m ms =>
      by_contra hnode
      obtain ⟨a, hdir⟩ := Tree.node_of_isDir hne (Tree.isDir_above (by simp) hnode)
      rw [h] at hdir
      cases hdir

end Pruned

end FileTree
