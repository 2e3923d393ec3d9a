import Noxtor.Net.StaleDirs

/-!
# What the cleanup removes

`rm_rf` goes down by paths and takes away by descriptors.  As long as every directory on the way
has been seen to be one, both mean the same place, and no link is followed: this is what
`resolve_pathOf` and `resolveAt_name` say, and the rest is an induction over the calls.
-/

namespace Noxtor
namespace Net

open ByteString FileTree

section Paths

variable {H : Host} {t : Files} {dir ns : Place} {n : Name}

/-- The path by which the program names a place below `base`. -/
def pathOf (H : Host) (ns : Place) : Bytes :=
  H.configDir ++ ns.flatMap fun n => 0x2f :: n.val

theorem pathOf_snoc (H : Host) (ns : Place) (n : Name) :
    pathOf H (ns ++ [n]) = pathOf H ns ++ [0x2f] ++ n.val := by
  simp [pathOf]

theorem stepOf_name (n : Name) : stepOf n.val = some (.into n) := by
  rw [stepOf, if_neg n.2.2.2.1, dif_pos n.2]

theorem splitOn_names (b : Bytes) (hb : 0x2f ∉ b) (ns : Place) :
    (b ++ ns.flatMap fun n => 0x2f :: n.val).splitOn 0x2f = b :: ns.map Subtype.val := by
  induction ns generalizing b with
  | nil => simpa using List.splitOn_eq_singleton hb
  | cons n ns ih =>
      have hslash : 0x2f ∉ n.val := n.2.2.2.2.1
      rw [List.flatMap_cons, List.cons_append, List.splitOn_append_cons_self_of_not_mem hb,
        ih _ hslash]
      rfl

theorem stepsOf_pathOf (H : Host) (ns : Place) :
    stepsOf ((pathOf H ns).drop H.configDir.length) = ns.map .into := by
  have hsplit := splitOn_names [] (by simp) ns
  rw [List.nil_append] at hsplit
  rw [pathOf, List.drop_left, stepsOf, hsplit, List.filterMap_cons_none (by decide),
    List.filterMap_map]
  have hstep : stepOf ∘ Subtype.val = fun n : Name => some (Step.into n) := funext stepOf_name
  rw [hstep, List.filterMap_eq_map']

theorem stepsOf_name (n : Name) : stepsOf n.val = [.into n] := by
  rw [stepsOf, List.splitOn_eq_singleton n.2.2.2.2.1, List.filterMap_cons_some (stepOf_name n),
    List.filterMap_nil]

/-- A path leads to the place it is the path of, if there is something. -/
theorem resolve_pathOf (hnode : t.node (H.base ++ ns) ≠ none) :
    resolve H (pathOf H ns) t =
      if mayPass H.search H.base ns then some (H.base ++ ns) else none := by
  rw [resolve, stepsOf_pathOf, Tree.walk_names hnode]

theorem resolveAt_name (hnode : t.node (dir ++ [n]) ≠ none) :
    resolveAt H dir n.val t = if H.search dir then some (dir ++ [n]) else none := by
  have hwalk : t.walk H.search false maxLinks dir ([n].map .into) =
      if mayPass H.search dir [n] then some (dir ++ [n]) else none :=
    Tree.walk_names hnode maxLinks
  rw [mayPass, mayPass, Bool.and_true] at hwalk
  rw [resolveAt, stepsOf_name]
  exact hwalk

theorem resolve_entry (H : Host) (n : Name) (t : Files) :
    resolve H (pathOf H [n]) t = resolveAt H H.base n.val t := by
  rw [resolve, stepsOf_pathOf, resolveAt, stepsOf_name]
  rfl

theorem fstatat_name (H : Host) (dir : Place) (n : Name) (t : Files) :
    fstatat H dir n.val t = if H.search dir then t.node (dir ++ [n]) else none := by
  cases hnode : t.node (dir ++ [n]) with
  | none =>
      rw [fstatat, resolveAt, stepsOf_name, ite_self]
      rw [maxLinks, Tree.walk, Tree.follow, hnode]
      simp
  | some node =>
      rw [fstatat, resolveAt_name (by simp [hnode])]
      cases H.search dir with
      | false => rfl
      | true => exact hnode

theorem lstat_entry (H : Host) (n : Name) (t : Files) :
    lstat H (pathOf H [n]) t = if H.search H.base then t.node (H.base ++ [n]) else none := by
  rw [lstat, resolve_entry]
  exact fstatat_name H H.base n t

end Paths

section Removal

variable {H : Host} {t t' : Files} {dir ns q : Place} {n : Name}

/-- The places from `base` and `ns` on. -/
def Below (H : Host) (ns : Place) (q : Place) : Prop :=
  H.base ++ ns <+: q

theorem Below.of_snoc (h : Below H (ns ++ [n]) q) : Below H ns q := by
  rw [Below, ← List.append_assoc] at h
  exact (List.prefix_append _ _).trans h

theorem not_below_snoc (H : Host) (ns : Place) (n : Name) :
    ¬ Below H (ns ++ [n]) (H.base ++ ns) := by
  intro h
  have hlen := h.length_le
  simp only [List.length_append, List.length_singleton] at hlen
  omega

theorem unlinkPlace_pruned {S : Place → Prop} (hS : S q) : Pruned S t (unlinkPlace H q t) := by
  unfold unlinkPlace
  split
  · split
    · exact Pruned.remove _ hS
    · exact Pruned.refl
  · exact Pruned.refl

theorem rmdirPlace_pruned {S : Place → Prop} (hS : S q) : Pruned S t (rmdirPlace H q t) := by
  unfold rmdirPlace
  split
  · split
    · exact Pruned.remove _ hS
    · exact Pruned.refl
  · exact Pruned.refl

theorem unlinkPlace_gone (hdir : t.isDir q = false) (hremoves : H.removes q = true) :
    (unlinkPlace H q t).node q = none := by
  rw [unlinkPlace, dif_pos (Tree.names_eq_nil hdir), if_pos (by simp [hdir, hremoves]),
    Tree.node_remove, if_pos rfl]

theorem rmdirPlace_gone (hdir : t.isDir q = true) (hnames : t.names q = [])
    (hremoves : H.removes q = true) : (rmdirPlace H q t).node q = none := by
  rw [rmdirPlace, dif_pos hnames, if_pos (by simp [hdir, hremoves]), Tree.node_remove, if_pos rfl]

theorem unlink_pruned {S : Place → Prop} (hnode : t.node (H.base ++ ns) ≠ none)
    (hS : S (H.base ++ ns)) : Pruned S t (unlink H (pathOf H ns) t) := by
  rw [unlink, resolve_pathOf hnode]
  cases mayPass H.search H.base ns with
  | false => exact Pruned.refl
  | true => exact unlinkPlace_pruned hS

theorem unlink_gone (hnode : t.node (H.base ++ ns) ≠ none)
    (hpass : mayPass H.search H.base ns = true) (hdir : t.isDir (H.base ++ ns) = false)
    (hremoves : H.removes (H.base ++ ns) = true) :
    (unlink H (pathOf H ns) t).node (H.base ++ ns) = none := by
  rw [unlink, resolve_pathOf hnode, hpass, if_pos rfl]
  exact unlinkPlace_gone hdir hremoves

theorem rmdir_pruned (hnode : t.node (H.base ++ ns) ≠ none) :
    Pruned (Below H ns) t (rmdir H (pathOf H ns) t) := by
  rw [rmdir, resolve_pathOf hnode]
  cases mayPass H.search H.base ns with
  | false => exact Pruned.refl
  | true => exact rmdirPlace_pruned (List.prefix_refl _)

theorem unlinkat_pruned (hnode : t.node (H.base ++ ns ++ [n]) ≠ none) :
    Pruned (Below H (ns ++ [n])) t (unlinkat H (H.base ++ ns) n.val t) := by
  rw [unlinkat, resolveAt_name hnode]
  cases H.search (H.base ++ ns) with
  | false => exact Pruned.refl
  | true =>
      refine unlinkPlace_pruned ?_
      rw [Below, ← List.append_assoc]

/-- Every removal below a place is permitted, and every directory there can be opened, read and
named by a path. -/
structure Clearable (H : Host) (t : Files) (ns : Place) : Prop where
  /-- A removal needs the directory, which must be open to searches. -/
  permitted : ∀ q, Below H ns q → t.node q ≠ none →
    H.removes q = true ∧ H.search q.dropLast = true
  listed : ∀ q, Below H ns q → t.isDir q = true → H.opens q = true ∧ H.streams q = true
  fits : ∀ ms, t.isDir (H.base ++ (ns ++ ms)) = true → (pathOf H (ns ++ ms)).length < noxPathMax

theorem Clearable.child (h : Clearable H t ns) (n : Name) : Clearable H t (ns ++ [n]) where
  permitted q hq := h.permitted q hq.of_snoc
  listed q hq := h.listed q hq.of_snoc
  fits ms := by
    rw [List.append_assoc]
    exact h.fits ([n] ++ ms)

theorem Clearable.pruned {S : Place → Prop} (h : Clearable H t ns) (hp : Pruned S t t') :
    Clearable H t' ns where
  permitted q hq hnode := h.permitted q hq (hp.node_ne_none hnode)
  listed q hq hdir := h.listed q hq (hp.isDir hdir)
  fits ms hdir := h.fits ms (hp.isDir hdir)

/-- The way to what is in a directory. -/
theorem Clearable.mayPass_child (h : Clearable H t ns) (hpass : mayPass H.search H.base ns = true)
    (hnode : t.node (H.base ++ ns ++ [n]) ≠ none) :
    H.search (H.base ++ ns) = true ∧ mayPass H.search H.base (ns ++ [n]) = true := by
  have hsearch := (h.permitted _ (by rw [Below, List.append_assoc]; simp) hnode).2
  rw [List.dropLast_concat] at hsearch
  rw [mayPass_snoc, hpass, hsearch]
  exact ⟨rfl, rfl⟩

/-- What a call does that is to remove everything at a place. -/
structure Removes (H : Host) (ns : Place) (t t' : Files) : Prop where
  pruned : Pruned (Below H ns) t t'
  gone : Clearable H t ns → mayPass H.search H.base ns = true →
    ∀ q, Below H ns q → t'.node q = none

/-- It is enough that the place itself is gone. -/
theorem gone_below (h : t.node (H.base ++ (ns ++ [n])) = none) (q : Place)
    (hq : Below H (ns ++ [n]) q) : t.node q = none :=
  Tree.node_below h (by simp) hq

end Removal

section Recursion

variable {H : Host} {ns : Place} {t : Files}

theorem isSafeFilename_name (n : Name) : isSafeFilename n.val = true := by
  obtain ⟨b, hnil, hdot, hdotdot, hslash, -⟩ := n
  simp [isSafeFilename, hnil, hdot, hdotdot, hslash]

/-- What is asked of the nested call. -/
def Recursive (H : Host) (recurse : Bytes → Files → Option Files) (ns : Place) : Prop :=
  ∀ n t, t.node (H.base ++ (ns ++ [n])) ≠ none → (pathOf H (ns ++ [n])).length < noxPathMax →
    ∃ t', recurse (pathOf H (ns ++ [n])) t = some t' ∧ Removes H (ns ++ [n]) t t'

variable {recurse : Bytes → Files → Option Files}

/-- One turn of the loop. -/
theorem rmEntry_removes (hrec : Recursive H recurse ns) (n : Name) (t : Files) :
    ∃ t', rmEntry H recurse (pathOf H ns) (H.base ++ ns) t n.val = some t' ∧
      Removes H (ns ++ [n]) t t' := by
  have hplace : H.base ++ ns ++ [n] = H.base ++ (ns ++ [n]) := List.append_assoc _ _ _
  rw [rmEntry, if_neg (by simp [isSafeFilename_name]), fstatat_name, hplace, ← pathOf_snoc]
  cases hsearch : H.search (H.base ++ ns) with
  | false =>
      refine ⟨t, rfl, Pruned.refl, ?_⟩
      intro _ hpass
      rw [mayPass_snoc, hsearch, Bool.and_false] at hpass
      cases hpass
  | true =>
      cases hnode : t.node (H.base ++ (ns ++ [n])) with
      | none => exact ⟨t, rfl, Pruned.refl, fun _ _ => gone_below hnode⟩
      | some node =>
          have hsome : t.node (H.base ++ (ns ++ [n])) ≠ none := by simp [hnode]
          obtain ⟨kind, owner⟩ := node
          by_cases hkind : kind = .dir
          · subst hkind
            have hdir : t.isDir (H.base ++ (ns ++ [n]) ++ []) = true := by
              rw [List.append_nil]
              exact Tree.isDir_of_node hnode
            by_cases hfits : (pathOf H (ns ++ [n])).length < noxPathMax
            · simpa [hfits] using hrec n t hsome hfits
            · refine ⟨t, by simp [hfits], Pruned.refl, ?_⟩
              intro hclear
              have hfits' := hclear.fits [] (by simpa using hdir)
              rw [List.append_nil] at hfits'
              exact absurd hfits' hfits
          · -- a file or a link, which is not followed
            refine ⟨unlinkat H (H.base ++ ns) n.val t, ?_, unlinkat_pruned (hplace ▸ hsome), ?_⟩
            · cases kind with
              | file => rfl
              | link target => rfl
              | dir => exact absurd rfl hkind
            · intro hclear _
              have hremoves := (hclear.permitted _ (List.prefix_refl _) hsome).1
              refine gone_below ?_
              rw [unlinkat, resolveAt_name (hplace ▸ hsome), hsearch, if_pos rfl, hplace]
              exact unlinkPlace_gone (Tree.not_isDir_of_node (by simp) hnode hkind) hremoves

/-- The loop over the names of a directory. -/
theorem rmEntries_remove (hrec : Recursive H recurse ns) (names : List Name) (t : Files) :
    ∃ t', (names.map Subtype.val).foldlM (rmEntry H recurse (pathOf H ns) (H.base ++ ns)) t =
        some t' ∧
      Pruned (fun q => ∃ n, Below H (ns ++ [n]) q) t t' ∧
      ∀ n ∈ names, Clearable H t (ns ++ [n]) → mayPass H.search H.base (ns ++ [n]) = true →
        ∀ q, Below H (ns ++ [n]) q → t'.node q = none := by
  induction names generalizing t with
  | nil => exact ⟨t, rfl, Pruned.refl, by simp⟩
  | cons m names ih =>
      obtain ⟨t1, hstep, hm⟩ := rmEntry_removes hrec m t
      obtain ⟨t2, hloop, hpruned, hgone⟩ := ih t1
      refine ⟨t2, ?_, ?_, ?_⟩
      · rw [List.map_cons, List.foldlM_cons, hstep]
        exact hloop
      · exact (hm.pruned.mono fun q hq => ⟨m, hq⟩).trans hpruned
      · intro n hn hclear hpass q hq
        rcases List.mem_cons.1 hn with rfl | hn
        · exact hpruned.node_none (hm.gone hclear hpass q hq)
        · exact hgone n hn (hclear.pruned hm.pruned) hpass q hq

theorem readdir_foldlM (f : Files → Bytes → Option Files) (dir : Place)
    (hskip : ∀ t name, isSafeFilename name = false → f t name = some t) :
    (readdir dir t).foldlM f t = ((t.names dir).map Subtype.val).foldlM f t := by
  rw [readdir, List.foldlM_cons, hskip _ _ (by decide), Option.bind_eq_bind, Option.bind_some,
    List.foldlM_cons, hskip _ _ (by decide), Option.bind_eq_bind, Option.bind_some]

/-- A directory that could be opened. -/
theorem rmDir_removes (hrec : Recursive H recurse ns) (hne : H.base ++ ns ≠ [])
    (hnode : t.node (H.base ++ ns) ≠ none) (hdir : t.isDir (H.base ++ ns) = true) :
    ∃ t', ((readdir (H.base ++ ns) t).foldlM
        (rmEntry H recurse (pathOf H ns) (H.base ++ ns)) t).map (rmdir H (pathOf H ns)) = some t' ∧
      Removes H ns t t' := by
  obtain ⟨t1, hloop, hpruned, hgone⟩ := rmEntries_remove hrec (t.names (H.base ++ ns)) t
  have hskip : ∀ t name, isSafeFilename name = false →
      rmEntry H recurse (pathOf H ns) (H.base ++ ns) t name = some t := by
    intro t name hname
    rw [rmEntry, if_pos (by simp [hname])]
  have hsame : t1.node (H.base ++ ns) = t.node (H.base ++ ns) :=
    hpruned.node_same fun ⟨n, hn⟩ => not_below_snoc H ns n hn
  have hnode1 : t1.node (H.base ++ ns) ≠ none := by rwa [hsame]
  refine ⟨rmdir H (pathOf H ns) t1, ?_, ?_, ?_⟩
  · rw [readdir_foldlM _ _ hskip, hloop]
    rfl
  · exact (hpruned.mono fun q ⟨n, hn⟩ => hn.of_snoc).trans (rmdir_pruned hnode1)
  · intro hclear hpass
    -- every name that was read is gone, so the directory is empty
    have hempty : t1.names (H.base ++ ns) = [] := by
      apply List.eq_nil_iff_forall_not_mem.2
      intro n hn
      have hchild1 := Tree.mem_names.1 hn
      have hchild := hpruned.node_ne_none hchild1
      refine hchild1 ?_
      rw [List.append_assoc]
      exact hgone n (Tree.mem_names.2 hchild) (hclear.child n)
        (hclear.mayPass_child hpass hchild).2 _ (List.prefix_refl _)
    have hdir1 : t1.isDir (H.base ++ ns) = true := by rwa [Tree.isDir_congr hsame]
    have hremoves := (hclear.permitted _ (List.prefix_refl _) hnode).1
    intro q hq
    have hgone' : (rmdir H (pathOf H ns) t1).node (H.base ++ ns) = none := by
      rw [rmdir, resolve_pathOf hnode1, hpass, if_pos rfl]
      exact rmdirPlace_gone hdir1 hempty hremoves
    exact Tree.node_below hgone' hne hq

/-- A place is removed by `rm_rf`, which ends because the paths get longer. -/
theorem rmRf_removes (k : Nat) (n : Name) (hnode : t.node (H.base ++ (ns ++ [n])) ≠ none)
    (hlen : (pathOf H (ns ++ [n])).length < noxPathMax)
    (hk : noxPathMax ≤ k + (pathOf H (ns ++ [n])).length) :
    ∃ t', rmRf H k (pathOf H (ns ++ [n])) t = some t' ∧ Removes H (ns ++ [n]) t t' := by
  induction k generalizing ns n t with
  | zero => omega
  | succ k ih =>
      have hrec : Recursive H (rmRf H k) (ns ++ [n]) := by
        intro m t' hm hlen'
        refine ih m hm hlen' ?_
        have hlonger : (pathOf H (ns ++ [n] ++ [m])).length =
            (pathOf H (ns ++ [n])).length + 1 + m.val.length := by
          rw [pathOf_snoc, List.length_append, List.length_append, List.length_singleton]
        omega
      rw [rmRf]
      cases hopen : openDir H (pathOf H (ns ++ [n])) t with
      | none =>
          refine ⟨_, rfl, unlink_pruned hnode (List.prefix_refl _), ?_⟩
          intro hclear hpass
          have hself : Below H (ns ++ [n]) (H.base ++ (ns ++ [n])) := List.prefix_refl _
          have hdir : t.isDir (H.base ++ (ns ++ [n])) = false := by
            by_contra hdir
            have hdir' := Bool.eq_true_of_not_eq_false hdir
            simp [openDir, resolve_pathOf hnode, hpass, hdir', (hclear.listed _ hself hdir').1]
              at hopen
          exact gone_below (unlink_gone hnode hpass hdir (hclear.permitted _ hself hnode).1)
      | some dir =>
          obtain ⟨hresolve, hdir⟩ := Option.filter_eq_some_iff.1 hopen
          rw [resolve_pathOf hnode] at hresolve
          split at hresolve
          · cases hresolve
            rw [Bool.and_eq_true] at hdir
            dsimp only
            cases hstreams : H.streams (H.base ++ (ns ++ [n])) with
            | false =>
                refine ⟨t, rfl, Pruned.refl, ?_⟩
                intro hclear _
                have hstreams' := (hclear.listed _ (List.prefix_refl _) hdir.1).2
                rw [hstreams] at hstreams'
                cases hstreams'
            | true => exact rmDir_removes hrec (by simp) hnode hdir.1
          · cases hresolve

theorem rmRf_entry {k : Nat} {n : Name} (hk : noxPathMax ≤ k)
    (hnode : t.node (H.base ++ [n]) ≠ none) (hlen : (pathOf H [n]).length < noxPathMax) :
    ∃ t', rmRf H k (pathOf H [n]) t = some t' ∧ Removes H [n] t t' :=
  @rmRf_removes H [] t k n hnode hlen (hk.trans (Nat.le_add_right _ _))

end Recursion

section Cleanup

variable {H : Host} {t t' : Files} {n : Name} {isDataDir : Bool}

/-- An entry that an earlier run of the user has left. -/
structure StaleEntry (H : Host) (t : Files) (isDataDir : Bool) (name : Name) : Prop where
  named : ∃ s, name.val = (if isDataDir then torDataName else torrcName) ++ s ∧
    0 < safeParsePid s ∧ H.kill (safeParsePid s) = .esrch
  owned : ∃ node, t.node (H.base ++ [name]) = some node ∧ node.attr = H.getuid

/-- What goes with an entry: everything below a data directory. -/
def Covers (isDataDir : Bool) (entry q : Place) : Prop :=
  if isDataDir then entry <+: q else q = entry

theorem Covers.below {q : Place} (h : Covers isDataDir (H.base ++ [n]) q) : Below H [n] q := by
  cases isDataDir with
  | true => exact h
  | false =>
      have hq : q = H.base ++ [n] := h
      rw [hq]
      exact List.prefix_refl _

theorem not_covers_of_ne {m : Name} (h : m ≠ n) :
    ¬ Covers isDataDir (H.base ++ [m]) (H.base ++ [n]) := by
  intro hcovers
  have hprefix : H.base ++ [m] <+: H.base ++ [n] := hcovers.below
  have heq := hprefix.eq_of_length (by simp)
  exact h (by simpa using heq)

theorem entryPid_eq_some {name : Bytes} {pid : Int} :
    entryPid name = some (isDataDir, pid) ↔
      ∃ s, name = (if isDataDir then torDataName else torrcName) ++ s ∧ pid = safeParsePid s := by
  constructor
  · intro h
    unfold entryPid at h
    split at h
    · rename_i htake
      cases h
      exact ⟨name.drop 9, by rw [if_pos rfl, ← htake, List.take_append_drop], rfl⟩
    · split at h
      · rename_i htake
        cases h
        exact ⟨name.drop 6, by rw [if_neg (by simp), ← htake, List.take_append_drop], rfl⟩
      · cases h
  · rintro ⟨s, rfl, rfl⟩
    cases isDataDir with
    | true =>
        have htake : (torDataName ++ s).take 9 = torDataName := List.take_left' rfl
        have hdrop : (torDataName ++ s).drop 9 = s := List.drop_left' rfl
        rw [if_pos rfl, entryPid, if_pos htake, hdrop]
    | false =>
        have hne : ¬ (torrcName ++ s).take 9 = torDataName := by
          simp [torrcName, torDataName]
        have htake : (torrcName ++ s).take 6 = torrcName := List.take_left' rfl
        have hdrop : (torrcName ++ s).drop 6 = s := List.drop_left' rfl
        rw [if_neg (by simp), entryPid, if_neg hne, if_pos htake, hdrop]

theorem isOurStaleEntry_iff {pid : Int} :
    isOurStaleEntry H (pathOf H [n]) pid t = true ↔
      H.search H.base = true ∧ H.kill pid = .esrch ∧
        ∃ node, t.node (H.base ++ [n]) = some node ∧ node.attr = H.getuid := by
  rw [isOurStaleEntry, lstat_entry]
  cases H.search H.base with
  | false => simp
  | true =>
      rw [if_pos rfl]
      cases t.node (H.base ++ [n]) with
      | none => simp
      | some node =>
          by_cases howner : node.attr = H.getuid
          · cases H.kill pid <;> simp [howner]
          · simp [howner]

/-- The checks of the loop, for a name. -/
theorem cleanupEntry_eq (k : Nat) :
    cleanupEntry H k t n.val =
      match entryPid n.val with
      | none => some t
      | some (isDataDir, pid) =>
          if pid ≤ 0 ∨ noxPathMax ≤ (pathOf H [n]).length ∨
              isOurStaleEntry H (pathOf H [n]) pid t = false then some t
          else if isDataDir then rmRf H k (pathOf H [n]) t
          else some (unlink H (pathOf H [n]) t) := by
  have hpath : H.configDir ++ [0x2f] ++ n.val = pathOf H [n] := by simp [pathOf]
  have htake : (pathOf H [n]).take H.configDir.length = H.configDir := List.take_left
  have hdrop : (pathOf H [n]).drop H.configDir.length = 0x2f :: n.val := by
    simp [pathOf]
  rw [cleanupEntry, if_neg (by simp [isSafeFilename_name])]
  cases entryPid n.val with
  | none => rfl
  | some found =>
      obtain ⟨isDataDir, pid⟩ := found
      dsimp only
      rw [hpath, htake, hdrop]
      by_cases hpid : pid ≤ 0
      · simp [hpid]
      by_cases hlen : noxPathMax ≤ (pathOf H [n]).length
      · simp [hlen]
      cases hours : isOurStaleEntry H (pathOf H [n]) pid t <;> simp [hpid, hlen]

theorem StaleEntry.of_pruned {S : Place → Prop} (hp : Pruned S t t')
    (h : StaleEntry H t' isDataDir n) : StaleEntry H t isDataDir n where
  named := h.named
  owned := by
    obtain ⟨node, hnode, howner⟩ := h.owned
    rcases hp (H.base ++ [n]) with heq | ⟨-, hgone⟩
    · exact ⟨node, by rw [← heq, hnode], howner⟩
    · rw [hgone] at hnode
      cases hnode

theorem StaleEntry.of_same (hsame : t'.node (H.base ++ [n]) = t.node (H.base ++ [n]))
    (h : StaleEntry H t isDataDir n) : StaleEntry H t' isDataDir n where
  named := h.named
  owned := by
    rw [hsame]
    exact h.owned

/-- What the loop can have removed of a tree. -/
def Stale (H : Host) (t : Files) (q : Place) : Prop :=
  ∃ isDataDir n, StaleEntry H t isDataDir n ∧ Covers isDataDir (H.base ++ [n]) q

/-- What a turn of the loop has to remove. -/
structure Removable (H : Host) (t : Files) (isDataDir : Bool) (n : Name) : Prop where
  stale : StaleEntry H t isDataDir n
  clearable : Clearable H t [n]
  fits : (pathOf H [n]).length < noxPathMax
  /-- A `torrc_` entry that is a directory cannot be unlinked. -/
  kind : isDataDir = true ∨ t.isDir (H.base ++ [n]) = false

theorem Removable.search (h : Removable H t isDataDir n) : H.search H.base = true := by
  obtain ⟨node, hnode, -⟩ := h.stale.owned
  have hsearch := (h.clearable.permitted _ (List.prefix_refl _) (by simp [hnode])).2
  rwa [List.dropLast_concat] at hsearch

theorem staleEntry_iff :
    StaleEntry H t isDataDir n ↔
      (∃ pid, entryPid n.val = some (isDataDir, pid) ∧ 0 < pid ∧ H.kill pid = .esrch) ∧
        ∃ node, t.node (H.base ++ [n]) = some node ∧ node.attr = H.getuid := by
  constructor
  · rintro ⟨⟨s, hs, hpos, hkill⟩, howned⟩
    exact ⟨⟨_, entryPid_eq_some.2 ⟨s, hs, rfl⟩, hpos, hkill⟩, howned⟩
  · rintro ⟨⟨pid, hpid, hpos, hkill⟩, howned⟩
    obtain ⟨s, hs, rfl⟩ := entryPid_eq_some.1 hpid
    exact ⟨⟨s, hs, hpos, hkill⟩, howned⟩

/-- What a turn of the loop makes of the tree. -/
structure Cleaned (H : Host) (n : Name) (t t' : Files) : Prop where
  pruned : Pruned (fun q => ∃ isDataDir, StaleEntry H t isDataDir n ∧
    Covers isDataDir (H.base ++ [n]) q) t t'
  gone : ∀ isDataDir, Removable H t isDataDir n → ∀ q, Below H [n] q → t'.node q = none

/-- An entry that the checks leave alone. -/
theorem Cleaned.skip (h : ∀ isDataDir, ¬ Removable H t isDataDir n) : Cleaned H n t t :=
  ⟨Pruned.refl, fun isDataDir hr => absurd hr (h isDataDir)⟩

theorem cleanupEntry_cleaned {k : Nat} (hk : noxPathMax ≤ k) (n : Name) (t : Files) :
    ∃ t', cleanupEntry H k t n.val = some t' ∧ Cleaned H n t t' := by
  rw [cleanupEntry_eq]
  cases hpid : entryPid n.val with
  | none =>
      refine ⟨t, rfl, Cleaned.skip ?_⟩
      intro isDataDir h
      obtain ⟨⟨pid, hpid', -⟩, -⟩ := staleEntry_iff.1 h.stale
      rw [hpid] at hpid'
      cases hpid'
  | some found =>
      obtain ⟨isDataDir, pid⟩ := found
      dsimp only
      by_cases hskip : pid ≤ 0 ∨ noxPathMax ≤ (pathOf H [n]).length ∨
          isOurStaleEntry H (pathOf H [n]) pid t = false
      · rw [if_pos hskip]
        refine ⟨t, rfl, Cleaned.skip ?_⟩
        intro isDataDir h
        obtain ⟨⟨pid', hpid', hpos, hkill⟩, howned⟩ := staleEntry_iff.1 h.stale
        rw [hpid] at hpid'
        cases hpid'
        rcases hskip with hle | hlong | hours
        · omega
        · exact absurd h.fits (Nat.not_lt.2 hlong)
        · rw [isOurStaleEntry_iff.2 ⟨h.search, hkill, howned⟩] at hours
          cases hours
      · rw [if_neg hskip]
        simp only [not_or, Bool.not_eq_false] at hskip
        obtain ⟨hpos, hfits, hours⟩ := hskip
        obtain ⟨hsearch, hkill, howned⟩ := isOurStaleEntry_iff.1 hours
        have hstale : StaleEntry H t isDataDir n :=
          staleEntry_iff.2 ⟨⟨pid, hpid, Int.not_le.1 hpos, hkill⟩, howned⟩
        obtain ⟨node, hnode, -⟩ := howned
        have hsome : t.node (H.base ++ [n]) ≠ none := by simp [hnode]
        have hpass : mayPass H.search H.base [n] = true := by simp [mayPass, hsearch]
        cases isDataDir with
        | true =>
            obtain ⟨t', hrun, hremoved⟩ := rmRf_entry hk hsome (Nat.not_le.1 hfits)
            refine ⟨t', hrun, ?_, ?_⟩
            · exact hremoved.pruned.mono fun q hq => ⟨true, hstale, hq⟩
            · intro _ h
              exact hremoved.gone h.clearable hpass
        | false =>
            refine ⟨_, rfl, unlink_pruned hsome ⟨false, hstale, rfl⟩, ?_⟩
            intro isDataDir h
            obtain ⟨⟨pid', hpid', -⟩, -⟩ := staleEntry_iff.1 h.stale
            rw [hpid] at hpid'
            cases hpid'
            have hdir := h.kind.resolve_left (by simp)
            have hremoves := (h.clearable.permitted _ (List.prefix_refl _) hsome).1
            intro q hq
            exact Tree.node_below (unlink_gone hsome hpass hdir hremoves) (by simp) hq

/-- What a turn does to another entry. -/
theorem Cleaned.other {m : Name} (h : Cleaned H m t t') (hne : m ≠ n)
    (hr : Removable H t isDataDir n) : Removable H t' isDataDir n := by
  have hsame : t'.node (H.base ++ [n]) = t.node (H.base ++ [n]) :=
    h.pruned.node_same fun ⟨_, _, hcovers⟩ => not_covers_of_ne hne hcovers
  constructor
  · exact hr.stale.of_same hsame
  · exact hr.clearable.pruned h.pruned
  · exact hr.fits
  · rw [Tree.isDir_congr hsame]
    exact hr.kind

/-- The loop over the names of the configuration directory. -/
theorem cleanupEntries_cleaned {k : Nat} (hk : noxPathMax ≤ k) (names : List Name) (t : Files) :
    ∃ t', (names.map Subtype.val).foldlM (cleanupEntry H k) t = some t' ∧
      Pruned (Stale H t) t t' ∧
      ∀ n ∈ names, ∀ isDataDir, Removable H t isDataDir n →
        ∀ q, Below H [n] q → t'.node q = none := by
  induction names generalizing t with
  | nil => exact ⟨t, rfl, Pruned.refl, by simp⟩
  | cons m names ih =>
      obtain ⟨t1, hstep, hm⟩ := cleanupEntry_cleaned (H := H) hk m t
      obtain ⟨t2, hloop, hpruned, hgone⟩ := ih t1
      refine ⟨t2, ?_, ?_, ?_⟩
      · rw [List.map_cons, List.foldlM_cons, hstep]
        exact hloop
      · refine (hm.pruned.mono ?_).trans (hpruned.mono ?_)
        · rintro q ⟨isDataDir, hstale, hcovers⟩
          exact ⟨isDataDir, m, hstale, hcovers⟩
        · rintro q ⟨isDataDir, n, hstale, hcovers⟩
          exact ⟨isDataDir, n, hstale.of_pruned hm.pruned, hcovers⟩
      · intro n hn isDataDir hr q hq
        by_cases hmn : m = n
        · subst hmn
          exact hpruned.node_none (hm.gone isDataDir hr q hq)
        · have hmem : n ∈ names := (List.mem_cons.1 hn).resolve_left fun h => hmn h.symm
          exact hgone n hmem isDataDir (hm.other hmn hr) q hq

/-- The cleanup ends, changes nothing but stale entries, and removes those that can be cleared if
the configuration directory can be read. -/
theorem cleanup_contained (H : Host) (t : Files) {k : Nat} (hk : noxPathMax ≤ k) :
    ∃ t', cleanupStaleTorDirs H k t = some t' ∧ Pruned (Stale H t) t t' ∧
      (t.isDir H.base = true → H.opens H.base = true → H.streams H.base = true →
        ∀ n isDataDir, Removable H t isDataDir n → ∀ q, Below H [n] q → t'.node q = none) := by
  unfold cleanupStaleTorDirs
  split
  · obtain ⟨t', hloop, hpruned, hgone⟩ := cleanupEntries_cleaned (H := H) hk (t.names H.base) t
    have hskip : ∀ t name, isSafeFilename name = false → cleanupEntry H k t name = some t := by
      intro t name hname
      rw [cleanupEntry, if_pos (by simp [hname])]
    refine ⟨t', ?_, hpruned, ?_⟩
    · rw [readdir_foldlM _ _ hskip, hloop]
    · intro _ _ _ n isDataDir hr
      obtain ⟨node, hnode, -⟩ := hr.stale.owned
      exact hgone n (Tree.mem_names.2 (by simp [hnode])) isDataDir hr
  · rename_i hread
    refine ⟨t, rfl, Pruned.refl, ?_⟩
    intro hdir hopens hstreams
    simp [hdir, hopens, hstreams] at hread

/-- The directory of the application, the data directory of process 5, a key and a link in it, and
what the link leads to. -/
def sampleEntries : List (Place × Node Name Nat) :=
  let config : Name := ⟨[0x63], by decide⟩
  let data : Name := ⟨torDataName ++ [0x35], by decide⟩
  let key : Name := ⟨[0x6b], by decide⟩
  let link : Name := ⟨[0x6c], by decide⟩
  let other : Name := ⟨[0x78], by decide⟩
  [([config], ⟨.dir, 7⟩), ([config, data], ⟨.dir, 7⟩), ([config, data, key], ⟨.file, 7⟩),
    ([config, data, link], ⟨.link ⟨true, [.into other]⟩, 7⟩), ([other], ⟨.dir, 7⟩),
    ([other, key], ⟨.file, 7⟩)]

def sampleFiles : Files where
  entries := sampleEntries
  closed := by
    intro e he p n hp
    have hparent : p = e.1.dropLast := by rw [hp, List.dropLast_concat]
    have hdirs : ∀ e ∈ sampleEntries, isDirAt sampleEntries e.1.dropLast = true := by
      decide +kernel
    rw [hparent]
    exact hdirs e he

/-- Process 5 is gone, and directories can be read if `opens` says so. -/
def sampleHost (opens : Place → Bool) : Host :=
  { configDir := [0x2f, 0x63]
    base := [⟨[0x63], by decide⟩]
    opens := opens
    streams := fun _ => true
    search := fun _ => true
    removes := fun _ => true
    getuid := 7
    kill := fun pid => if pid = 5 then .esrch else .alive
    comm := fun _ => none }

def sampleDataDir : Name :=
  ⟨torDataName ++ [0x35], by decide⟩

theorem sampleStale (opens : Place → Bool) :
    StaleEntry (sampleHost opens) sampleFiles true sampleDataDir := by
  have hpid : safeParsePid [0x35] = 5 := by decide
  have hnode : nodeAt sampleEntries [⟨[0x63], by decide⟩, sampleDataDir] = some ⟨.dir, 7⟩ := by
    decide +kernel
  refine ⟨⟨[0x35], rfl, ?_, ?_⟩, ⟨⟨.dir, 7⟩, hnode, rfl⟩⟩
  · rw [hpid]
    decide
  · rw [hpid]
    rfl

/-- Short paths only. -/
theorem sample_fits (opens : Place → Bool) (ms : Place)
    (hdir : sampleFiles.isDir ((sampleHost opens).base ++ ([sampleDataDir] ++ ms)) = true) :
    (pathOf (sampleHost opens) ([sampleDataDir] ++ ms)).length < noxPathMax := by
  obtain ⟨a, hnode⟩ := Tree.node_of_isDir (by simp) hdir
  have hlengths : ∀ e ∈ sampleEntries,
      ([0x2f, 0x63] ++ (e.1.drop 1).flatMap fun n : Name => 0x2f :: n.val).length < noxPathMax := by
    decide +kernel
  exact hlengths _ (Tree.node_eq_some hnode)

theorem cleanup_contained_sample :
    ∃ t', cleanupStaleTorDirs (sampleHost fun _ => true) noxPathMax sampleFiles = some t' ∧
      (∀ q, Below (sampleHost fun _ => true) [sampleDataDir] q → t'.node q = none) ∧
      t'.node [⟨[0x78], by decide⟩, ⟨[0x6b], by decide⟩] = some ⟨.file, 7⟩ := by
  obtain ⟨t', hrun, hpruned, hgone⟩ :=
    cleanup_contained (sampleHost fun _ => true) sampleFiles (Nat.le_refl noxPathMax)
  refine ⟨t', hrun, ?_, ?_⟩
  · refine hgone (by decide +kernel) rfl rfl sampleDataDir true ⟨sampleStale _, ?_, ?_, .inl rfl⟩
    · exact ⟨fun _ _ _ => ⟨rfl, rfl⟩, fun _ _ _ => ⟨rfl, rfl⟩, sample_fits _⟩
    · decide +kernel
  · -- the target of the link is not below the configuration directory
    rw [hpruned.node_same ?_]
    · decide +kernel
    · rintro ⟨isDataDir, n, -, hcovers⟩
      have hbelow := hcovers.below
      obtain ⟨ms, hms⟩ := hbelow
      simp [sampleHost] at hms

/-- A data directory that cannot be opened for reading stays, although everything may be removed. -/
theorem unreadable_data_dir :
    ¬ ∀ (H : Host) (t t' : Files) (k : Nat), noxPathMax ≤ k →
      cleanupStaleTorDirs H k t = some t' → t.isDir H.base = true → H.opens H.base = true →
      H.streams H.base = true → ∀ n, StaleEntry H t true n →
      (∀ q, Below H [n] q → t.node q ≠ none → H.removes q = true ∧ H.search q.dropLast = true) →
      (∀ ms, t.isDir (H.base ++ ([n] ++ ms)) = true →
        (pathOf H ([n] ++ ms)).length < noxPathMax) →
      ∀ q, Below H [n] q → t'.node q = none := by
  intro h
  have hrun : (cleanupStaleTorDirs (sampleHost fun q => q.length = 1) noxPathMax
      sampleFiles).map Tree.entries = some sampleEntries := by
    decide +kernel
  obtain ⟨t', hrun', hentries⟩ := Option.map_eq_some_iff.1 hrun
  have hgone := h (sampleHost fun q => q.length = 1) sampleFiles t' noxPathMax (Nat.le_refl _)
    hrun' (by decide +kernel) rfl rfl sampleDataDir (sampleStale _) (fun _ _ _ => ⟨rfl, rfl⟩)
    (sample_fits _) _ (List.prefix_refl _)
  have hthere : nodeAt sampleEntries [⟨[0x63], by decide⟩, sampleDataDir] = some ⟨.dir, 7⟩ := by
    decide +kernel
  rw [← hentries] at hthere
  have hthere' : t'.node ((sampleHost fun q => q.length = 1).base ++ [sampleDataDir]) =
      some ⟨.dir, 7⟩ := hthere
  rw [hthere'] at hgone
  cases hgone

end Cleanup

end Net
end Noxtor
