import Noxtor.App.LineDeeds

/-!
# Pinned keys

The contacts table as the writes of a run leave it, and what it means that nobody else
writes to it.  A key that has been stored for an address stays until the user accepts
another one, as long as `/add` is not used for an address whose key is already known: `/add`
replaces the row, and with it the key, by a row without a key.
-/

namespace Noxtor
namespace App

open ByteString Noise

/-- The rows of the contacts table. -/
abbrev Contacts := Bytes → Option (Bytes × Key)

/-- `INSERT OR REPLACE INTO contacts`. -/
def contactStep (table : Contacts) : Effect → Contacts
  | .dbAddContact onion name key => Function.update table onion (some (name, key))
  | _ => table

/-- The table after the effects of a log. -/
def contactsAfter (table : Contacts) (log : List Effect) : Contacts :=
  log.foldl contactStep table

/-- Every lookup finds what the program has written: the database works, and nobody else
writes to it. -/
def Untampered (table : Contacts) (log : List Effect) : Prop :=
  ∀ pre onion row post, log = pre ++ .dbGetContact onion row :: post →
    row = contactsAfter table pre onion

/-- The check of `Untampered`, one effect after the other. -/
def lookupsFit : Contacts → List Effect → Bool
  | _, [] => true
  | table, .dbGetContact onion row :: log => row = table onion && lookupsFit table log
  | table, e :: log => lookupsFit (contactStep table e) log

/-- The effect writes a row for the address. -/
def Effect.writes (onion : Bytes) : Effect → Bool
  | .dbAddContact o _ _ => o = onion
  | _ => false

section Table

variable {table : Contacts} {onion : Bytes}

theorem contactsAfter_append
    (table : Contacts) (log es : List Effect) :
    contactsAfter table (log ++ es) = contactsAfter (contactsAfter table log) es := by
  exact List.foldl_append

theorem contactStep_other
    {e : Effect} (table : Contacts) (h : e.writes onion = false) :
    contactStep table e onion = table onion := by
  cases e with
  | dbAddContact o name key =>
      have hne : onion ≠ o := by
        intro heq
        simp [Effect.writes, heq] at h
      exact Function.update_of_ne hne _ _
  | _ => rfl

/-- What becomes of a row does not depend on the others. -/
theorem contactsAfter_congr
    {table' : Contacts} (es : List Effect) (h : table onion = table' onion) :
    contactsAfter table es onion = contactsAfter table' es onion := by
  induction es generalizing table table' with
  | nil =>
      exact h
  | cons e es ih =>
      refine ih ?_
      cases e with
      | dbAddContact o name key =>
          dsimp only [contactStep]
          by_cases ho : onion = o
          · rw [ho, Function.update_self, Function.update_self]
          · rw [Function.update_of_ne ho, Function.update_of_ne ho, h]
      | _ => exact h

/-- The row is the old one, or one that has been written. -/
theorem contactsAfter_cases
    (table : Contacts) (es : List Effect) (onion : Bytes) :
    contactsAfter table es onion = table onion ∨
      ∃ name key, .dbAddContact onion name key ∈ es ∧
        contactsAfter table es onion = some (name, key) := by
  induction es generalizing table with
  | nil =>
      exact Or.inl rfl
  | cons e es ih =>
      rcases ih (contactStep table e) with h | ⟨name, key, hmem, h⟩
      · cases hw : e.writes onion with
        | false =>
            exact Or.inl (h.trans (contactStep_other table hw))
        | true =>
            cases e with
            | dbAddContact o name key =>
                have heq : o = onion := by simpa [Effect.writes] using hw
                subst heq
                refine Or.inr ⟨name, key, List.mem_cons_self, h.trans ?_⟩
                exact Function.update_self _ _ _
            | _ => cases hw
      · exact Or.inr ⟨name, key, List.mem_cons_of_mem e hmem, h⟩

theorem untampered_cons
    {e : Effect} {log : List Effect} :
    Untampered table (e :: log) ↔
      (∀ onion row, e = .dbGetContact onion row → row = table onion) ∧
        Untampered (contactStep table e) log := by
  constructor
  · intro h
    refine ⟨fun onion row he => h [] onion row log (by rw [he]; rfl), ?_⟩
    intro pre onion row post hlog
    exact h (e :: pre) onion row post (by rw [hlog]; rfl)
  · rintro ⟨he, hlog⟩ pre onion row post hsplit
    cases pre with
    | nil =>
        rw [List.nil_append, List.cons.injEq] at hsplit
        exact he onion row hsplit.1
    | cons e' pre =>
        rw [List.cons_append, List.cons.injEq] at hsplit
        obtain ⟨rfl, hsplit⟩ := hsplit
        exact hlog pre onion row post hsplit

/-- Only the rows that are looked up count. -/
theorem Untampered.congr
    {table' : Contacts} {log : List Effect} (h : Untampered table log)
    (heq : ∀ onion row, .dbGetContact onion row ∈ log → table onion = table' onion) :
    Untampered table' log := by
  intro pre onion row post hlog
  rw [h pre onion row post hlog]
  exact contactsAfter_congr pre (heq onion row (by simp [hlog]))

theorem lookupsFit_iff
    (table : Contacts) (log : List Effect) :
    lookupsFit table log = true ↔ Untampered table log := by
  induction log generalizing table with
  | nil =>
      refine ⟨fun _ pre onion row post h => ?_, fun _ => rfl⟩
      exact absurd h (by simp)
  | cons e log ih =>
      rw [untampered_cons]
      cases e with
      | dbGetContact onion row =>
          simp only [lookupsFit, Bool.and_eq_true, decide_eq_true_eq, ih]
          constructor
          · rintro ⟨hrow, hlog⟩
            refine ⟨fun onion' row' he => ?_, hlog⟩
            cases he
            exact hrow
          · rintro ⟨hrow, hlog⟩
            exact ⟨hrow onion row rfl, hlog⟩
      | _ => simp [lookupsFit, ih]

instance (table : Contacts) (log : List Effect) : Decidable (Untampered table log) :=
  decidable_of_iff _ (lookupsFit_iff table log)

end Table

/-- The log has grown by effects, all of whose writes are those of the command. -/
def WritesOnly (cmd : Cmd) (log log' : List Effect) : Prop :=
  ∃ es, log' = log ++ es ∧
    ∀ onion name key, .dbAddContact onion name key ∈ es → cmd.Writes onion name key

theorem WritesOnly.refl (cmd : Cmd) (log : List Effect) : WritesOnly cmd log log :=
  ⟨[], (List.append_nil log).symm, fun _ _ _ h => absurd h List.not_mem_nil⟩

theorem WritesOnly.trans
    {cmd : Cmd} {l1 l2 l3 : List Effect} (h : WritesOnly cmd l1 l2) (h' : WritesOnly cmd l2 l3) :
    WritesOnly cmd l1 l3 := by
  obtain ⟨es, rfl, hes⟩ := h
  obtain ⟨es', rfl, hes'⟩ := h'
  refine ⟨es ++ es', List.append_assoc l1 es es', fun onion name key hmem => ?_⟩
  obtain hmem | hmem := List.mem_append.mp hmem
  · exact hes onion name key hmem
  · exact hes' onion name key hmem

section Deeds

variable {P : Primitives} {E : Env} {cmd : Cmd}

/-- The writes of a part of the loop are those of its command. -/
theorem AppDeeds.writes
    {s s' : AppState} (h : AppDeeds P E cmd s s') :
    WritesOnly cmd s.sh.log s'.sh.log := by
  induction h with
  | refl =>
      exact WritesOnly.refl cmd _
  | tail _ hstep ih =>
      obtain ⟨i, v, hv, rfl⟩ := hstep
      obtain ⟨es, hlog, hes⟩ := hv.emits
      exact ih.trans ⟨es, hlog, fun onion name key hmem => hes.writes hmem⟩

end Deeds

section Runs

variable (P : Primitives) (E : Env)

/--
The user has accepted `key` for the address, and the effects `mid` behind `pre` show it: the
row is written in a step that answers yes to the prompt of a slot with that address and key.
-/
def AcceptedIn (s : AppState) (evs : List AppEvent) (pre mid : List Effect) (onion : Bytes)
    (key : Key) : Prop :=
  ∃ a name b before ev after i,
    mid = a ++ .dbAddContact onion name key :: b ∧
    evs = before ++ ev :: after ∧
    cmdOf (appRun P E s before) ev = .accept i onion name key ∧
    (appRun P E s before).sh.log <+: pre ++ a ∧
    pre ++ a ++ [.dbAddContact onion name key] <+: (appRun P E s (before ++ [ev])).sh.log

/-- The key that is stored behind `pre ++ mid`, if `key` was stored behind `pre`. -/
def Held (s : AppState) (evs : List AppEvent) (pre mid : List Effect) (onion : Bytes)
    (key key' : Key) : Prop :=
  key' = key ∨ AcceptedIn P E s evs pre mid onion key'

/-- `/add` is not used for an address whose key is stored. -/
def AddsFresh (table : Contacts) (s : AppState) (ev : AppEvent) : Prop :=
  ∀ onion name, cmdOf s ev = .add onion name →
    ∀ name' key, contactsAfter table s.sh.log onion = some (name', key) → key = Block.zero 32

/-- What the steps of a run are about. -/
def cmdsOf : AppState → List AppEvent → List Cmd
  | _, [] => []
  | s, ev :: evs => cmdOf s ev :: cmdsOf (appStep P E s ev) evs

/-- No step of the run uses `/add` for an address whose key is stored. -/
def AddsFreshRun (table : Contacts) (s : AppState) (evs : List AppEvent) : Prop :=
  ∀ before ev after, evs = before ++ ev :: after → AddsFresh table (appRun P E s before) ev

end Runs

section Kept

variable {P : Primitives} {E : Env} {table : Contacts} {s : AppState} {evs : List AppEvent}
variable {onion : Bytes}

theorem mem_cmdsOf
    (before : List AppEvent) (ev : AppEvent) (after : List AppEvent) :
    cmdOf (appRun P E s before) ev ∈ cmdsOf P E s (before ++ ev :: after) := by
  induction before generalizing s with
  | nil =>
      exact List.mem_cons_self
  | cons e before ih =>
      exact List.mem_cons_of_mem _ ih

/-- A later step does not take an acceptance back. -/
theorem AcceptedIn.mono
    {pre mid : List Effect} {key : Key} (ev : AppEvent) (rest : List Effect)
    (h : AcceptedIn P E s evs pre mid onion key) :
    AcceptedIn P E s (evs ++ [ev]) pre (mid ++ rest) onion key := by
  obtain ⟨a, name, b, before, ev', after, i, hmid, hevs, hcmd, hstart, hstop⟩ := h
  refine ⟨a, name, b ++ rest, before, ev', after ++ [ev], i, ?_, ?_, hcmd, hstart, hstop⟩
  · simp [hmid]
  · simp [hevs]

/-- An acceptance behind `pre ++ mid` is one behind `pre`. -/
theorem AcceptedIn.behind
    {pre mid rest : List Effect} {key : Key} (h : AcceptedIn P E s evs (pre ++ mid) rest onion key) :
    AcceptedIn P E s evs pre (mid ++ rest) onion key := by
  obtain ⟨a, name, b, before, ev, after, i, hrest, hevs, hcmd, hstart, hstop⟩ := h
  refine ⟨mid ++ a, name, b, before, ev, after, i, ?_, hevs, hcmd, ?_, ?_⟩
  · rw [hrest, List.append_assoc]
  · rw [← List.append_assoc]
    exact hstart
  · rw [← List.append_assoc]
    exact hstop

/-- A write in the last step is the acceptance of the key, or it is for a contact to be added. -/
theorem written_cases
    {pre mid rest es : List Effect} {name : Bytes} {key : Key} {ev : AppEvent}
    (hok : (world s).Ok)
    (hlog : (appStep P E (appRun P E s evs) ev).sh.log = (appRun P E s evs).sh.log ++ es)
    (hpre : (appRun P E s evs).sh.log <+: pre)
    (hsplit : pre ++ (mid ++ rest) = (appRun P E s evs).sh.log ++ es)
    (hmem : .dbAddContact onion name key ∈ mid) :
    AcceptedIn P E s (evs ++ [ev]) pre mid onion key ∨
      (cmdOf (appRun P E s evs) ev = .add onion name ∧ key = Block.zero 32) := by
  have hrun : appRun P E s (evs ++ [ev]) = appStep P E (appRun P E s evs) ev := by
    rw [appRun_append]
    rfl
  obtain ⟨es', hlog', hes⟩ := (appStep_deeds (P := P) (E := E) ev (appRun_ok evs hok)).writes
  rw [hlog, List.append_cancel_left_eq] at hlog'
  subst hlog'
  obtain ⟨x, hx⟩ := hpre
  have hes_split : es = x ++ (mid ++ rest) := by
    rw [← hx, List.append_assoc, List.append_cancel_left_eq] at hsplit
    exact hsplit.symm
  have hmem_es : .dbAddContact onion name key ∈ es := by
    rw [hes_split]
    simp [hmem]
  rcases hes onion name key hmem_es with ⟨i, hcmd⟩ | hadd
  · left
    obtain ⟨a, b, hab⟩ := List.append_of_mem hmem
    refine ⟨a, name, b, evs, ev, [], i, hab, rfl, hcmd, ?_, ?_⟩
    · exact ⟨x ++ a, by rw [← List.append_assoc, hx]⟩
    · rw [hrun, hlog, ← hsplit, hab]
      exact ⟨b ++ rest, by simp⟩
  · exact Or.inr hadd

/-- One step: the effects `mid` are among those of the step. -/
theorem step_held
    {pre mid rest es : List Effect} {name : Bytes} {key : Key} {ev : AppEvent}
    (hok : (world s).Ok) (hfresh : AddsFresh table (appRun P E s evs) ev)
    (hlog : (appStep P E (appRun P E s evs) ev).sh.log = (appRun P E s evs).sh.log ++ es)
    (hpre : (appRun P E s evs).sh.log <+: pre)
    (hsplit : pre ++ (mid ++ rest) = (appRun P E s evs).sh.log ++ es)
    (hrow : contactsAfter table pre onion = some (name, key)) :
    ∃ name' key', contactsAfter table (pre ++ mid) onion = some (name', key') ∧
      Held P E s (evs ++ [ev]) pre mid onion key key' := by
  rw [contactsAfter_append]
  rcases contactsAfter_cases (contactsAfter table pre) mid onion with h | ⟨name', key', hmem, h⟩
  · exact ⟨name, key, by rw [h, hrow], Or.inl rfl⟩
  refine ⟨name', key', h, ?_⟩
  rcases written_cases hok hlog hpre hsplit hmem with hacc | ⟨hcmd, hzero⟩
  · exact Or.inr hacc
  -- the step adds the address: its key was not stored, neither before the step nor in it
  left
  rw [hzero]
  obtain ⟨x, rfl⟩ := hpre
  rw [contactsAfter_append] at hrow
  rcases contactsAfter_cases (contactsAfter table (appRun P E s evs).sh.log) x onion with
    hx | ⟨name'', key'', hmem', hx⟩
  · rw [hx] at hrow
    exact (hfresh onion name' hcmd name key hrow).symm
  · rw [hx, Option.some.injEq, Prod.mk.injEq] at hrow
    obtain ⟨rfl, rfl⟩ := hrow
    have hes : es = x ++ (mid ++ rest) := by
      rw [List.append_assoc, List.append_cancel_left_eq] at hsplit
      exact hsplit.symm
    obtain ⟨es', hlog', hes'⟩ := (appStep_deeds (P := P) (E := E) ev (appRun_ok evs hok)).writes
    rw [hlog, List.append_cancel_left_eq] at hlog'
    subst hlog'
    have hmem_es : .dbAddContact onion name'' key'' ∈ es := by
      rw [hes]
      exact List.mem_append_left _ hmem'
    rcases hes' onion name'' key'' hmem_es with ⟨i, hacc⟩ | ⟨-, hadd⟩
    · rw [hcmd] at hacc
      cases hacc
    · exact hadd.symm

/-- The key of an address whose key was stored is the old one, or one that was accepted. -/
theorem run_held
    (hok : (world s).Ok) (hfresh : AddsFreshRun P E table s evs)
    {pre mid rest : List Effect} {name : Bytes} {key : Key}
    (hbase : s.sh.log <+: pre)
    (hlog : (appRun P E s evs).sh.log = pre ++ (mid ++ rest))
    (hrow : contactsAfter table pre onion = some (name, key)) :
    ∃ name' key', contactsAfter table (pre ++ mid) onion = some (name', key') ∧
      Held P E s evs pre mid onion key key' := by
  induction evs using List.reverseRecOn generalizing pre mid rest name key with
  | nil =>
      have hnil : mid = [] := by
        obtain ⟨x, rfl⟩ := hbase
        have hlen := congrArg List.length hlog
        simp only [appRun_nil, List.length_append] at hlen
        exact List.length_eq_zero_iff.mp (by omega)
      subst hnil
      exact ⟨name, key, by rw [List.append_nil, hrow], Or.inl rfl⟩
  | append_singleton evs ev ih =>
      have hrun : appRun P E s (evs ++ [ev]) = appStep P E (appRun P E s evs) ev := by
        rw [appRun_append]
        rfl
      have hfresh' : AddsFreshRun P E table s evs := by
        intro before ev' after hevs
        exact hfresh before ev' (after ++ [ev]) (by rw [hevs, List.append_assoc, List.cons_append])
      have hlast : AddsFresh table (appRun P E s evs) ev := hfresh evs ev [] rfl
      obtain ⟨es, hes, -⟩ := (appStep_deeds (P := P) (E := E) ev (appRun_ok evs hok)).writes
      rw [hrun, hes] at hlog
      rcases List.append_eq_append_iff.mp hlog with ⟨x, hpre, -⟩ | ⟨x, hL, hx⟩
      · -- the step starts before the end of `pre`
        exact step_held hok hlast hes ⟨x, hpre.symm⟩ hlog.symm hrow
      rcases List.append_eq_append_iff.mp hx with ⟨y, hy, -⟩ | ⟨y, hy, hrest⟩
      · -- the step starts behind `mid`
        obtain ⟨name', key', hrow', hheld⟩ := ih hfresh' hbase (by rw [hL, hy]) hrow
        refine ⟨name', key', hrow', hheld.imp id (fun h => ?_)⟩
        have := h.mono ev []
        rwa [List.append_nil] at this
      · -- the step starts inside `mid`
        obtain ⟨name1, key1, hrow1, hheld1⟩ := ih hfresh' hbase
          (by rw [hL, List.append_nil]) hrow
        obtain ⟨name2, key2, hrow2, hheld2⟩ := step_held hok hlast hes
          ⟨[], by rw [hL, List.append_nil]⟩ (by rw [hL, hrest]) hrow1
        refine ⟨name2, key2, by rw [hy, ← List.append_assoc]; exact hrow2, ?_⟩
        rw [hy]
        rcases hheld2 with rfl | hacc
        · exact hheld1.imp id (fun h => h.mono ev _)
        · exact Or.inr hacc.behind

end Kept

/-- The effects behind a claim for `onion` with the key `key`: one of the three outcomes of the
contact decision, with the row it was taken from. -/
inductive ClaimSettled (i : Slot) (onion : Bytes) (key : Key) : List Effect → Prop
  | known (name : Bytes) (post : List Effect) :
      ClaimSettled i onion key (.dbGetContact onion (some (name, key)) :: post)
  | changed (name : Bytes) (stored : Key) (post : List Effect) :
      ClaimSettled i onion key
        (.dbGetContact onion (some (name, stored)) :: .keyChanged i onion :: post)
  | fresh (row : Option (Bytes × Key)) (post : List Effect)
      (hrow : ∀ name stored, row = some (name, stored) → stored = Block.zero 32) :
      ClaimSettled i onion key (.dbGetContact onion row :: .newPeer i onion :: post)

/-- Every claim has been settled. -/
def ClaimsSettled (log : List Effect) : Prop :=
  ∀ pre i onion key post, log = pre ++ .claim i onion key :: post → ClaimSettled i onion key post

section ClaimSettled

variable {P : Primitives} {E : Env}

theorem ClaimSettled.append
    {i : Slot} {onion : Bytes} {key : Key} {post : List Effect} (h : ClaimSettled i onion key post)
    (es : List Effect) :
    ClaimSettled i onion key (post ++ es) := by
  cases h with
  | known name post => exact .known name (post ++ es)
  | changed name stored post => exact .changed name stored (post ++ es)
  | fresh row post hrow => exact .fresh row (post ++ es) hrow

theorem ClaimsSettled.append
    {log es : List Effect} (h : ClaimsSettled log) (h' : ClaimsSettled es) :
    ClaimsSettled (log ++ es) := by
  intro pre i onion key post hsplit
  rcases List.append_eq_append_iff.mp hsplit with ⟨x, -, hes⟩ | ⟨x, hlog, hx⟩
  · exact h' x i onion key post hes
  · cases x with
    | nil =>
        exact h' [] i onion key post hx.symm
    | cons e x =>
        rw [List.cons_append, List.cons.injEq] at hx
        obtain ⟨rfl, rfl⟩ := hx
        exact (h pre i onion key x hlog).append es

/-- Effects without a claim. -/
theorem ClaimsSettled.of_none
    {es : List Effect} (h : ∀ i onion key, .claim i onion key ∉ es) :
    ClaimsSettled es := by
  intro pre i onion key post hsplit
  exact absurd (by rw [hsplit]; simp) (h i onion key)

/-- A claim at the head, and no other. -/
theorem ClaimsSettled.of_head
    {i : Slot} {onion : Bytes} {key : Key} {post : List Effect} (h : ClaimSettled i onion key post)
    (hpost : ∀ j o k, .claim j o k ∉ post) :
    ClaimsSettled (.claim i onion key :: post) := by
  intro pre j o k post' hsplit
  cases pre with
  | nil =>
      rw [List.nil_append, List.cons.injEq] at hsplit
      obtain ⟨hclaim, rfl⟩ := hsplit
      cases hclaim
      exact h
  | cons e pre =>
      rw [List.cons_append, List.cons.injEq] at hsplit
      exact absurd (by rw [hsplit.2]; simp) (hpost j o k)

/-- Outside ghost mode every claim is settled at once. -/
theorem Emits.settled
    {cmd : Cmd} {i : Slot} {v : View} {es : List Effect} (h : Emits cmd i v es)
    (hghost : v.sh.ghostMode = false) :
    ClaimsSettled es := by
  cases h with
  | minor h =>
      refine .of_none (fun j o k hmem => ?_)
      cases h _ hmem
  | torn =>
      refine .of_none (fun j o k hmem => ?_)
      obtain hmem | hmem := List.mem_append.mp hmem
      · cases mem_unlinkPartial hmem
      · cases List.mem_singleton.mp hmem
  | misheard =>
      refine .of_none (fun j o k hmem => ?_)
      obtain hmem | hmem := List.mem_cons.mp hmem
      · cases hmem
      obtain hmem | hmem := List.mem_append.mp hmem
      · cases mem_unlinkPartial hmem
      · cases List.mem_singleton.mp hmem
  | recognised onion name key => exact .of_head (.known name []) (by simp)
  | warned onion name key stored => exact .of_head (.changed name stored []) (by simp)
  | greeted onion key row hrow =>
      rw [if_neg (by rw [hghost]; decide)]
      exact .of_head (.fresh row [] hrow) (by simp)
  | file h =>
      refine .of_none (fun j o k hmem => ?_)
      cases h _ hmem
  | _ => exact .of_none (by simp)

theorem Deed.settled
    {cmd : Cmd} {i : Slot} {v v' : View} (h : Deed P E cmd i v v')
    (hghost : v.sh.ghostMode = false) (hset : ClaimsSettled v.sh.log) :
    ClaimsSettled v'.sh.log := by
  obtain ⟨es, hlog, hes⟩ := h.emits
  rw [hlog]
  exact hset.append (hes.settled hghost)

theorem appRun_settled
    {c : Config} (hghost : c.ghostMode = false) (evs : List AppEvent) :
    ClaimsSettled (appRun P E (initialState c) evs).sh.log := by
  have h := appRun_keep (P := P) (E := E) (s := initialState c)
    (I := fun s => s.sh.ghostMode = false ∧ ClaimsSettled s.sh.log)
    (fun cmd i t v hinv hdeed => ⟨hdeed.ghost.trans hinv.1, hdeed.settled hinv.1 hinv.2⟩)
    evs (initialState_ok c) ⟨hghost, .of_none (fun _ _ _ => List.not_mem_nil)⟩
  exact h.2

end ClaimSettled

section Pinned

variable (P : Primitives) (E : Env)

/-- A stored key is not lost: later lookups find it, or a key that the user has accepted since,
and a claim with another key than the one that is stored leads to the warning. -/
structure PinsKept (c : Config) (evs : List AppEvent) : Prop where
  lookup : ∀ pre onion name key mid row post,
    (appRun P E (initialState c) evs).sh.log =
      pre ++ .dbGetContact onion (some (name, key)) :: mid ++ .dbGetContact onion row :: post →
    key ≠ Block.zero 32 →
    ∃ name' key', row = some (name', key') ∧
      Held P E (initialState c) evs pre (.dbGetContact onion (some (name, key)) :: mid) onion
        key key'
  claim : ∀ pre onion name key mid i claimed post,
    (appRun P E (initialState c) evs).sh.log =
      pre ++ .dbGetContact onion (some (name, key)) :: mid ++ .claim i onion claimed :: post →
    key ≠ Block.zero 32 →
    ∃ key', Held P E (initialState c) evs pre (.dbGetContact onion (some (name, key)) :: mid) onion
        key key' ∧
      (key' ≠ Block.zero 32 → claimed ≠ key' → ∃ name' post',
        post = .dbGetContact onion (some (name', key')) :: .keyChanged i onion :: post')

end Pinned

/--
Pinned keys are kept.  In every run outside ghost mode, with a database that nobody else
writes to, in which `/add` is never used for an address whose key is stored, a key that a
lookup has found stays until the user accepts another key for the address; a connection that
claims the address with another key reaches the warning, and never the prompt for a new peer.
-/
theorem pinned_keys_kept
    (P : Primitives) (E : Env) (c : Config) (table : Contacts) (evs : List AppEvent)
    (hghost : c.ghostMode = false)
    (hdb : Untampered table (appRun P E (initialState c) evs).sh.log)
    (hfresh : AddsFreshRun P E table (initialState c) evs) :
    PinsKept P E c evs := by
  have hbase : ∀ pre : List Effect, (initialState c).sh.log <+: pre :=
    fun pre => List.nil_prefix
  -- the table behind the first lookup and the effects that follow it
  have hheld : ∀ pre onion name key mid rest,
      (appRun P E (initialState c) evs).sh.log =
        pre ++ (.dbGetContact onion (some (name, key)) :: mid ++ rest) →
      ∃ name' key',
        contactsAfter table (pre ++ .dbGetContact onion (some (name, key)) :: mid) onion =
          some (name', key') ∧
        Held P E (initialState c) evs pre (.dbGetContact onion (some (name, key)) :: mid) onion
          key key' := by
    intro pre onion name key mid rest hlog
    exact run_held (initialState_ok c) hfresh (hbase pre) hlog
      (hdb pre onion _ (mid ++ rest) hlog).symm
  constructor
  · intro pre onion name key mid row post hlog _
    obtain ⟨name', key', hrow, hkey⟩ := hheld pre onion name key mid _
      (by rw [hlog, List.append_assoc])
    exact ⟨name', key', (hdb _ onion row post hlog).trans hrow, hkey⟩
  · intro pre onion name key mid i claimed post hlog _
    obtain ⟨name', key', hrow, hkey⟩ := hheld pre onion name key mid _
      (by rw [hlog, List.append_assoc])
    refine ⟨key', hkey, fun hzero hother => ?_⟩
    have hset := appRun_settled hghost evs _ i onion claimed post hlog
    have hfound : ∀ row post', post = .dbGetContact onion row :: post' →
        row = some (name', key') := by
      intro row post' hpost
      rw [← hrow]
      have hrow' := hdb (pre ++ .dbGetContact onion (some (name, key)) :: mid ++
        [.claim i onion claimed]) onion row post' (by rw [hlog, hpost]; simp)
      rw [hrow', contactsAfter_append]
      rfl
    cases hset with
    | known name'' post' =>
        have h := hfound _ _ rfl
        simp only [Option.some.injEq, Prod.mk.injEq] at h
        exact absurd h.2 hother
    | changed name'' stored post' =>
        have h := hfound _ _ rfl
        simp only [Option.some.injEq, Prod.mk.injEq] at h
        obtain ⟨rfl, rfl⟩ := h
        exact ⟨name'', post', rfl⟩
    | fresh row post' hrow' =>
        exact absurd (hrow' name' key' (hfound _ _ rfl)) hzero

/-- The contact "b" is stored with the key 9. -/
def pinnedTable : Contacts := fun onion =>
  if onion = sampleOnion 0x61 then some ([0x62], (samplePair 9).pub) else none

/-- A caller with the key 7 claims the address of "b". -/
def pinnedEnv : Env :=
  { sampleEnv with
    accept := fun _ => some 5
    recv := fun t =>
      if t = 10 then .data (sampleFrame 0x61 7 false)
      else if t = 20 then .data (sampleFrame 0x61 7 true)
      else .data []
    dbGetContact := fun _ _ => .ok ([0x62], (samplePair 9).pub) }

/-- A line of the user with the address of "b". -/
def pinnedLine (cmd rest : Bytes) : AppEvent :=
  .line (cmd ++ sampleOnion 0x61 ++ [0x20] ++ rest)

/-- A message is queued for "b", and then the caller comes in. -/
def pinnedEvents : List AppEvent :=
  [pinnedLine cmdMsg [0x68], .accept, .peer 5 false true, .peer 5 false true]

/-- The caller with the other key reaches the warning. -/
theorem pinned_keys_warned :
    sampleConfig.ghostMode = false ∧
      .keyChanged 0 (sampleOnion 0x61) ∈
        (appRun samplePrimitives pinnedEnv (initialState sampleConfig) pinnedEvents).sh.log ∧
      PinsKept samplePrimitives pinnedEnv sampleConfig pinnedEvents := by
  have hcmds : cmdsOf samplePrimitives pinnedEnv (initialState sampleConfig) pinnedEvents =
      [.other, .inbound, .read, .read] := by
    decide +kernel
  refine ⟨rfl, by decide +kernel, pinned_keys_kept samplePrimitives pinnedEnv sampleConfig
    pinnedTable pinnedEvents rfl (by decide +kernel) ?_⟩
  intro before ev after hevs onion name hcmd
  have hmem := mem_cmdsOf (P := samplePrimitives) (E := pinnedEnv) (s := initialState sampleConfig)
    before ev after
  rw [← hevs, hcmds, hcmd] at hmem
  simp at hmem

/-- The same, but the second lookup comes after an `/add`. -/
def addedEnv : Env :=
  { pinnedEnv with
    recv := fun t =>
      if t = 11 then .data (sampleFrame 0x61 7 false)
      else if t = 21 then .data (sampleFrame 0x61 7 true)
      else .data []
    dbGetContact := fun t _ =>
      .ok ([0x62], if t = 0 then (samplePair 9).pub else Block.zero 32) }

/-- A message is queued for "b", "b" is added once more, and then the caller comes in. -/
def addedEvents : List AppEvent :=
  [pinnedLine cmdMsg [0x68], pinnedLine cmdAdd [0x62], .accept, .peer 5 false true,
    .peer 5 false true]

/-- The state when the caller waits for the answer. -/
def addedState : AppState :=
  appRun samplePrimitives addedEnv (initialState sampleConfig) addedEvents

/--
`/add` loses the stored key.  The first lookup finds the key 9; then "b" is added once more,
nobody accepts anything, and the lookup for the caller finds the zero key, so that the caller
with the key 7 is taken for a new peer.
-/
theorem pinned_keys_lost :
    sampleConfig.ghostMode = false ∧ Untampered pinnedTable addedState.sh.log ∧
      addedState.sh.log.take 3 =
        [.dbGetContact (sampleOnion 0x61) (some ([0x62], (samplePair 9).pub)),
          .dbQueueMessage (sampleOnion 0x61) [0x68],
          .dbAddContact (sampleOnion 0x61) [0x62] (Block.zero 32)] ∧
      (addedState.sh.log.drop 6).take 3 =
        [.claim 0 (sampleOnion 0x61) (samplePair 7).pub,
          .dbGetContact (sampleOnion 0x61) (some ([0x62], Block.zero 32)),
          .newPeer 0 (sampleOnion 0x61)] ∧
      ¬ PinsKept samplePrimitives addedEnv sampleConfig addedEvents := by
  refine ⟨rfl, by decide +kernel, by decide +kernel, by decide +kernel, fun h => ?_⟩
  have hsplit : (appRun samplePrimitives addedEnv (initialState sampleConfig) addedEvents).sh.log =
      [] ++ .dbGetContact (sampleOnion 0x61) (some ([0x62], (samplePair 9).pub)) ::
        (addedState.sh.log.drop 1).take 6 ++
          .dbGetContact (sampleOnion 0x61) (some ([0x62], Block.zero 32)) ::
            addedState.sh.log.drop 8 := by
    decide +kernel
  obtain ⟨name, key, hrow, hheld⟩ := h.lookup [] (sampleOnion 0x61) [0x62] (samplePair 9).pub
    ((addedState.sh.log.drop 1).take 6) (some ([0x62], Block.zero 32)) (addedState.sh.log.drop 8)
    hsplit (by decide +kernel)
  cases hrow
  have hcmds : cmdsOf samplePrimitives addedEnv (initialState sampleConfig) addedEvents =
      [.other, .add (sampleOnion 0x61) [0x62], .inbound, .read, .read] := by
    decide +kernel
  rcases hheld with hkey | ⟨_, _, _, before, ev, after, i, -, hevs, hcmd, -, -⟩
  · exact absurd hkey (by decide +kernel)
  · have hmem := mem_cmdsOf (P := samplePrimitives) (E := addedEnv)
      (s := initialState sampleConfig) before ev after
    rw [← hevs, hcmds, hcmd] at hmem
    simp at hmem

end App
end Noxtor
