import Mathlib.Data.List.Basic
import Mathlib.Tactic

/-!
# Tables with an automatic key

A table is a list of rows with strictly increasing keys.  A new row gets a key above every key
that has ever been given away, as with `INTEGER PRIMARY KEY AUTOINCREMENT`, so the order of the
keys is the order of the insertions.

`select` is a query in ascending order, and `deleteNewest` deletes the last rows that a query
returns.
-/

universe u

/-- Rows with ascending keys, and the last key that was given away. -/
structure Table (α : Type u) where
  rows : List (Nat × α)
  seq : Nat
  sorted : rows.Pairwise fun a b => a.1 < b.1
  bounded : ∀ r ∈ rows, r.1 ≤ seq

namespace Table

variable {α : Type u}

/-- No row yet. -/
def empty : Table α :=
  { rows := [], seq := 0, sorted := List.Pairwise.nil, bounded := by simp }

/-- `INSERT`. -/
def insert (a : α) (t : Table α) : Table α where
  rows := t.rows ++ [(t.seq + 1, a)]
  seq := t.seq + 1
  sorted := by
    rw [List.pairwise_append]
    refine ⟨t.sorted, List.pairwise_singleton _ _, fun r hr s hs => ?_⟩
    rw [List.mem_singleton.mp hs]
    exact Nat.lt_succ_of_le (t.bounded r hr)
  bounded := by
    intro r hr
    obtain hr | hr := List.mem_append.mp hr
    · exact Nat.le_succ_of_le (t.bounded r hr)
    · rw [List.mem_singleton.mp hr]

/-- `DELETE` of the rows whose key is bad. -/
def deleteWhere (bad : Nat → Bool) (t : Table α) : Table α where
  rows := t.rows.filter fun r => !bad r.1
  seq := t.seq
  sorted := t.sorted.filter _
  bounded := fun r hr => t.bounded r (List.mem_of_mem_filter hr)

/-- `DELETE` of one row. -/
def delete (id : Nat) (t : Table α) : Table α :=
  t.deleteWhere (· == id)

/-- `DELETE` of the rows that a condition picks. -/
def deleteRows (p : α → Bool) (t : Table α) : Table α where
  rows := t.rows.filter fun r => !p r.2
  seq := t.seq
  sorted := t.sorted.filter _
  bounded := fun r hr => t.bounded r (List.mem_of_mem_filter hr)

/-- `SELECT … ORDER BY id ASC`. -/
def select (p : α → Bool) (t : Table α) : List (Nat × α) :=
  t.rows.filter fun r => p r.2

/-- `DELETE` of the last `n` rows of a query. -/
def deleteNewest (p : α → Bool) (n : Nat) (t : Table α) : Table α :=
  t.deleteWhere fun id => (((t.select p).reverse.take n).map Prod.fst).contains id

/-- Several insertions, one after the other. -/
def insertAll (as : List α) (t : Table α) : Table α :=
  as.foldl (fun t a => t.insert a) t

@[simp] theorem rows_empty : (empty : Table α).rows = [] := rfl

@[simp] theorem rows_insert (a : α) (t : Table α) :
    (t.insert a).rows = t.rows ++ [(t.seq + 1, a)] := rfl

@[simp] theorem select_empty (p : α → Bool) : (empty : Table α).select p = [] := rfl

theorem mem_select
    {p : α → Bool} {t : Table α} {r : Nat × α} :
    r ∈ t.select p ↔ r ∈ t.rows ∧ p r.2 = true := by
  simp [select]

theorem select_insert_of_true
    {p : α → Bool} {a : α} (t : Table α) (h : p a = true) :
    (t.insert a).select p = t.select p ++ [(t.seq + 1, a)] := by
  simp [select, h]

theorem select_insert_of_false
    {p : α → Bool} {a : α} (t : Table α) (h : p a = false) :
    (t.insert a).select p = t.select p := by
  simp [select, h]

theorem select_sorted
    (p : α → Bool) (t : Table α) :
    (t.select p).Pairwise fun a b => a.1 < b.1 :=
  t.sorted.filter _

/-- Nothing is left of what has been deleted. -/
theorem select_deleteRows_self
    (p : α → Bool) (t : Table α) :
    (t.deleteRows p).select p = [] := by
  simp only [select, deleteRows, List.filter_filter]
  apply List.filter_eq_nil_iff.mpr
  intro r _
  cases p r.2 <;> simp

/-- A query that returns none of the deleted rows is not changed. -/
theorem select_deleteRows_of_disjoint
    {p q : α → Bool} (t : Table α) (h : ∀ a, q a = true → p a = false) :
    (t.deleteRows p).select q = t.select q := by
  simp only [select, deleteRows, List.filter_filter]
  apply List.filter_congr
  intro r _
  cases hq : q r.2 with
  | false =>
      rfl
  | true =>
      rw [h r.2 hq]
      rfl

/-- A key belongs to one row only. -/
theorem eq_of_key
    {t : Table α} {r s : Nat × α} (hr : r ∈ t.rows) (hs : s ∈ t.rows) (h : r.1 = s.1) :
    r = s := by
  have hsorted := t.sorted
  generalize t.rows = rows at hr hs hsorted
  induction rows with
  | nil =>
      cases hr
  | cons x xs ih =>
      obtain ⟨hx, hxs⟩ := List.pairwise_cons.mp hsorted
      obtain hrx | hr' := List.mem_cons.mp hr
      · obtain hsx | hs' := List.mem_cons.mp hs
        · rw [hrx, hsx]
        · have hlt := hx s hs'
          rw [← hrx] at hlt
          omega
      · obtain hsx | hs' := List.mem_cons.mp hs
        · have hlt := hx r hr'
          rw [← hsx] at hlt
          omega
        · exact ih hr' hs' hxs

theorem select_delete
    (p : α → Bool) (id : Nat) (t : Table α) :
    (t.delete id).select p = (t.select p).filter fun r => !(r.1 == id) := by
  simp only [select, delete, deleteWhere, List.filter_filter]
  exact List.filter_congr fun r _ => Bool.and_comm _ _

/-- The oldest row of a query is deleted. -/
theorem select_delete_head
    {p : α → Bool} {t : Table α} {r : Nat × α} {rs : List (Nat × α)}
    (h : t.select p = r :: rs) :
    (t.delete r.1).select p = rs := by
  have hsorted : (t.select p).Pairwise fun a b => a.1 < b.1 := t.sorted.filter _
  rw [h] at hsorted
  rw [select_delete, h, List.filter_cons]
  simp only [beq_self_eq_true, Bool.not_true, Bool.false_eq_true, if_false]
  apply List.filter_eq_self.mpr
  intro s hs
  have hlt := (List.pairwise_cons.mp hsorted).1 s hs
  have hne : s.1 ≠ r.1 := by omega
  simpa using hne

/-- A query that does not return a row is not changed by its deletion. -/
theorem select_delete_of_false
    {p : α → Bool} {t : Table α} {r : Nat × α} (hr : r ∈ t.rows) (h : p r.2 = false) :
    (t.delete r.1).select p = t.select p := by
  rw [select_delete]
  apply List.filter_eq_self.mpr
  intro s hs
  obtain ⟨hs, hp⟩ := mem_select.mp hs
  have hne : s.1 ≠ r.1 := by
    intro hkey
    rw [eq_of_key hs hr hkey, h] at hp
    cases hp
  simpa using hne

theorem insertAll_cons (a : α) (as : List α) (t : Table α) :
    t.insertAll (a :: as) = (t.insert a).insertAll as := rfl

theorem insertAll_append
    (as bs : List α) (t : Table α) :
    t.insertAll (as ++ bs) = (t.insertAll as).insertAll bs :=
  List.foldl_append

/-- The new rows stand behind the old ones, with new keys. -/
theorem rows_insertAll
    (as : List α) (t : Table α) :
    ∃ new, (t.insertAll as).rows = t.rows ++ new ∧ new.map Prod.snd = as ∧
      ∀ r ∈ new, t.seq < r.1 := by
  induction as generalizing t with
  | nil =>
      exact ⟨[], by simp [insertAll], rfl, by simp⟩
  | cons a as ih =>
      obtain ⟨new, hrows, hnew, hlt⟩ := ih (t.insert a)
      refine ⟨(t.seq + 1, a) :: new, ?_, ?_, ?_⟩
      · rw [insertAll_cons, hrows]
        simp
      · rw [List.map_cons, hnew]
      · intro r hr
        obtain rfl | hr := List.mem_cons.mp hr
        · exact Nat.lt_succ_self _
        · exact Nat.lt_of_succ_lt (hlt r hr)

/-- The newest rows of a query are those that were inserted last, if the query returns them. -/
theorem rows_deleteNewest_insertAll
    {p : α → Bool} {as : List α} (t : Table α) (h : ∀ a ∈ as, p a = true) :
    ((t.insertAll as).deleteNewest p as.length).rows = t.rows := by
  obtain ⟨new, hrows, hnew, hlt⟩ := rows_insertAll as t
  have hsel : (t.insertAll as).select p = t.select p ++ new := by
    have hall : new.filter (fun r => p r.2) = new := by
      apply List.filter_eq_self.mpr
      intro r hr
      exact h r.2 (by rw [← hnew]; exact List.mem_map_of_mem hr)
    simp only [select, hrows, List.filter_append, hall]
  have hlen : as.length = new.reverse.length := by
    rw [List.length_reverse, ← hnew, List.length_map]
  have htake : ((t.insertAll as).select p).reverse.take as.length = new.reverse := by
    rw [hsel, List.reverse_append, hlen, List.take_left]
  simp only [deleteNewest, deleteWhere, htake, hrows, List.filter_append]
  have hold : t.rows.filter (fun r => !(new.reverse.map Prod.fst).contains r.1) = t.rows := by
    apply List.filter_eq_self.mpr
    intro r hr
    simp only [Bool.not_eq_true', List.contains_eq_mem, decide_eq_false_iff_not]
    intro hmem
    obtain ⟨s, hs, hkey⟩ := List.mem_map.mp hmem
    have hs := hlt s (List.mem_reverse.mp hs)
    have hr := t.bounded r hr
    omega
  have hdel : new.filter (fun r => !(new.reverse.map Prod.fst).contains r.1) = [] := by
    apply List.filter_eq_nil_iff.mpr
    intro r hr
    have hmem : r.1 ∈ new.reverse.map Prod.fst :=
      List.mem_map_of_mem (List.mem_reverse.mpr hr)
    simp only [List.contains_eq_mem, hmem, decide_true, Bool.not_true, Bool.false_eq_true,
      not_false_eq_true]
  rw [hold, hdel, List.append_nil]

end Table
