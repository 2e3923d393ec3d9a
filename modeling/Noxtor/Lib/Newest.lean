import Mathlib.Data.List.Sort
import Mathlib.Tactic

/-!
# The newest rows of a query

`ORDER BY … DESC LIMIT n` inside of `ORDER BY … ASC` returns the last `n` rows of the ascending
order.  If a row is ordered by a key of its own and then by an automatic id, and the ids are
ascending already, the order is the stable one by the key.
-/

universe u v w

namespace Newest

variable {α : Type u} {β : Type v}

/-- The inner query takes the first `n` rows in descending order, the outer one turns them. -/
def newest (r : α → α → Prop) [DecidableRel r] (n : Nat) (l : List α) : List α :=
  ((l.insertionSort fun a b => r b a).take n).insertionSort r

section Order

variable {r : α → α → Prop} [DecidableRel r] [Std.Total r] [IsTrans α r]

theorem pairwise_descending
    (l : List α) :
    (l.insertionSort fun a b => r b a).Pairwise fun a b => r b a := by
  have htotal : Std.Total fun a b => r b a := ⟨fun a b => total_of r b a⟩
  have htrans : IsTrans α fun a b => r b a := ⟨fun _ _ _ h h' => Trans.trans h' h⟩
  exact List.pairwise_insertionSort _ l

/-- The descending order is the ascending one, turned round. -/
theorem descending_eq
    {l : List α} (h : ∀ a ∈ l, ∀ b ∈ l, r a b → r b a → a = b) :
    (l.insertionSort fun a b => r b a) = (l.insertionSort r).reverse := by
  have hperm : List.Perm (l.insertionSort fun a b => r b a) (l.insertionSort r).reverse :=
    ((List.perm_insertionSort _ l).trans (List.perm_insertionSort r l).symm).trans
      (List.reverse_perm _).symm
  refine hperm.eq_of_pairwise (fun a b ha hb hab hba => ?_) (pairwise_descending l)
    (List.pairwise_reverse.mpr (List.pairwise_insertionSort r l))
  have hal : a ∈ l := (List.mem_insertionSort _).mp ha
  have hbl : b ∈ l := (List.mem_insertionSort r).mp (List.mem_reverse.mp hb)
  exact h a hal b hbl hba hab

/-- The newest rows are the last ones of the ascending order. -/
theorem newest_eq
    {l : List α} (n : Nat) (h : ∀ a ∈ l, ∀ b ∈ l, r a b → r b a → a = b) :
    newest r n l = (l.insertionSort r).drop (l.length - n) := by
  have htake : (l.insertionSort fun a b => r b a).take n =
      ((l.insertionSort r).drop (l.length - n)).reverse := by
    rw [descending_eq h, List.take_reverse, List.length_insertionSort]
  unfold newest
  rw [htake]
  have hsorted : ((l.insertionSort r).drop (l.length - n)).Pairwise r :=
    (List.pairwise_insertionSort r l).drop
  have hperm : List.Perm ((((l.insertionSort r).drop (l.length - n)).reverse).insertionSort r)
      ((l.insertionSort r).drop (l.length - n)) :=
    (List.perm_insertionSort r _).trans (List.reverse_perm _)
  have hmem : ∀ a ∈ (l.insertionSort r).drop (l.length - n), a ∈ l := fun a ha =>
    (List.mem_insertionSort r).mp (List.mem_of_mem_drop ha)
  refine hperm.eq_of_pairwise (fun a b ha hb hab hba => ?_) (List.pairwise_insertionSort r _)
    hsorted
  exact h a (hmem a (hperm.mem_iff.mp ha)) b (hmem b hb) hab hba

end Order

section Ids

variable {κ : Type w} [LinearOrder κ] {key : α → κ}

/-- `ORDER BY key, id`. -/
def byKey (key : α → κ) (a b : Nat × α) : Prop :=
  key a.2 < key b.2 ∨ key a.2 = key b.2 ∧ a.1 ≤ b.1

instance (key : α → κ) : DecidableRel (byKey key) := fun _ _ =>
  inferInstanceAs (Decidable (_ ∨ _))

instance (key : α → κ) : Std.Total (byKey key) where
  total a b := by
    unfold byKey
    rcases lt_trichotomy (key a.2) (key b.2) with h | h | h
    · exact Or.inl (Or.inl h)
    · rcases Nat.le_total a.1 b.1 with hid | hid
      · exact Or.inl (Or.inr ⟨h, hid⟩)
      · exact Or.inr (Or.inr ⟨h.symm, hid⟩)
    · exact Or.inr (Or.inl h)

instance (key : α → κ) : IsTrans (Nat × α) (byKey key) where
  trans a b c := by
    unfold byKey
    rintro (hab | ⟨hab, hid⟩) (hbc | ⟨hbc, hid'⟩)
    · exact Or.inl (hab.trans hbc)
    · exact Or.inl (hbc ▸ hab)
    · exact Or.inl (hab ▸ hbc)
    · exact Or.inr ⟨hab.trans hbc, hid.trans hid'⟩

/-- A row in front of rows with higher ids comes behind those with a smaller key only. -/
theorem byKey_iff
    {a b : Nat × α} (h : a.1 < b.1) :
    byKey key a b ↔ key a.2 ≤ key b.2 := by
  unfold byKey
  constructor
  · rintro (hlt | ⟨heq, -⟩)
    · exact hlt.le
    · exact heq.le
  · intro hle
    rcases hle.lt_or_eq with hlt | heq
    · exact Or.inl hlt
    · exact Or.inr ⟨heq, h.le⟩

/-- Rows with ascending ids are equal where their ids are. -/
theorem eq_of_id
    {l : List (Nat × α)} (hids : l.Pairwise fun a b => a.1 < b.1) :
    ∀ a ∈ l, ∀ b ∈ l, a.1 = b.1 → a = b := by
  intro a ha b hb hid
  have hnodup : (l.map Prod.fst).Nodup := List.pairwise_map.mpr (hids.imp fun h => h.ne)
  exact List.inj_on_of_nodup_map hnodup ha hb hid

theorem byKey_antisymm
    {l : List (Nat × α)} (hids : l.Pairwise fun a b => a.1 < b.1) :
    ∀ a ∈ l, ∀ b ∈ l, byKey key a b → byKey key b a → a = b := by
  intro a ha b hb hab hba
  refine eq_of_id hids a ha b hb ?_
  rcases hab with hlt | ⟨heq, hle⟩
  · rcases hba with hlt' | ⟨heq, -⟩
    · exact absurd hlt' hlt.asymm
    · exact absurd heq hlt.ne'
  · rcases hba with hlt' | ⟨-, hle'⟩
    · exact absurd heq hlt'.ne'
    · omega

variable {R : Nat × α → β → Prop} {stamp : β → κ}

theorem forall₂_orderedInsert
    (hkey : ∀ a b, R a b → key a.2 = stamp b) {a : Nat × α} {b : β} (hab : R a b)
    {l : List (Nat × α)} {m : List β} (h : List.Forall₂ R l m) (hid : ∀ x ∈ l, a.1 < x.1) :
    List.Forall₂ R (l.orderedInsert (byKey key) a)
      (m.orderedInsert (fun x y => stamp x ≤ stamp y) b) := by
  induction h with
  | nil =>
      exact .cons hab .nil
  | @cons x y l m hxy hlm ih =>
      have hle : byKey key a x ↔ stamp b ≤ stamp y := by
        rw [byKey_iff (hid x List.mem_cons_self), hkey a b hab, hkey x y hxy]
      rw [List.orderedInsert_cons, List.orderedInsert_cons]
      by_cases hax : byKey key a x
      · rw [if_pos hax, if_pos (hle.mp hax)]
        exact .cons hab (.cons hxy hlm)
      · rw [if_neg hax, if_neg (mt hle.mpr hax)]
        exact .cons hxy (ih fun z hz => hid z (List.mem_cons_of_mem x hz))

/-- The order of rows with ascending ids is the stable order of what they stand for. -/
theorem forall₂_insertionSort
    (hkey : ∀ a b, R a b → key a.2 = stamp b) {l : List (Nat × α)} {m : List β}
    (h : List.Forall₂ R l m) (hids : l.Pairwise fun a b => a.1 < b.1) :
    List.Forall₂ R (l.insertionSort (byKey key))
      (m.insertionSort fun x y => stamp x ≤ stamp y) := by
  induction h with
  | nil =>
      exact .nil
  | cons hab _ ih =>
      obtain ⟨hid, hl⟩ := List.pairwise_cons.mp hids
      rw [List.insertionSort_cons, List.insertionSort_cons]
      exact forall₂_orderedInsert hkey hab (ih hl) fun x hx =>
        hid x ((List.mem_insertionSort _).mp hx)

/-- The newest rows stand for the end of that order. -/
theorem forall₂_newest
    (key : α → κ) (stamp : β → κ) (hkey : ∀ a b, R a b → key a.2 = stamp b) (n : Nat)
    {l : List (Nat × α)} {m : List β} (h : List.Forall₂ R l m)
    (hids : l.Pairwise fun a b => a.1 < b.1) :
    List.Forall₂ R (newest (byKey key) n l)
      ((m.insertionSort fun x y => stamp x ≤ stamp y).drop (m.length - n)) := by
  rw [newest_eq n (byKey_antisymm hids), h.length_eq]
  exact List.forall₂_drop _ (forall₂_insertionSort hkey h hids)

end Ids

end Newest
