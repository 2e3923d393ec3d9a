import Mathlib.Data.List.Basic
import Mathlib.Tactic

/-!
# A directory with several writers

The history of a directory is a list of operations: a file is created, written to, deleted
or closed by someone.  `content` is what a file holds after a history and `writer` who has it
open.  If files are only created under names that do not exist (`Exclusive`), and if
everyone only touches what he has created and not closed yet, then no file has two writers,
and `Kept` says what each of them has written.
-/

namespace Directory

variable {ι ν α : Type}

/-- What is done to a file, and by whom. -/
inductive Op (ι ν α : Type) where
  | create (who : ι) (name : ν)
  | write (who : ι) (name : ν) (data : List α)
  | unlink (who : ι) (name : ν)
  | close (who : ι) (name : ν)
deriving DecidableEq

namespace Op

def name : Op ι ν α → ν
  | create _ n => n
  | write _ n _ => n
  | unlink _ n => n
  | close _ n => n

def who : Op ι ν α → ι
  | create i _ => i
  | write i _ _ => i
  | unlink i _ => i
  | close i _ => i

/-- The file was not there before. -/
def IsCreate : Op ι ν α → Prop
  | create _ _ => True
  | _ => False

/-- What an operation makes of the file that it is about. -/
def onContent : Op ι ν α → Option (List α) → Option (List α)
  | create _ _, _ => some []
  | write _ _ data, c => c.map (· ++ data)
  | unlink _ _, _ => none
  | close _ _, c => c

/-- Who has the file open behind an operation on it. -/
def onWriter : Op ι ν α → Option ι → Option ι
  | create i _, _ => some i
  | write _ _ _, w => w
  | unlink _ _, _ => none
  | close _ _, _ => none

end Op

section History

variable [DecidableEq ν] {start : ν → Option (List α)} {ops ops' : List (Op ι ν α)}
  {op : Op ι ν α} {name : ν}

/-- What a file holds after a history that begins with `start`. -/
def content (start : ν → Option (List α)) (ops : List (Op ι ν α)) (name : ν) :
    Option (List α) :=
  (ops.filter fun op => op.name = name).foldl (fun c op => op.onContent c) (start name)

/-- Who has a file open after a history. -/
def writer (ops : List (Op ι ν α)) (name : ν) : Option ι :=
  (ops.filter fun op => op.name = name).foldl (fun w op => op.onWriter w) none

theorem filter_snoc_same
    (h : op.name = name) :
    (ops ++ [op]).filter (fun op => op.name = name) =
      (ops.filter fun op => op.name = name) ++ [op] := by
  simp [List.filter_append, h]

theorem filter_snoc_other
    (h : op.name ≠ name) :
    (ops ++ [op]).filter (fun op => op.name = name) = ops.filter fun op => op.name = name := by
  simp [List.filter_append, h]

theorem content_same
    (h : op.name = name) :
    content start (ops ++ [op]) name = op.onContent (content start ops name) := by
  rw [content, filter_snoc_same h, List.foldl_append]
  rfl

theorem content_other
    (h : op.name ≠ name) :
    content start (ops ++ [op]) name = content start ops name := by
  rw [content, filter_snoc_other h, content]

theorem writer_same
    (h : op.name = name) :
    writer (ops ++ [op]) name = op.onWriter (writer ops name) := by
  rw [writer, filter_snoc_same h, List.foldl_append]
  rfl

theorem writer_other
    (h : op.name ≠ name) :
    writer (ops ++ [op]) name = writer ops name := by
  rw [writer, filter_snoc_other h, writer]

/-- Files are only created under names that do not exist. -/
def Exclusive (start : ν → Option (List α)) (ops : List (Op ι ν α)) : Prop :=
  ∀ pre who name post, ops = pre ++ .create who name :: post → content start pre name = none

theorem Exclusive.before
    (h : Exclusive start (ops ++ ops')) :
    Exclusive start ops := by
  intro pre who name post hops
  exact h pre who name (post ++ ops') (by rw [hops, List.append_assoc, List.cons_append])

/-- The history of one file that was not there at the start. -/
theorem Exclusive.single
    {who : ι} (hstart : start name = none) (hops : ∀ op ∈ ops, ¬ op.IsCreate) :
    Exclusive start (.create who name :: ops) := by
  intro pre who' name' post hsplit
  cases pre with
  | nil =>
      cases hsplit
      exact hstart
  | cons op pre =>
      obtain ⟨-, rfl⟩ := List.cons.inj hsplit
      exact absurd trivial (hops (.create who' name') (by simp))

/-- A file is only touched by the one who has created it and has it open. -/
def Orderly (ops : List (Op ι ν α)) : Prop :=
  ∀ pre op post, ops = pre ++ op :: post → ¬ op.IsCreate → writer pre op.name = some op.who

theorem Orderly.nil : Orderly ([] : List (Op ι ν α)) := by
  intro pre op post hops
  exact absurd hops (by simp)

theorem Orderly.snoc
    (h : Orderly ops) (hop : ¬ op.IsCreate → writer ops op.name = some op.who) :
    Orderly (ops ++ [op]) := by
  intro pre op' post hops hnot
  rcases List.eq_nil_or_concat post with rfl | ⟨post', last, rfl⟩
  · obtain ⟨rfl, hlast⟩ := List.append_inj' hops rfl
    cases hlast
    exact hop hnot
  · rw [List.concat_eq_append, ← List.cons_append, ← List.append_assoc] at hops
    obtain ⟨hops, -⟩ := List.append_inj' hops rfl
    exact h pre op' post' hops hnot

end History

section Kept

variable [DecidableEq ν] {start : ν → Option (List α)} {Whole Whole' : ν → List α → Prop}
  {ops : List (Op ι ν α)} {held held' : ι → Option (ν × List α)} {i j : ι} {name : ν}
  {data : List α}

/--
Everyone holds at most one file, alone, with what he has written to it; a file that was
created and that nobody holds any more is `Whole`.
-/
structure Kept (start : ν → Option (List α)) (Whole : ν → List α → Prop)
    (ops : List (Op ι ν α)) (held : ι → Option (ν × List α)) : Prop where
  holds : ∀ i name data, held i = some (name, data) →
    writer ops name = some i ∧ content start ops name = some data
  held : ∀ i name, writer ops name = some i → ∃ data, held i = some (name, data)
  whole : ∀ i name data, .create i name ∈ ops → writer ops name = none →
    content start ops name = some data → Whole name data
  orderly : Orderly ops

namespace Kept

theorem nil (start : ν → Option (List α)) (Whole : ν → List α → Prop) :
    Kept start Whole ([] : List (Op ι ν α)) (fun _ => none) where
  holds := fun _ _ _ h => by cases h
  held := fun _ _ h => by cases h
  whole := fun _ _ _ h => absurd h List.not_mem_nil
  orderly := Orderly.nil

/-- What is known does not change. -/
theorem same
    (h : Kept start Whole ops held) (hheld : ∀ k, held' k = held k)
    (hwhole : ∀ n d, Whole n d → Whole' n d) :
    Kept start Whole' ops held' := by
  rw [funext hheld]
  exact ⟨h.holds, h.held, fun i n d hc hw hd => hwhole n d (h.whole i n d hc hw hd), h.orderly⟩

/-- An operation of `op.who`, who holds no other file, on a file that nobody else holds. -/
theorem step
    {op : Op ι ν α} (h : Kept start Whole ops held)
    (hother : ∀ k, k ≠ op.who → held' k = held k)
    (hmine : ∀ n d, held op.who = some (n, d) → n = op.name)
    (hfree : ∀ k, writer ops op.name = some k → k = op.who)
    (horder : ¬ op.IsCreate → writer ops op.name = some op.who)
    (hnow : ∀ n d, held' op.who = some (n, d) → n = op.name ∧
      op.onWriter (writer ops op.name) = some op.who ∧
      op.onContent (content start ops op.name) = some d)
    (hgone : held' op.who = none → op.onWriter (writer ops op.name) = none)
    (hwhole : ∀ n d, n ≠ op.name → Whole n d → Whole' n d)
    (hnew : ∀ d, held' op.who = none → op.onContent (content start ops op.name) = some d →
      Whole' op.name d) :
    Kept start Whole' (ops ++ [op]) held' := by
  have hwriter : ∀ k, op.onWriter (writer ops op.name) = some k →
      k = op.who ∧ ∃ d, held' op.who = some (op.name, d) := by
    intro k hk
    cases hheld : held' op.who with
    | none =>
        rw [hgone hheld] at hk
        cases hk
    | some file =>
        obtain ⟨n, d⟩ := file
        obtain ⟨rfl, hw, -⟩ := hnow n d hheld
        rw [hw] at hk
        exact ⟨(Option.some.inj hk).symm, d, rfl⟩
  refine ⟨fun k n d hk => ?_, fun k n hk => ?_, fun k n d hc hw hd => ?_,
    h.orderly.snoc horder⟩
  · by_cases hi : k = op.who
    · subst hi
      obtain ⟨rfl, hw, hd⟩ := hnow n d hk
      exact ⟨(writer_same rfl).trans hw, (content_same rfl).trans hd⟩
    · rw [hother k hi] at hk
      have hn : op.name ≠ n := by
        rintro rfl
        exact hi (hfree k (h.holds k _ d hk).1)
      rw [writer_other hn, content_other hn]
      exact h.holds k n d hk
  · by_cases hn : op.name = n
    · subst hn
      rw [writer_same rfl] at hk
      obtain ⟨rfl, d, hd⟩ := hwriter k hk
      exact ⟨d, hd⟩
    · rw [writer_other hn] at hk
      obtain ⟨d, hd⟩ := h.held k n hk
      refine ⟨d, (hother k ?_).trans hd⟩
      rintro rfl
      exact hn (hmine n d hd).symm
  · by_cases hn : op.name = n
    · subst hn
      rw [writer_same rfl] at hw
      rw [content_same rfl] at hd
      cases hheld : held' op.who with
      | none => exact hnew d hheld hd
      | some file =>
          obtain ⟨m, d'⟩ := file
          rw [(hnow m d' hheld).2.1] at hw
          cases hw
    · rw [writer_other hn] at hw
      rw [content_other hn] at hd
      refine hwhole n d (Ne.symm hn) (h.whole k n d ?_ hw hd)
      obtain hc | hc := List.mem_append.mp hc
      · exact hc
      · rw [← List.mem_singleton.mp hc] at hn
        exact absurd rfl hn

section Rules

variable (h : Kept start Whole ops held) (hother : ∀ k, k ≠ i → held' k = held k)
include h hother

/-- A new file. -/
theorem opened
    (hexcl : Exclusive start (ops ++ [.create i name])) (hmine : held i = none)
    (hheld : held' i = some (name, [])) (hwhole : ∀ n d, n ≠ name → Whole n d → Whole' n d) :
    Kept start Whole' (ops ++ [.create i name]) held' := by
  have hnone : content start ops name = none := hexcl ops i name [] rfl
  refine h.step hother (fun n d hi => ?_) (fun k hk => ?_) (fun hnot => absurd trivial hnot)
    (fun n d hi => ?_) (fun hi => ?_) hwhole (fun d hi _ => ?_)
  · exact absurd (hmine.symm.trans hi) (by simp)
  · obtain ⟨d, hd⟩ := h.held k name hk
    rw [(h.holds k name d hd).2] at hnone
    cases hnone
  · have hi := hheld.symm.trans hi
    simp only [Option.some.injEq, Prod.mk.injEq] at hi
    obtain ⟨rfl, rfl⟩ := hi
    exact ⟨rfl, rfl, rfl⟩
  · exact absurd (hheld.symm.trans hi) (by simp)
  · exact absurd (hheld.symm.trans hi) (by simp)

/-- More of a file. -/
theorem wrote
    {more : List α} (hmine : held i = some (name, data))
    (hheld : held' i = some (name, data ++ more))
    (hwhole : ∀ n d, n ≠ name → Whole n d → Whole' n d) :
    Kept start Whole' (ops ++ [.write i name more]) held' := by
  obtain ⟨hw, hc⟩ := h.holds i name data hmine
  refine h.step hother (fun n d hi => ?_) (fun k hk => ?_) (fun _ => hw)
    (fun n d hi => ?_) (fun hi => ?_) hwhole (fun d hi _ => ?_)
  · have hi := hmine.symm.trans hi
    simp only [Option.some.injEq, Prod.mk.injEq] at hi
    exact hi.1.symm
  · exact Option.some.inj (hk.symm.trans hw)
  · have hi := hheld.symm.trans hi
    simp only [Option.some.injEq, Prod.mk.injEq] at hi
    obtain ⟨rfl, rfl⟩ := hi
    refine ⟨rfl, hw, ?_⟩
    rw [show (Op.write i name more).name = name from rfl, hc]
    rfl
  · exact absurd (hheld.symm.trans hi) (by simp)
  · exact absurd (hheld.symm.trans hi) (by simp)

/-- The file that one holds is deleted. -/
theorem dropped
    (hmine : held i = some (name, data)) (hheld : held' i = none)
    (hwhole : ∀ n d, n ≠ name → Whole n d → Whole' n d) :
    Kept start Whole' (ops ++ [.unlink i name]) held' := by
  obtain ⟨hw, -⟩ := h.holds i name data hmine
  refine h.step hother (fun n d hi => ?_) (fun k hk => ?_) (fun _ => hw)
    (fun n d hi => ?_) (fun _ => rfl) hwhole (fun d _ hd => ?_)
  · have hi := hmine.symm.trans hi
    simp only [Option.some.injEq, Prod.mk.injEq] at hi
    exact hi.1.symm
  · exact Option.some.inj (hk.symm.trans hw)
  · exact absurd (hheld.symm.trans hi) (by simp)
  · cases hd

/-- The file that one holds is complete. -/
theorem closed
    (hmine : held i = some (name, data)) (hheld : held' i = none)
    (hwhole : ∀ n d, n ≠ name → Whole n d → Whole' n d) (hnew : Whole' name data) :
    Kept start Whole' (ops ++ [.close i name]) held' := by
  obtain ⟨hw, hc⟩ := h.holds i name data hmine
  refine h.step hother (fun n d hi => ?_) (fun k hk => ?_) (fun _ => hw)
    (fun n d hi => ?_) (fun _ => rfl) hwhole (fun d _ hd => ?_)
  · have hi := hmine.symm.trans hi
    simp only [Option.some.injEq, Prod.mk.injEq] at hi
    exact hi.1.symm
  · exact Option.some.inj (hk.symm.trans hw)
  · exact absurd (hheld.symm.trans hi) (by simp)
  · have hd : content start ops name = some d := hd
    rw [hc] at hd
    rw [← Option.some.inj hd]
    exact hnew

end Rules

end Kept

end Kept

end Directory
