import Mathlib.Order.BoundedOrder.Basic
import Mathlib.Order.MinMax

/-!
# Stacked filters

A filter gives every call a verdict, and verdicts are ordered: the larger one is the stricter one.
The verdict of a list of rules is the strictest one of the rules that apply, and the verdict of a
stack of filters the strictest one of its filters.

A filter can be put on the stack and never taken off.  Where filters are built of more and more
rules, the newest one speaks for the whole stack.
-/

namespace Noxtor
namespace CallFilter

universe u v w

variable {ρ : Type u} {κ : Type v} {ν : Type w} [LinearOrder ν] [OrderBot ν]

/-- The strictest verdict of the rules that apply to a call. -/
def rulesVerdict (applies : ρ → κ → Bool) (act : ρ → ν) (c : κ) : List ρ → ν
  | [] => ⊥
  | r :: rs =>
      if applies r c then max (act r) (rulesVerdict applies act c rs)
      else rulesVerdict applies act c rs

/-- The strictest verdict of the filters of a stack. -/
def stackVerdict (c : κ) : List (κ → ν) → ν
  | [] => ⊥
  | f :: fs => max (f c) (stackVerdict c fs)

section Rules

variable {applies : ρ → κ → Bool} {act : ρ → ν} {c : κ} {rs ss : List ρ} {a : ν}

theorem rulesVerdict_cons (r : ρ) (rs : List ρ) :
    rulesVerdict applies act c (r :: rs) =
      if applies r c then max (act r) (rulesVerdict applies act c rs)
      else rulesVerdict applies act c rs :=
  rfl

theorem rulesVerdict_le_iff :
    rulesVerdict applies act c rs ≤ a ↔ ∀ r ∈ rs, applies r c = true → act r ≤ a := by
  induction rs with
  | nil => simp [rulesVerdict]
  | cons r rs ih =>
      rw [List.forall_mem_cons, ← ih, rulesVerdict_cons]
      split
      next h => rw [max_le_iff, forall_prop_of_true h]
      next h => exact ⟨fun hle => ⟨fun happ => absurd happ h, hle⟩, And.right⟩

theorem le_rulesVerdict {r : ρ} (hr : r ∈ rs) (h : applies r c = true) :
    act r ≤ rulesVerdict applies act c rs :=
  rulesVerdict_le_iff.1 le_rfl r hr h

/-- More rules are stricter. -/
theorem rulesVerdict_mono (h : rs ⊆ ss) :
    rulesVerdict applies act c rs ≤ rulesVerdict applies act c ss :=
  rulesVerdict_le_iff.2 fun _ hr happ => le_rulesVerdict (h hr) happ

/-- Rules that apply to none of the calls in question do not count. -/
theorem rulesVerdict_eq
    (h : rs ⊆ ss) (hrest : ∀ r ∈ ss, r ∉ rs → applies r c = false) :
    rulesVerdict applies act c rs = rulesVerdict applies act c ss := by
  refine le_antisymm (rulesVerdict_mono h) (rulesVerdict_le_iff.2 fun r hr happ => ?_)
  by_cases hmem : r ∈ rs
  · exact le_rulesVerdict hmem happ
  · rw [hrest r hr hmem] at happ
    cases happ

theorem rulesVerdict_eq_bot_iff :
    rulesVerdict applies act c rs = ⊥ ↔ ∀ r ∈ rs, applies r c = true → act r = ⊥ := by
  rw [← le_bot_iff, rulesVerdict_le_iff]
  exact forall₂_congr fun _ _ => forall_congr' fun _ => le_bot_iff

end Rules

/-- A filter at least as strict as the stack below it speaks for the whole stack. -/
theorem stackVerdict_cons_of_le {c : κ} {f : κ → ν} {fs : List (κ → ν)}
    (h : stackVerdict c fs ≤ f c) :
    stackVerdict c (f :: fs) = f c :=
  max_eq_left h

end CallFilter
end Noxtor
