import Mathlib.Tactic

/-!
# Positional notation

`value b ds` is the number with the digits `ds` in base `b`, most significant first, and
`digits b n x` are the last `n` digits of `x`.  On lists of `n` digits below `b` and on numbers
below `b ^ n` the two are inverse to each other.
-/

namespace Positional

/-- The number that digits stand for. -/
def value (b : Nat) (ds : List Nat) : Nat :=
  ds.foldl (fun acc d => acc * b + d) 0

/-- The last `n` digits of a number. -/
def digits (b : Nat) : Nat → Nat → List Nat
  | 0, _ => []
  | n + 1, x => digits b n (x / b) ++ [x % b]

@[simp] theorem value_nil (b : Nat) : value b [] = 0 := rfl

@[simp] theorem value_concat (b : Nat) (ds : List Nat) (d : Nat) :
    value b (ds ++ [d]) = value b ds * b + d := by
  simp [value]

@[simp] theorem digits_length (b n x : Nat) : (digits b n x).length = n := by
  induction n generalizing x with
  | zero =>
      rfl
  | succ n ih =>
      simp [digits, ih]

theorem digits_lt
    {b : Nat} (hb : 0 < b) (n x : Nat) :
    ∀ d ∈ digits b n x, d < b := by
  induction n generalizing x with
  | zero =>
      intro d hd
      cases hd
  | succ n ih =>
      intro d hd
      obtain hd | hd := List.mem_append.mp hd
      · exact ih (x / b) d hd
      · rw [List.mem_singleton.mp hd]
        exact Nat.mod_lt x hb

/-- The digits of a number stand for it. -/
theorem value_digits
    {b n x : Nat} (hx : x < b ^ n) :
    value b (digits b n x) = x := by
  induction n generalizing x with
  | zero =>
      rw [Nat.pow_zero, Nat.lt_one_iff] at hx
      rw [hx]
      rfl
  | succ n ih =>
      have hdiv : x / b < b ^ n := by
        rw [Nat.pow_succ, Nat.mul_comm] at hx
        exact Nat.div_lt_of_lt_mul hx
      rw [digits, value_concat, ih hdiv, Nat.mul_comm]
      exact Nat.div_add_mod x b

/-- A number determines its digits. -/
theorem digits_value
    {b : Nat} {ds : List Nat} (hds : ∀ d ∈ ds, d < b) :
    digits b ds.length (value b ds) = ds := by
  induction ds using List.reverseRecOn with
  | nil =>
      rfl
  | append_singleton ds d ih =>
      have hd : d < b := hds d (by simp)
      have hb : 0 < b := Nat.lt_of_le_of_lt (Nat.zero_le d) hd
      have hds' : ∀ e ∈ ds, e < b := fun e he => hds e (by simp [he])
      rw [List.length_append, List.length_singleton, digits, value_concat]
      rw [Nat.add_comm (value b ds * b) d, Nat.add_mul_div_right d _ hb, Nat.div_eq_of_lt hd,
        Nat.zero_add, Nat.add_mul_mod_self_right, Nat.mod_eq_of_lt hd, ih hds']

theorem value_lt
    {b : Nat} {ds : List Nat} (hds : ∀ d ∈ ds, d < b) :
    value b ds < b ^ ds.length := by
  induction ds using List.reverseRecOn with
  | nil =>
      simp
  | append_singleton ds d ih =>
      have hd : d < b := hds d (by simp)
      have hds' := ih fun e he => hds e (by simp [he])
      rw [value_concat, List.length_append, List.length_singleton, Nat.pow_succ]
      calc value b ds * b + d < value b ds * b + b := by omega
        _ = (value b ds + 1) * b := by ring
        _ ≤ b ^ ds.length * b := Nat.mul_le_mul_right b hds'

/-- Lists of digits of one length are equal if they stand for one number. -/
theorem value_injective
    {b : Nat} {ds es : List Nat} (hds : ∀ d ∈ ds, d < b) (hes : ∀ d ∈ es, d < b)
    (hlen : ds.length = es.length) (h : value b ds = value b es) :
    ds = es := by
  rw [← digits_value hds, ← digits_value hes, hlen, h]

end Positional
