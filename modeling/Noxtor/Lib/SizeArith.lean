import Mathlib.Tactic

/-!
# 64-bit sizes that remember a wrap

Computations with `size_t` values over a state `σ`.  A size is a natural number below `2 ^ 64`;
the arithmetic is modulo `2 ^ 64`, and the run records whether some operation so far has left the
range.  A computation may also abort.

An operation whose result fits is a `pure` one (`add_eq_pure` and its siblings), so a proof that a
program never wraps rewrites each operation away at the place where it stands.
-/

namespace SizeArith

/-- A state and whether a size has wrapped on the way to it. -/
structure Run (σ : Type) where
  st : σ
  wrapped : Bool := false

/-- `none` is an abort. -/
abbrev SizeM (σ : Type) := StateT (Run σ) Option

variable {σ α : Type}

def sizeMax : Nat := 2 ^ 64 - 1

theorem sizeMax_eq : sizeMax = 2 ^ 64 - 1 :=
  rfl

def abort : SizeM σ α := fun _ => none

def read (f : σ → α) : SizeM σ α := fun r => some (f r.st, r)

def update (f : σ → σ) : SizeM σ Unit := fun r => some ((), { r with st := f r.st })

/-- Records a result outside of the range. -/
def note (out : Bool) : SizeM σ Unit := fun r => some ((), { r with wrapped := r.wrapped || out })

def add (x y : Nat) : SizeM σ Nat := do
  note (decide (2 ^ 64 ≤ x + y))
  pure ((x + y) % 2 ^ 64)

def sub (x y : Nat) : SizeM σ Nat := do
  note (decide (x < y))
  pure ((x + 2 ^ 64 - y) % 2 ^ 64)

def mul (x y : Nat) : SizeM σ Nat := do
  note (decide (2 ^ 64 ≤ x * y))
  pure (x * y % 2 ^ 64)

/-- `~x`. -/
def complement (x : Nat) : Nat := 2 ^ 64 - 1 - x

theorem note_false : (note false : SizeM σ Unit) = pure () := by
  funext r
  obtain ⟨st, wrapped⟩ := r
  cases wrapped <;> rfl

theorem add_eq_pure {x y : Nat} (h : x + y < 2 ^ 64) : (add x y : SizeM σ Nat) = pure (x + y) := by
  have hnote : decide (2 ^ 64 ≤ x + y) = false := decide_eq_false (by omega)
  rw [add, hnote, note_false, pure_bind, Nat.mod_eq_of_lt h]

theorem sub_eq_pure {x y : Nat} (hx : x < 2 ^ 64) (h : y ≤ x) :
    (sub x y : SizeM σ Nat) = pure (x - y) := by
  have hnote : decide (x < y) = false := decide_eq_false (by omega)
  have hvalue : (x + 2 ^ 64 - y) % 2 ^ 64 = x - y := by omega
  rw [sub, hnote, note_false, pure_bind, hvalue]

theorem mul_eq_pure {x y : Nat} (h : x * y < 2 ^ 64) :
    (mul x y : SizeM σ Nat) = pure (x * y) := by
  have hnote : decide (2 ^ 64 ≤ x * y) = false := decide_eq_false (by omega)
  rw [mul, hnote, note_false, pure_bind, Nat.mod_eq_of_lt h]

theorem run_pure (x : α) (r : Run σ) : (pure x : SizeM σ α) r = some (x, r) :=
  rfl

theorem run_read_bind {β : Type} (f : σ → α) (k : α → SizeM σ β) (r : Run σ) :
    (read f >>= k) r = k (f r.st) r :=
  rfl

theorem run_update_bind {β : Type} (f : σ → σ) (k : Unit → SizeM σ β) (r : Run σ) :
    (update f >>= k) r = k () { r with st := f r.st } :=
  rfl

theorem run_add_bind {β : Type} (x y : Nat) (k : Nat → SizeM σ β) (r : Run σ) :
    (add x y >>= k) r =
      k ((x + y) % 2 ^ 64) { r with wrapped := r.wrapped || decide (2 ^ 64 ≤ x + y) } :=
  rfl

theorem run_sub_bind {β : Type} (x y : Nat) (k : Nat → SizeM σ β) (r : Run σ) :
    (sub x y >>= k) r =
      k ((x + 2 ^ 64 - y) % 2 ^ 64) { r with wrapped := r.wrapped || decide (x < y) } :=
  rfl

/-- A part that gives a result and leaves the run is passed over. -/
theorem run_bind_of_run {β : Type} {m : SizeM σ α} {k : α → SizeM σ β} {r r' : Run σ} {x : α}
    (h : m r = some (x, r')) : (m >>= k) r = k x r' := by
  change (m r).bind (fun p => k p.1 p.2) = _
  rw [h]
  rfl

theorem run_bind_of_abort {β : Type} {m : SizeM σ α} {k : α → SizeM σ β} {r : Run σ}
    (h : m r = none) : (m >>= k) r = none := by
  change (m r).bind (fun p => k p.1 p.2) = _
  rw [h]
  rfl

theorem and_pred_eq_zero_iff {p : Nat} (hp : p ≠ 0) :
    p &&& (p - 1) = 0 ↔ ∃ k, p = 2 ^ k := by
  rw [Nat.and_sub_one_eq_zero_iff_isPowerOfTwo hp]
  rfl

/-- Rounding down to a multiple of a power of two. -/
theorem and_complement_pred {x k : Nat} (hx : x < 2 ^ 64) (hk : k ≤ 64) :
    x &&& complement (2 ^ k - 1) = x / 2 ^ k * 2 ^ k := by
  have hpow : 2 ^ k ≤ 2 ^ 64 := Nat.pow_le_pow_right (by decide) hk
  have hpos : 0 < 2 ^ k := Nat.two_pow_pos k
  have hcompl : complement (2 ^ k - 1) = 2 ^ 64 - (2 ^ k - 1 + 1) := by
    unfold complement
    omega
  rw [hcompl, ← Nat.shiftRight_eq_div_pow, ← Nat.shiftLeft_eq]
  apply Nat.eq_of_testBit_eq
  intro i
  rw [Nat.testBit_and, Nat.testBit_two_pow_sub_succ (by omega), Nat.testBit_two_pow_sub_one,
    Nat.testBit_shiftLeft, Nat.testBit_shiftRight]
  by_cases hi : k ≤ i
  · have hki : k + (i - k) = i := by omega
    have hnot : ¬ i < k := by omega
    by_cases h64 : i < 64
    · simp [hi, hki, hnot, h64]
    · have hbit : x.testBit i = false := by
        apply Nat.testBit_lt_two_pow
        exact lt_of_lt_of_le hx (Nat.pow_le_pow_right (by decide) (by omega))
      simp [hki, hbit]
  · have hlt : i < k := by omega
    simp [hi, hlt]

/-- Rounding up to a multiple of `p`. -/
def roundUp (p x : Nat) : Nat := (x + p - 1) / p * p

theorem le_roundUp {p : Nat} (hp : 0 < p) (x : Nat) : x ≤ roundUp p x := by
  have hdiv := Nat.div_add_mod (x + p - 1) p
  have hmod := Nat.mod_lt (x + p - 1) hp
  rw [Nat.mul_comm] at hdiv
  unfold roundUp
  omega

theorem dvd_roundUp (p x : Nat) : p ∣ roundUp p x :=
  Nat.dvd_mul_left p _

end SizeArith
