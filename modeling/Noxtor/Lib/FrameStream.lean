import Mathlib.Data.List.TakeDrop
import Mathlib.Tactic

/-!
# A byte stream of numbered frames

A sender writes frames to a stream, some of them at once and some in pieces: what is left
of a frame that has been begun is pending.  `OnWire IsFrame wire pending m` says that the
stream holds `m` complete frames in order and then the part of frame `m` that is not
pending any more.
-/

namespace FrameStream

variable {α : Type}

/--
`wire` is a concatenation of `m` frames, the `j`-th satisfying `IsFrame j`, and a proper
prefix of frame `m` whose rest is `pending`; nothing is pending if there is no such prefix.
-/
def OnWire (IsFrame : Nat → List α → Prop) (wire pending : List α) (m : Nat) : Prop :=
  ∃ (frames : List (List α)) (tail : List α),
    wire = frames.flatten ++ tail ∧ frames.length = m ∧
    (∀ (j : Nat) (h : j < frames.length), IsFrame j (frames.get ⟨j, h⟩)) ∧
    (pending = [] ∧ tail = [] ∨ pending ≠ [] ∧ IsFrame m (tail ++ pending))

namespace OnWire

variable {IsFrame : Nat → List α → Prop} {wire pending : List α} {m : Nat}

/-- The empty stream. -/
theorem empty : OnWire IsFrame [] [] 0 := by
  refine ⟨[], [], rfl, rfl, ?_, Or.inl ⟨rfl, rfl⟩⟩
  intro j h
  exact absurd h (Nat.not_lt_zero j)

/-- One more complete frame. -/
theorem snoc
    {frames : List (List α)} {f : List α}
    (hframes : ∀ (j : Nat) (h : j < frames.length), IsFrame j (frames.get ⟨j, h⟩))
    (hf : IsFrame frames.length f) :
    ∀ (j : Nat) (h : j < (frames ++ [f]).length), IsFrame j ((frames ++ [f]).get ⟨j, h⟩) := by
  intro j h
  rw [List.get_eq_getElem]
  by_cases hj : j < frames.length
  · rw [List.getElem_append_left hj]
    exact hframes j hj
  · have hlen : j = frames.length := by
      rw [List.length_append, List.length_singleton] at h
      omega
    subst hlen
    rw [List.getElem_append_right (Nat.le_refl _)]
    simpa using hf

/-- A frame is written at once. -/
theorem whole
    {f : List α} (h : OnWire IsFrame wire [] m) (hf : IsFrame m f) :
    OnWire IsFrame (wire ++ f) [] (m + 1) := by
  obtain ⟨frames, tail, rfl, rfl, hframes, hend⟩ := h
  rcases hend with ⟨-, rfl⟩ | ⟨hne, -⟩
  · refine ⟨frames ++ [f], [], by simp, by simp, snoc hframes hf, Or.inl ⟨rfl, rfl⟩⟩
  · exact absurd rfl hne

/-- A frame is put aside to be written later. -/
theorem buffer
    {f : List α} (h : OnWire IsFrame wire [] m) (hf : IsFrame m f) (hne : f ≠ []) :
    OnWire IsFrame wire f m := by
  obtain ⟨frames, tail, rfl, rfl, hframes, hend⟩ := h
  rcases hend with ⟨-, rfl⟩ | ⟨hne, -⟩
  · exact ⟨frames, [], rfl, rfl, hframes, Or.inr ⟨hne, hf⟩⟩
  · exact absurd rfl hne

/-- A part of the pending bytes is written. -/
theorem advance
    {n : Nat} (h : OnWire IsFrame wire pending m) (hn : n < pending.length) :
    OnWire IsFrame (wire ++ pending.take n) (pending.drop n) m := by
  have hne : pending ≠ [] := by
    rintro rfl
    exact absurd hn (Nat.not_lt_zero n)
  obtain ⟨frames, tail, rfl, rfl, hframes, hend⟩ := h
  rcases hend with ⟨hnil, -⟩ | ⟨-, hf⟩
  · exact absurd hnil hne
  · refine ⟨frames, tail ++ pending.take n, by simp, rfl, hframes, Or.inr ⟨?_, ?_⟩⟩
    · rw [Ne, List.drop_eq_nil_iff]
      omega
    · rw [List.append_assoc, List.take_append_drop]
      exact hf

/-- The rest of the pending bytes is written. -/
theorem finish
    (h : OnWire IsFrame wire pending m) (hne : pending ≠ []) :
    OnWire IsFrame (wire ++ pending) [] (m + 1) := by
  obtain ⟨frames, tail, rfl, rfl, hframes, hend⟩ := h
  rcases hend with ⟨hnil, -⟩ | ⟨-, hf⟩
  · exact absurd hnil hne
  · exact ⟨frames ++ [tail ++ pending], [], by simp, by simp, snoc hframes hf,
      Or.inl ⟨rfl, rfl⟩⟩

/-- A stream that is shorter than any frame is empty when nothing is pending. -/
theorem eq_nil_of_short
    (h : OnWire IsFrame wire [] m) (bound : Nat)
    (hbound : ∀ j f, IsFrame j f → bound ≤ f.length) (hshort : wire.length < bound) :
    wire = [] := by
  obtain ⟨frames, tail, rfl, rfl, hframes, hend⟩ := h
  rcases hend with ⟨-, rfl⟩ | ⟨hne, -⟩
  · cases frames with
    | nil =>
        rfl
    | cons f frames =>
        have hf : bound ≤ f.length := hbound 0 f (hframes 0 (Nat.succ_pos _))
        rw [List.append_nil, List.flatten_cons, List.length_append] at hshort
        omega
  · exact absurd rfl hne

end OnWire

end FrameStream
