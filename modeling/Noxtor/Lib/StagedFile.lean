import Mathlib.Logic.Function.Basic
import Mathlib.Tactic

/-!
# Files that are written under another name

A directory maps names to files, and a file is known by a number that is never used twice.  A
program that wants to replace a file creates another one under a name of its own, writes to it
and renames it.  `staged` is the directory between these calls: it differs from the one before in
one name and one file.
-/

namespace StagedFile

variable {ν α : Type}

/-- The directory and the contents of the files; `next` is the number of the next file. -/
structure Fs (ν α : Type) where
  dir : ν → Option Nat
  data : Nat → List α
  next : Nat
  fresh : ∀ name file, dir name = some file → file < next

namespace Fs

/-- The name denotes the same file with the same contents. -/
def Kept (fs fs' : Fs ν α) (name : ν) : Prop :=
  fs'.dir name = fs.dir name ∧ ∀ file, fs.dir name = some file → fs'.data file = fs.data file

/-- The name denotes a file with these contents. -/
def Holds (fs : Fs ν α) (name : ν) (content : List α) : Prop :=
  ∃ file, fs.dir name = some file ∧ fs.data file = content

/-- Every name but `final` that exists now has existed before, for the same file. -/
def NothingAdded (fs fs' : Fs ν α) (final : ν) : Prop :=
  ∀ name file, name ≠ final → fs'.dir name = some file → fs.dir name = some file

theorem kept_refl (fs : Fs ν α) (name : ν) : Kept fs fs name :=
  ⟨rfl, fun _ _ => rfl⟩

theorem nothingAdded_refl (fs : Fs ν α) (final : ν) : NothingAdded fs fs final :=
  fun _ _ _ h => h

variable [DecidableEq ν]

/-- A new file under a name. -/
def staged (name : ν) (content : List α) (fs : Fs ν α) : Fs ν α where
  dir := Function.update fs.dir name (some fs.next)
  data := Function.update fs.data fs.next content
  next := fs.next + 1
  fresh := by
    intro other file h
    by_cases hn : other = name
    · subst hn
      simp only [Function.update_self, Option.some.injEq] at h
      omega
    · rw [Function.update_of_ne hn] at h
      exact Nat.lt_succ_of_lt (fs.fresh other file h)

/-- `openat` with `O_CREAT | O_EXCL`, where the name does not exist. -/
def create (name : ν) (fs : Fs ν α) : Fs ν α :=
  staged name [] fs

/-- `write` at the end of a file. -/
def append (file : Nat) (bytes : List α) (fs : Fs ν α) : Fs ν α :=
  { fs with data := Function.update fs.data file (fs.data file ++ bytes) }

/-- `unlinkat`. -/
def unlink (name : ν) (fs : Fs ν α) : Fs ν α where
  dir := Function.update fs.dir name none
  data := fs.data
  next := fs.next
  fresh := by
    intro other file h
    by_cases hn : other = name
    · subst hn
      simp at h
    · rw [Function.update_of_ne hn] at h
      exact fs.fresh other file h

/-- `renameat`. -/
def rename (old new : ν) (fs : Fs ν α) : Fs ν α where
  dir := Function.update (Function.update fs.dir new (fs.dir old)) old none
  data := fs.data
  next := fs.next
  fresh := by
    intro other file h
    by_cases ho : other = old
    · subst ho
      simp at h
    · rw [Function.update_of_ne ho] at h
      by_cases hn : other = new
      · subst hn
        rw [Function.update_self] at h
        exact fs.fresh old file h
      · rw [Function.update_of_ne hn] at h
        exact fs.fresh other file h

variable {fs fs' : Fs ν α} {name other old new : ν} {content : List α}

/-- What is written to the new file changes nothing else. -/
theorem append_staged (bytes : List α) :
    (staged name content fs).append fs.next bytes = staged name (content ++ bytes) fs := by
  simp [append, staged]

theorem kept_staged (h : other ≠ name) : Kept fs (staged name content fs) other := by
  constructor
  · exact Function.update_of_ne h _ _
  · intro file hf
    have hne : file ≠ fs.next := (fs.fresh other file hf).ne
    simp [staged, hne]

theorem kept_unlink (h : other ≠ name) : Kept fs (unlink name fs) other :=
  ⟨Function.update_of_ne h _ _, fun _ _ => rfl⟩

/-- A name that is removed adds nothing. -/
theorem NothingAdded.unlink {final : ν} (h : NothingAdded fs fs' final) :
    NothingAdded fs (fs'.unlink name) final := by
  intro other file hne hf
  by_cases hn : other = name
  · subst hn
    simp [Fs.unlink] at hf
  · rw [(kept_unlink hn).1] at hf
    exact h other file hne hf

/-- The only name of the new file is removed. -/
theorem nothingAdded_unlink_staged (final : ν) :
    NothingAdded fs ((staged name content fs).unlink name) final := by
  intro other file _ hf
  by_cases hn : other = name
  · subst hn
    simp [unlink] at hf
  · rwa [(kept_unlink hn).1, (kept_staged hn).1] at hf

theorem kept_rename_staged (ho : other ≠ old) (hn : other ≠ new) :
    Kept fs (rename old new (staged old content fs)) other := by
  constructor
  · simp [rename, staged, Function.update_of_ne ho, Function.update_of_ne hn]
  · intro file hf
    exact (kept_staged ho).2 file hf

theorem holds_rename_staged (h : new ≠ old) :
    Holds (rename old new (staged old content fs)) new content := by
  refine ⟨fs.next, ?_, ?_⟩
  · simp [rename, staged, Function.update_of_ne h]
  · simp [rename, staged]

theorem nothingAdded_rename_staged :
    NothingAdded fs (rename old new (staged old content fs)) new := by
  intro other file hn hf
  by_cases ho : other = old
  · subst ho
    simp [rename] at hf
  · rwa [(kept_rename_staged ho hn).1] at hf

end Fs
end StagedFile
