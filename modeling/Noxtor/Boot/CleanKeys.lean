import Noxtor.Common

/-!
# Wiping the key files

The branch of `main` for `--full_cleankeys`: every file of the list is overwritten with zeros and
then unlinked.

The loop that overwrites a file counts down by what it has asked `write` to take, and the
descriptor moves on by what `write` has taken.  `overwritten_iff` says what this leaves of a file
when writes are short.
-/

namespace Noxtor
namespace Boot

open ByteString

/-- `write` of `count` zeros at the offset of a descriptor. -/
def writeZeros (content : Bytes) (offset count : Nat) : Bytes :=
  content.take offset ++ List.replicate count 0 ++ content.drop (offset + count)

/-- The file, the offset of the descriptor, what the loop thinks remains, and the number of calls
of `write` so far. -/
structure WipeState where
  content : Bytes
  offset : Nat
  remaining : Nat
  calls : Nat
deriving DecidableEq, Repr

/-- The chunk of a turn: `sizeof(zeros)` is 256. -/
def wipeChunk (remaining : Nat) : Nat :=
  if remaining < 256 then remaining else 256

/-- A turn of the loop; `none` is the `break`. -/
def wipeTurn (write : Nat → Int) (w : WipeState) : Option WipeState :=
  let chunk := wipeChunk w.remaining
  let taken := write w.calls
  if taken ≤ 0 then none
  else
    some
      { content := writeZeros w.content w.offset (min taken.toNat chunk)
        offset := w.offset + min taken.toNat chunk
        remaining := w.remaining - chunk
        calls := w.calls + 1 }

/-- At most `fuel` turns of the loop. -/
def wipeLoop (write : Nat → Int) : Nat → WipeState → WipeState
  | 0, w => w
  | fuel + 1, w =>
      if w.remaining > 0 then
        match wipeTurn write w with
        | none => w
        | some w => wipeLoop write fuel w
      else w

/-- The loop on a file of the size that `fstatat` has reported. -/
def wipeFile (write : Nat → Int) (content : Bytes) : WipeState :=
  wipeLoop write content.length
    { content := content, offset := 0, remaining := content.length, calls := 0 }

/-- `basenames`. -/
inductive KeyFile where
  | identityKey
  | salt
  | contactsDb
  | onionKey
deriving DecidableEq, Repr

def basenames : List KeyFile :=
  [.identityKey, .salt, .contactsDb, .onionKey]

/-- What a name of the config directory denotes. -/
inductive KeyEntry where
  | regular (content : Bytes)
  | other
deriving DecidableEq, Repr

/-- The results of the calls: `open` of the config directory, and for each file `openat`, the calls
of `write`, and `unlinkat` or `unlink`. -/
structure CleanEnv where
  cfgOpen : Bool
  openat : KeyFile → Bool
  write : KeyFile → Nat → Int
  unlink : KeyFile → Bool

/-- The directory, the number of files removed, and each file as the overwrite loop has left it. -/
structure CleanState where
  dir : KeyFile → Option KeyEntry
  wiped : Nat := 0
  overwritten : List (KeyFile × WipeState) := []

/-- The `unlinkat` of a file, or the `unlink` by its path. -/
def removeFile (E : CleanEnv) (name : KeyFile) (s : CleanState) : CleanState :=
  if E.unlink name then
    { s with dir := Function.update s.dir name none, wiped := s.wiped + 1 }
  else s

/-- The body of the loop over the files.  Without a descriptor of the directory nothing is
overwritten, and whatever the name denotes is unlinked by its path. -/
def cleanFile (E : CleanEnv) (s : CleanState) (name : KeyFile) : CleanState :=
  match s.dir name with
  | none => s
  | some .other => if E.cfgOpen then s else removeFile E name s
  | some (.regular content) =>
      if E.cfgOpen && E.openat name then
        let w := wipeFile (E.write name) content
        removeFile E name
          { s with
            dir := Function.update s.dir name (some (.regular w.content))
            overwritten := s.overwritten ++ [(name, w)] }
      else removeFile E name s

/-- The loop over the files. -/
def fullCleankeys (E : CleanEnv) (dir : KeyFile → Option KeyEntry) : CleanState :=
  basenames.foldl (cleanFile E) { dir := dir }

/-- What the first `n` calls of `write` have taken. -/
def totalTaken (write : Nat → Int) : Nat → Nat
  | 0 => 0
  | n + 1 => totalTaken write n + (write n).toNat

/-- The number of turns for a file of this size. -/
def wipeTurns (size : Nat) : Nat :=
  (size + 255) / 256

/-- Every call takes something, and at most what it is asked to take. -/
def PositiveWrites (write : Nat → Int) (size : Nat) : Prop :=
  ∀ k, k < wipeTurns size → 1 ≤ write k ∧ write k ≤ wipeChunk (size - 256 * k)

instance (write : Nat → Int) (size : Nat) : Decidable (PositiveWrites write size) :=
  inferInstanceAs (Decidable (∀ k, k < wipeTurns size → _))

section Loop

variable {write : Nat → Int} {content : Bytes}

/-- The state of the loop after `n` turns. -/
structure WipeInv (write : Nat → Int) (content : Bytes) (n : Nat) (w : WipeState) : Prop where
  bytes : w.content = List.replicate (totalTaken write n) 0 ++ content.drop (totalTaken write n)
  offset : w.offset = totalTaken write n
  remaining : w.remaining = content.length - 256 * n
  calls : w.calls = n
  taken : totalTaken write n ≤ content.length - w.remaining

theorem wipeInv_start
    (write : Nat → Int) (content : Bytes) :
    WipeInv write content 0
      { content := content, offset := 0, remaining := content.length, calls := 0 } :=
  ⟨rfl, rfl, rfl, rfl, Nat.zero_le _⟩

/-- Zeros behind zeros. -/
theorem writeZeros_append
    (content : Bytes) {m count : Nat} :
    writeZeros (List.replicate m 0 ++ content.drop m) m count =
      List.replicate (m + count) 0 ++ content.drop (m + count) := by
  have htake : (List.replicate m (0 : UInt8) ++ content.drop m).take m = List.replicate m 0 := by
    simp
  have hdrop : (List.replicate m (0 : UInt8) ++ content.drop m).drop (m + count) =
      content.drop (m + count) := by
    rw [List.drop_append]
    simp [List.drop_drop]
  unfold writeZeros
  rw [htake, hdrop, List.replicate_append_replicate]

/-- One turn. -/
theorem WipeInv.turn
    {n : Nat} {w : WipeState} (h : WipeInv write content n w) (hrem : 0 < w.remaining)
    (hpos : PositiveWrites write content.length) :
    ∃ w', wipeTurn write w = some w' ∧ WipeInv write content (n + 1) w' := by
  have hn : n < wipeTurns content.length := by
    have hrem' := h.remaining
    unfold wipeTurns
    omega
  obtain ⟨hlow, hhigh⟩ := hpos n hn
  rw [← h.remaining] at hhigh
  have hmin : min (write n).toNat (wipeChunk w.remaining) = (write n).toNat := by
    omega
  have hchunk : wipeChunk w.remaining ≤ w.remaining := by
    unfold wipeChunk
    split <;> omega
  have htaken := h.taken
  unfold wipeTurn
  rw [h.calls]
  dsimp only
  rw [if_neg (by omega), hmin]
  refine ⟨_, rfl, ?_, ?_, ?_, rfl, ?_⟩
  · rw [h.bytes, h.offset]
    exact writeZeros_append content
  · show w.offset + _ = _
    rw [h.offset]
    rfl
  · show w.remaining - wipeChunk w.remaining = _
    rw [h.remaining]
    unfold wipeChunk
    split <;> omega
  · have hrem' := h.remaining
    show totalTaken write n + (write n).toNat ≤
      content.length - (w.remaining - wipeChunk w.remaining)
    omega

/-- With enough fuel the loop has run to its end. -/
theorem WipeInv.loop
    {fuel n : Nat} {w : WipeState} (h : WipeInv write content n w)
    (hfuel : w.remaining ≤ fuel) (hpos : PositiveWrites write content.length) :
    ∃ m, WipeInv write content m (wipeLoop write fuel w) ∧
      (wipeLoop write fuel w).remaining = 0 ∧ (n ≤ wipeTurns content.length →
        m ≤ wipeTurns content.length) := by
  induction fuel generalizing n w with
  | zero =>
      exact ⟨n, h, Nat.le_zero.mp hfuel, id⟩
  | succ fuel ih =>
      unfold wipeLoop
      by_cases hrem : 0 < w.remaining
      · obtain ⟨w', hturn, hinv⟩ := h.turn hrem hpos
        have hless : w'.remaining ≤ fuel := by
          have h1 := hinv.remaining
          have h2 := h.remaining
          omega
        have hn : n + 1 ≤ wipeTurns content.length := by
          have hrem' := h.remaining
          unfold wipeTurns
          omega
        obtain ⟨m, hm, hzero, hturns⟩ := ih hinv hless
        rw [if_pos hrem, hturn]
        exact ⟨m, hm, hzero, fun _ => hturns hn⟩
      · rw [if_neg hrem]
        exact ⟨n, h, Nat.eq_zero_of_not_pos hrem, id⟩

/-- The loop makes the turns that the size asks for. -/
theorem wipeFile_inv
    (hpos : PositiveWrites write content.length) :
    WipeInv write content (wipeTurns content.length) (wipeFile write content) ∧
      (wipeFile write content).remaining = 0 := by
  obtain ⟨m, hinv, hzero, hturns⟩ := (wipeInv_start write content).loop (Nat.le_refl _) hpos
  have hm : m = wipeTurns content.length := by
    have hrem := hinv.remaining
    have hle := hturns (Nat.zero_le _)
    have hzero' : content.length - 256 * m = 0 := hrem.symm.trans hzero
    unfold wipeTurns at hle ⊢
    omega
  rw [hm] at hinv
  exact ⟨hinv, hzero⟩

end Loop

section Files

variable {E : CleanEnv}

/-- The overwrite loop of a file, if it is run. -/
def overwriteOf (E : CleanEnv) (dir : KeyFile → Option KeyEntry) (name : KeyFile) :
    Option (KeyFile × WipeState) :=
  match dir name with
  | some (.regular content) =>
      if E.cfgOpen && E.openat name then some (name, wipeFile (E.write name) content) else none
  | _ => none

theorem removeFile_dir
    {name other : KeyFile} (s : CleanState) (h : other ≠ name) :
    (removeFile E name s).dir other = s.dir other := by
  unfold removeFile
  split
  · exact Function.update_of_ne h _ _
  · rfl

theorem removeFile_overwritten
    (name : KeyFile) (s : CleanState) :
    (removeFile E name s).overwritten = s.overwritten := by
  unfold removeFile
  split <;> rfl

/-- The other names are left alone. -/
theorem cleanFile_dir
    {name other : KeyFile} (s : CleanState) (h : other ≠ name) :
    (cleanFile E s name).dir other = s.dir other := by
  unfold cleanFile
  cases s.dir name with
  | none =>
      rfl
  | some entry =>
      cases entry with
      | other =>
          dsimp only
          split
          · rfl
          · exact removeFile_dir s h
      | regular content =>
          dsimp only
          split
          · rw [removeFile_dir _ h]
            exact Function.update_of_ne h _ _
          · exact removeFile_dir s h

theorem cleanFile_overwritten
    (name : KeyFile) (s : CleanState) :
    (cleanFile E s name).overwritten = s.overwritten ++ (overwriteOf E s.dir name).toList := by
  unfold cleanFile overwriteOf
  cases s.dir name with
  | none =>
      exact (List.append_nil _).symm
  | some entry =>
      cases entry with
      | other =>
          dsimp only
          split
          · exact (List.append_nil _).symm
          · rw [removeFile_overwritten]
            exact (List.append_nil _).symm
      | regular content =>
          dsimp only
          split
          · rw [removeFile_overwritten]
            rfl
          · rw [removeFile_overwritten]
            exact (List.append_nil _).symm

/-- Each file is overwritten as it was at the start. -/
theorem foldl_cleanFile_overwritten
    {names : List KeyFile} (hnodup : names.Nodup) {dir : KeyFile → Option KeyEntry}
    {s : CleanState} (hdir : ∀ name ∈ names, s.dir name = dir name) :
    (names.foldl (cleanFile E) s).overwritten =
      s.overwritten ++ names.flatMap fun name => (overwriteOf E dir name).toList := by
  induction names generalizing s with
  | nil =>
      exact (List.append_nil _).symm
  | cons name names ih =>
      obtain ⟨hnot, hnodup⟩ := List.nodup_cons.mp hnodup
      have hlater : ∀ other ∈ names, (cleanFile E s name).dir other = dir other := by
        intro other hmem
        have hne : other ≠ name := by
          rintro rfl
          exact hnot hmem
        rw [cleanFile_dir s hne]
        exact hdir other (List.mem_cons_of_mem _ hmem)
      have hhere : overwriteOf E s.dir name = overwriteOf E dir name := by
        unfold overwriteOf
        rw [hdir name List.mem_cons_self]
      rw [List.foldl_cons, ih hnodup hlater, cleanFile_overwritten, hhere, List.flatMap_cons,
        List.append_assoc]

/-- A file whose descriptor could be opened is overwritten, once. -/
theorem mem_overwritten
    {dir : KeyFile → Option KeyEntry} {name : KeyFile} {content : Bytes}
    (hfile : dir name = some (.regular content))
    (hopen : E.cfgOpen = true ∧ E.openat name = true) (w : WipeState) :
    (name, w) ∈ (fullCleankeys E dir).overwritten ↔ w = wipeFile (E.write name) content := by
  have hall : (fullCleankeys E dir).overwritten =
      basenames.flatMap fun name => (overwriteOf E dir name).toList :=
    foldl_cleanFile_overwritten (by decide) (fun _ _ => rfl)
  have hmine : overwriteOf E dir name = some (name, wipeFile (E.write name) content) := by
    unfold overwriteOf
    rw [hfile]
    simp [hopen.1, hopen.2]
  rw [hall, List.mem_flatMap]
  constructor
  · rintro ⟨other, -, hmem⟩
    have hother : overwriteOf E dir other = some (name, w) := by
      simpa using hmem
    have hname : other = name := by
      unfold overwriteOf at hother
      split at hother
      · split at hother
        · cases hother
          rfl
        · cases hother
      · cases hother
    rw [hname, hmine] at hother
    cases hother
    rfl
  · rintro rfl
    refine ⟨name, ?_, by rw [hmine]; exact List.mem_singleton_self _⟩
    cases name <;> decide

end Files

/--
The overwrite loop of a file ends, whatever positive counts its writes return.  Then every byte of
the file is zero if and only if the bytes behind what the writes have taken together were zero
from the start: the loop counts a short write as a whole one.
-/
theorem key_file_overwritten_iff
    (E : CleanEnv) (dir : KeyFile → Option KeyEntry) (name : KeyFile) (content : Bytes)
    (hfile : dir name = some (.regular content))
    (hopen : E.cfgOpen = true ∧ E.openat name = true)
    (hpos : PositiveWrites (E.write name) content.length) :
    ∃ w, (∀ w', (name, w') ∈ (fullCleankeys E dir).overwritten ↔ w' = w) ∧
      w.remaining = 0 ∧ w.content.length = content.length ∧
      ((∀ b ∈ w.content, b = 0) ↔
        ∀ b ∈ content.drop (totalTaken (E.write name) (wipeTurns content.length)), b = 0) := by
  obtain ⟨hinv, hzero⟩ := wipeFile_inv hpos
  have hle := hinv.taken
  refine ⟨wipeFile (E.write name) content, mem_overwritten hfile hopen, hzero, ?_, ?_⟩
  · rw [hinv.bytes, List.length_append, List.length_replicate, List.length_drop]
    omega
  · rw [hinv.bytes]
    constructor
    · intro h b hb
      exact h b (List.mem_append_right _ hb)
    · intro h b hb
      rcases List.mem_append.mp hb with hb | hb
      · exact List.eq_of_mem_replicate hb
      · exact h b hb

/-- A salt of 300 bytes, and a disk that takes everything but for the given first count. -/
def sampleClean (first : Int) : CleanEnv :=
  { cfgOpen := true, openat := fun _ => true
    write := fun _ k => if k = 0 then first else 44, unlink := fun _ => true }

def sampleKeys : KeyFile → Option KeyEntry
  | .salt => some (.regular (List.replicate 300 7))
  | _ => none

/-- Whole writes leave only zeros. -/
theorem key_file_overwritten_whole :
    ∃ w, (KeyFile.salt, w) ∈ (fullCleankeys (sampleClean 256) sampleKeys).overwritten ∧
      ∀ b ∈ w.content, b = 0 := by
  obtain ⟨w, hmem, -, -, hiff⟩ := key_file_overwritten_iff (sampleClean 256) sampleKeys .salt
    (List.replicate 300 7) rfl ⟨rfl, rfl⟩ (by decide +kernel)
  exact ⟨w, (hmem w).mpr rfl, hiff.mpr (by decide +kernel)⟩

/-- The first write takes 100 of 256 bytes: the last 156 bytes of the file keep what they were,
and the file is unlinked. -/
theorem key_file_short_write :
    PositiveWrites ((sampleClean 100).write .salt) 300 ∧
      ((fullCleankeys (sampleClean 100) sampleKeys).overwritten.map fun p => p.2.content) =
        [List.replicate 144 0 ++ List.replicate 156 7] ∧
      (fullCleankeys (sampleClean 100) sampleKeys).dir .salt = none := by
  decide +kernel

end Boot
end Noxtor
