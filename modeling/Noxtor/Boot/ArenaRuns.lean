import Mathlib.Logic.Relation
import Noxtor.Boot.Arena

/-!
# Runs of the secure arena

A program that calls the allocator in any order, with any arguments, and writes into the blocks it
has been given.  The state carries the blocks that are live, which the program itself does not
record: a block is live from its allocation on until a restore takes back the area below its end.
-/

namespace Noxtor
namespace Boot

open ByteString
open SizeArith

/-- A block that has been handed out. -/
structure ArenaBlock where
  ptr : Nat
  size : Nat
deriving DecidableEq, Repr

def ArenaBlock.Disjoint (b c : ArenaBlock) : Prop :=
  b.ptr + b.size ≤ c.ptr ∨ c.ptr + c.size ≤ b.ptr

/-- The heap and the live blocks. -/
structure ArenaState where
  run : Run Heap
  live : List ArenaBlock

def ArenaState.arena (s : ArenaState) : SecureArena := s.run.st.arena

def ArenaState.mem (s : ArenaState) : Nat → UInt8 := s.run.st.mem

/-- A call of the program, or its own write into a block. -/
inductive ArenaOp where
  | alloc (size : UInt64)
  | allocCanary (size : UInt64) (random : Nat → UInt8)
  | write (block : ArenaBlock) (pos : Nat) (data : Bytes)
  | save
  | restore (saved : UInt64)

inductive ArenaReply where
  | ptr (p : Option Nat)
  | offset (n : Nat)
  | done
deriving DecidableEq, Repr

/-- Writes stay inside a live block. -/
def ArenaOp.InBounds (s : ArenaState) : ArenaOp → Prop
  | write block pos data => block ∈ s.live ∧ pos + data.length ≤ block.size
  | _ => True

/-- The live blocks after an allocation. -/
def taken (live : List ArenaBlock) (p : Option Nat) (size : Nat) : List ArenaBlock :=
  match p with
  | none => live
  | some p => ⟨p, size⟩ :: live

/-- The blocks that lie below the offset. -/
def kept (a : SecureArena) (live : List ArenaBlock) : List ArenaBlock :=
  live.filter fun b => decide (b.ptr + b.size ≤ a.start + a.offset)

/-- One step; `none` is an abort. -/
def arenaStep : ArenaOp → ArenaState → Option (ArenaReply × ArenaState)
  | .alloc size, s => do
      let (p, r) ← arenaAlloc size.toNat s.run
      pure (.ptr p, ⟨r, taken s.live p size.toNat⟩)
  | .allocCanary size random, s => do
      let (p, r) ← arenaAllocCanary size.toNat random s.run
      pure (.ptr p, ⟨r, taken s.live p size.toNat⟩)
  | .write block pos data, s =>
      let mem := fillAt s.mem (block.ptr + pos) data.length fun i => data.getD i 0
      some (.done, { s with run := { s.run with st := { s.run.st with mem := mem } } })
  | .save, s => do
      let (n, r) ← arenaSave s.run
      pure (.offset n, { s with run := r })
  | .restore saved, s => do
      let (_, r) ← arenaRestore saved.toNat s.run
      pure (.done, ⟨r, kept r.st.arena s.live⟩)

/-- A step of a program that keeps to its blocks. -/
def ArenaStep (s s' : ArenaState) : Prop :=
  ∃ op reply, op.InBounds s ∧ arenaStep op s = some (reply, s')

/-- `s'` is reached from `s`. -/
def ArenaRun : ArenaState → ArenaState → Prop :=
  Relation.ReflTransGen ArenaStep

/-- Where a live block lies. -/
structure ArenaBlock.Placed (a : SecureArena) (b : ArenaBlock) : Prop where
  start_le : a.start ≤ b.ptr
  aligned : 16 ∣ b.ptr - a.start
  end_le : b.ptr + b.size ≤ a.start + a.offset

structure ArenaState.Sound (s : ArenaState) : Prop where
  unwrapped : s.run.wrapped = false
  fresh : s.run.st.Fresh
  placed : ∀ b ∈ s.live, b.Placed s.arena
  disjoint : s.live.Pairwise ArenaBlock.Disjoint

/-- A restore of an aligned offset that is not ahead of the current one zeroes what lies between
them and nothing else; any other restore is refused. -/
def RestoreEffect (s : ArenaState) (saved : Nat) (s' : ArenaState) : Prop :=
  if 16 ∣ saved ∧ saved ≤ s.arena.offset then
    s'.arena = { s.arena with offset := saved } ∧
    (∀ x, s.arena.start + saved ≤ x → x < s.arena.start + s.arena.offset → s'.mem x = 0) ∧
    (∀ x, x < s.arena.start + saved ∨ s.arena.start + s.arena.offset ≤ x →
      s'.mem x = s.mem x) ∧
    ∀ b, b ∈ s'.live ↔ b ∈ s.live ∧ b.ptr + b.size ≤ s.arena.start + saved
  else s' = s

/-- What a step does, apart from keeping the invariant. -/
def ArenaOp.Effect (s : ArenaState) : ArenaOp → ArenaReply → ArenaState → Prop
  | alloc size, .ptr none, s' =>
      s' = s ∧ ¬ (0 < size.toNat ∧ s.arena.Room size.toNat)
  | alloc size, .ptr (some p), s' =>
      s'.live = ⟨p, size.toNat⟩ :: s.live ∧ s'.mem = s.mem ∧ ∀ i < size.toNat, s'.mem (p + i) = 0
  | allocCanary size _, .ptr none, s' =>
      s' = s ∧ ¬ (0 < size.toNat ∧ s.arena.Room size.toNat)
  | allocCanary size random, .ptr (some p), s' =>
      s'.live = ⟨p, size.toNat⟩ :: s.live ∧ s'.mem = fillAt s.mem p size.toNat random
  | write block pos data, .done, s' =>
      s'.live = s.live ∧ s'.arena = s.arena ∧
        s'.mem = fillAt s.mem (block.ptr + pos) data.length fun i => data.getD i 0
  | save, .offset n, s' => s' = s ∧ n = s.arena.offset
  | restore saved, .done, s' => RestoreEffect s saved.toNat s'
  | _, _, _ => False

section Steps

variable {s : ArenaState}

/-- The block that an allocation hands out lies behind the other blocks. -/
theorem taken_sound (hs : s.Sound) {size : Nat} {r : Run Heap}
    (hwrap : r.wrapped = false) (hfresh : r.st.Fresh)
    (harena : r.st.arena = { s.arena with offset := s.arena.offset + alignedSize size }) :
    ArenaState.Sound ⟨r, ⟨s.arena.start + s.arena.offset, size⟩ :: s.live⟩ := by
  have hround : size ≤ alignedSize size := le_roundUp (by decide) size
  have hstart : r.st.arena.start = s.arena.start := by
    rw [harena]
    rfl
  have hoffset : r.st.arena.offset = s.arena.offset + alignedSize size := by
    rw [harena]
  constructor
  · exact hwrap
  · exact hfresh
  · intro b hb
    show b.Placed r.st.arena
    rcases List.mem_cons.1 hb with rfl | hb
    · constructor
      · rw [hstart]
        exact Nat.le_add_right _ _
      · rw [hstart, Nat.add_sub_cancel_left]
        exact hs.fresh.mapped.offset_dvd
      · rw [hstart, hoffset]
        show s.arena.start + s.arena.offset + size ≤ _
        omega
    · have hplaced := hs.placed b hb
      constructor
      · rw [hstart]
        exact hplaced.start_le
      · rw [hstart]
        exact hplaced.aligned
      · have hend := hplaced.end_le
        rw [hstart, hoffset]
        omega
  · refine List.Pairwise.cons ?_ hs.disjoint
    intro b hb
    exact Or.inr (hs.placed b hb).end_le

/-- The bytes of the area that is handed out are still zero. -/
theorem bump_zero (hs : s.Sound) {size : Nat} (hroom : s.arena.Room size) :
    ∀ i < size, s.mem (s.arena.start + s.arena.offset + i) = 0 := by
  intro i hi
  have hround : size ≤ alignedSize size := le_roundUp (by decide) size
  have hle : s.arena.offset + alignedSize size ≤ s.arena.usableSize := hroom
  exact hs.fresh.clean _ (Nat.le_add_right _ _)
    (show s.arena.start + s.arena.offset + i < s.arena.start + s.arena.usableSize by omega)

theorem alloc_step (hs : s.Sound) (size : UInt64) :
    ∃ reply s', arenaStep (.alloc size) s = some (reply, s') ∧ s'.Sound ∧
      (ArenaOp.alloc size).Effect s reply s' := by
  have hrun := arenaAlloc_run hs.fresh.mapped hs.fresh.canary size.toNat_lt
  by_cases hok : 0 < size.toNat ∧ s.arena.Room size.toNat
  · have hok' : 0 < size.toNat ∧ s.run.st.arena.Room size.toNat := hok
    rw [if_pos hok'] at hrun
    refine ⟨.ptr (some (s.arena.start + s.arena.offset)),
      ⟨{ s.run with st := s.run.st.bump size.toNat },
        ⟨s.arena.start + s.arena.offset, size.toNat⟩ :: s.live⟩, ?_, ?_, ?_⟩
    · simp only [arenaStep, hrun, Option.bind_eq_bind, Option.bind_some]
      rfl
    · exact taken_sound hs hs.unwrapped (hs.fresh.bump hok.2) rfl
    · exact ⟨rfl, rfl, bump_zero hs hok.2⟩
  · have hok' : ¬ (0 < size.toNat ∧ s.run.st.arena.Room size.toNat) := hok
    rw [if_neg hok'] at hrun
    refine ⟨.ptr none, s, ?_, hs, rfl, hok⟩
    simp only [arenaStep, hrun, Option.bind_eq_bind, Option.bind_some]
    rfl

theorem allocCanary_step (hs : s.Sound) (size : UInt64) (random : Nat → UInt8) :
    ∃ reply s', arenaStep (.allocCanary size random) s = some (reply, s') ∧ s'.Sound ∧
      (ArenaOp.allocCanary size random).Effect s reply s' := by
  have hrun := arenaAlloc_run hs.fresh.mapped hs.fresh.canary size.toNat_lt
  have hround : size.toNat ≤ alignedSize size.toNat := le_roundUp (by decide) size.toNat
  by_cases hok : 0 < size.toNat ∧ s.arena.Room size.toNat
  · have hok' : 0 < size.toNat ∧ s.run.st.arena.Room size.toNat := hok
    rw [if_pos hok'] at hrun
    have hfill : (s.run.st.bump size.toNat).arena.start + (s.run.st.bump size.toNat).arena.offset =
        s.arena.start + (s.arena.offset + alignedSize size.toNat) := rfl
    refine ⟨.ptr (some (s.arena.start + s.arena.offset)),
      ⟨{ s.run with
          st :=
            { s.run.st.bump size.toNat with
              mem := fillAt s.mem (s.arena.start + s.arena.offset) size.toNat random } },
        ⟨s.arena.start + s.arena.offset, size.toNat⟩ :: s.live⟩, ?_, ?_, ?_⟩
    · simp only [arenaStep, arenaAllocCanary]
      rw [run_bind_of_run hrun]
      rfl
    · refine taken_sound hs hs.unwrapped ?_ rfl
      apply (hs.fresh.bump hok.2).fill
      rw [hfill]
      omega
    · exact ⟨rfl, rfl⟩
  · have hok' : ¬ (0 < size.toNat ∧ s.run.st.arena.Room size.toNat) := hok
    rw [if_neg hok'] at hrun
    refine ⟨.ptr none, s, ?_, hs, rfl, hok⟩
    simp only [arenaStep, arenaAllocCanary]
    rw [run_bind_of_run hrun]
    rfl

theorem write_step (hs : s.Sound) {block : ArenaBlock} {pos : Nat} {data : Bytes}
    (hin : (ArenaOp.write block pos data).InBounds s) :
    ∃ reply s', arenaStep (.write block pos data) s = some (reply, s') ∧ s'.Sound ∧
      (ArenaOp.write block pos data).Effect s reply s' := by
  obtain ⟨hmem, hpos⟩ := hin
  have hend := (hs.placed block hmem).end_le
  refine ⟨.done, _, rfl, ?_, rfl, rfl, rfl⟩
  exact
    { unwrapped := hs.unwrapped
      fresh := hs.fresh.fill (by
        show _ ≤ s.arena.start + s.arena.offset
        omega)
      placed := hs.placed
      disjoint := hs.disjoint }

theorem save_step (hs : s.Sound) :
    ∃ reply s', arenaStep .save s = some (reply, s') ∧ s'.Sound ∧ ArenaOp.save.Effect s reply s' :=
  ⟨.offset s.arena.offset, s, rfl, hs, rfl, rfl⟩

theorem kept_eq_self {a : SecureArena} {live : List ArenaBlock} (h : ∀ b ∈ live, b.Placed a) :
    kept a live = live := by
  unfold kept
  apply List.filter_eq_self.2
  intro b hb
  exact decide_eq_true (h b hb).end_le

theorem mem_kept {a : SecureArena} {live : List ArenaBlock} {b : ArenaBlock} :
    b ∈ kept a live ↔ b ∈ live ∧ b.ptr + b.size ≤ a.start + a.offset := by
  unfold kept
  rw [List.mem_filter, decide_eq_true_iff]

theorem restore_step (hs : s.Sound) (saved : UInt64) :
    ∃ reply s', arenaStep (.restore saved) s = some (reply, s') ∧ s'.Sound ∧
      (ArenaOp.restore saved).Effect s reply s' := by
  have hrun := arenaRestore_run saved.toNat hs.fresh.mapped hs.fresh.canary
  by_cases hok : 16 ∣ saved.toNat ∧ saved.toNat ≤ s.arena.offset
  · have hok' : 16 ∣ saved.toNat ∧ saved.toNat ≤ s.run.st.arena.offset := hok
    rw [if_pos hok'] at hrun
    refine ⟨.done, ⟨{ s.run with st := s.run.st.unwind saved.toNat },
      kept { s.arena with offset := saved.toNat } s.live⟩, ?_, ?_, ?_⟩
    · simp only [arenaStep, hrun]
      rfl
    · constructor
      · exact hs.unwrapped
      · exact hs.fresh.unwind hok.1 hok.2
      · intro b hb
        obtain ⟨hlive, hend⟩ := mem_kept.1 hb
        have hplaced := hs.placed b hlive
        exact { start_le := hplaced.start_le, aligned := hplaced.aligned, end_le := hend }
      · exact hs.disjoint.filter _
    · have hle := hok.2
      change RestoreEffect s saved.toNat _
      unfold RestoreEffect
      rw [if_pos hok]
      refine ⟨rfl, ?_, ?_, fun b => mem_kept⟩
      · intro x hlow hhigh
        change fillAt s.mem (s.arena.start + saved.toNat) (s.arena.offset - saved.toNat)
          (fun _ => 0) x = 0
        exact fillAt_of_mem hlow (by omega)
      · intro x hx
        change fillAt s.mem (s.arena.start + saved.toNat) (s.arena.offset - saved.toNat)
          (fun _ => 0) x = s.mem x
        rcases hx with hlow | hhigh
        · exact fillAt_of_lt hlow
        · exact fillAt_of_ge (by omega)
  · have hok' : ¬ (16 ∣ saved.toNat ∧ saved.toNat ≤ s.run.st.arena.offset) := hok
    rw [if_neg hok'] at hrun
    refine ⟨.done, s, ?_, hs, ?_⟩
    · have hkept := kept_eq_self hs.placed
      have hkept' : kept s.run.st.arena s.live = s.live := hkept
      simp only [arenaStep, hrun, Option.bind_eq_bind, Option.bind_some, hkept']
      rfl
    · change RestoreEffect s saved.toNat s
      unfold RestoreEffect
      rw [if_neg hok]

/-- A step of a program that keeps to its blocks does not abort, keeps the invariant and does what
its call says. -/
theorem arenaStep_sound (hs : s.Sound) {op : ArenaOp} (hin : op.InBounds s) :
    ∃ reply s', arenaStep op s = some (reply, s') ∧ s'.Sound ∧ op.Effect s reply s' := by
  cases op with
  | alloc size => exact alloc_step hs size
  | allocCanary size random => exact allocCanary_step hs size random
  | write block pos data => exact write_step hs hin
  | save => exact save_step hs
  | restore saved => exact restore_step hs saved

end Steps

theorem arenaRun_sound {s s' : ArenaState} (hs : s.Sound) (hrun : ArenaRun s s') : s'.Sound := by
  induction hrun with
  | refl => exact hs
  | tail _ hstep ih =>
      obtain ⟨op, reply, hin, hstep⟩ := hstep
      obtain ⟨reply', s'', hstep', hsound, -⟩ := arenaStep_sound ih hin
      rw [hstep] at hstep'
      cases hstep'
      exact hsound

/-- The functions of the arena on a state, and where its live blocks lie. -/
structure ArenaState.Holds (s : ArenaState) : Prop where
  /-- No size has wrapped. -/
  unwrapped : s.run.wrapped = false
  /-- `arena_is_valid` returns true, and nothing wraps in it. -/
  valid : arenaIsValid s.arena s.run = some (true, s.run)
  /-- `arena_check_canary` returns. -/
  checked : arenaCheckCanary s.run = some ((), s.run)
  /-- The canary of the struct stands behind the usable area. -/
  canary : bytesAt s.mem (s.arena.start + s.arena.usableSize) noxCanaryLen = s.arena.canary.toList
  /-- A live block is aligned relative to the base and lies in the usable area. -/
  inside : ∀ b ∈ s.live, 16 ∣ b.ptr - s.arena.base ∧ s.arena.start ≤ b.ptr ∧
    b.ptr + b.size ≤ s.arena.start + s.arena.usableSize
  /-- Live blocks do not overlap. -/
  disjoint : s.live.Pairwise ArenaBlock.Disjoint

theorem ArenaState.Sound.holds {s : ArenaState} (hs : s.Sound) : s.Holds where
  unwrapped := hs.unwrapped
  valid := by
    have hvalid : arenaIsValid s.arena = pure true := arenaIsValid_eq hs.fresh.mapped
    rw [hvalid, run_pure]
  checked := arenaCheckCanary_run hs.fresh.mapped hs.fresh.canary
  canary := hs.fresh.canary
  inside := by
    intro b hb
    have hplaced := hs.placed b hb
    have hoffset : s.arena.offset ≤ s.arena.usableSize := hs.fresh.mapped.offset_le
    have hend := hplaced.end_le
    have hstart : s.arena.base + s.arena.pageSize ≤ b.ptr := hplaced.start_le
    have haligned : 16 ∣ b.ptr - (s.arena.base + s.arena.pageSize) := hplaced.aligned
    have hpage : 16 ∣ s.arena.pageSize := hs.fresh.mapped.page_dvd
    exact ⟨by omega, hplaced.start_le, by omega⟩
  disjoint := hs.disjoint

/-- From a successful `arena_init` on, whatever the program calls and writes into its blocks: the
struct stays valid, no size wraps, the canary is intact, the live blocks are aligned, inside the
usable area and disjoint, and every further step returns and has its effect. -/
theorem arena_invariant {os : ArenaOs} (hos : os.Lawful) (size : UInt64) (heap : Heap)
    {r : Run Heap} (hinit : arenaInit os size.toNat { st := heap } = some (.ok (), r))
    {s : ArenaState} (hrun : ArenaRun ⟨r, []⟩ s) :
    s.Holds ∧ ∀ op, ArenaOp.InBounds s op →
      ∃ reply s', arenaStep op s = some (reply, s') ∧ s'.Holds ∧ op.Effect s reply s' := by
  obtain ⟨hwrap, hfresh⟩ := arenaInit_ok hos size.toNat_lt hinit
  have hstart : ArenaState.Sound ⟨r, []⟩ :=
    { unwrapped := hwrap
      fresh := hfresh
      placed := fun b hb => by simp at hb
      disjoint := List.Pairwise.nil }
  have hs := arenaRun_sound hstart hrun
  refine ⟨hs.holds, ?_⟩
  intro op hin
  obtain ⟨reply, s', hstep, hsound, heffect⟩ := arenaStep_sound hs hin
  exact ⟨reply, s', hstep, hsound.holds, heffect⟩

/-- Pages of 4096 bytes, and a mapping at 65536. -/
def smallOs : ArenaOs where
  sodiumInit := 0
  sysconf := 4096
  mmap := fun total => if total < 2 ^ 32 then some 65536 else none
  mlock := fun _ _ => true
  dontfork := true
  dontdump := true
  lowerGuard := true
  upperGuard := true
  random := Block.zero 16

theorem smallOs_lawful : smallOs.Lawful where
  sysconf_lt := by decide
  page_dvd := by decide
  mmap_base := by
    intro total base hmap
    have hmap' : (if total < 2 ^ 32 then some 65536 else none) = some base := hmap
    split at hmap'
    · cases hmap'
      refine ⟨by decide, by decide, by omega⟩
    · cases hmap'

/-- The live blocks after the arena is set up for 64 bytes and one block is taken. -/
def smallLive (size : UInt64) : Option (List ArenaBlock) :=
  match arenaInit smallOs (64 : UInt64).toNat { st := ⟨SecureArena.zero, fun _ => 7⟩ } with
  | some (.ok (), r) => (arenaStep (.alloc size) ⟨r, []⟩).map fun p => p.2.live
  | _ => none

theorem arena_invariant_small : ∃ r s,
    arenaInit smallOs (64 : UInt64).toNat { st := ⟨SecureArena.zero, fun _ => 7⟩ } =
      some (.ok (), r) ∧
    ArenaRun ⟨r, []⟩ s ∧ s.live = [⟨69632, 20⟩] ∧ s.Holds := by
  have hlive : smallLive 20 = some [⟨69632, 20⟩] := by decide +kernel
  unfold smallLive at hlive
  split at hlive
  · rename_i r hinit
    obtain ⟨⟨reply, s⟩, hstep, hblocks⟩ := Option.map_eq_some_iff.1 hlive
    have hrun : ArenaRun ⟨r, []⟩ s :=
      Relation.ReflTransGen.single ⟨.alloc 20, reply, trivial, hstep⟩
    exact ⟨r, s, hinit, hrun, hblocks, (arena_invariant smallOs_lawful 64 _ hinit hrun).1⟩
  · cases hlive

end Boot
end Noxtor
