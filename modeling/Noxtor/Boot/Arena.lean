import Mathlib.Data.List.GetD
import Noxtor.Common
import Noxtor.Lib.SizeArith

/-!
# The secure arena

The allocator of `arena.c`: a lower guard page, the usable area, a canary, an upper guard page.
Sizes and addresses are those of a 64-bit machine, computed with the operations of
`Noxtor.Lib.SizeArith`, which record a wrap; `secure_abort` and a failed assertion are aborts.
The pointer to the struct is never `NULL`, and what is only logged is computed and dropped.
-/

namespace Noxtor
namespace Boot

open ByteString
open SizeArith

def noxCanaryLen : Nat := 16

/-- `struct secure_arena`.  A `nox_hardbool_t` holds one of two values, as a `Bool` does. -/
structure SecureArena where
  base : Nat
  totalSize : Nat
  usableSize : Nat
  offset : Nat
  pageSize : Nat
  forkSafe : Bool
  dumpSafe : Bool
  locked : Bool
  canary : Block 16
deriving DecidableEq

/-- The struct after `sodium_memzero`. -/
def SecureArena.zero : SecureArena :=
  { base := 0, totalSize := 0, usableSize := 0, offset := 0, pageSize := 0
    forkSafe := false, dumpSafe := false, locked := false, canary := Block.zero 16 }

/-- The struct and the bytes of the memory, by address. -/
structure Heap where
  arena : SecureArena
  mem : Nat → UInt8

abbrev ArenaM := SizeM Heap

/-- `count` bytes from `p` on are overwritten. -/
def fillAt (mem : Nat → UInt8) (p count : Nat) (value : Nat → UInt8) : Nat → UInt8 :=
  fun x => if p ≤ x ∧ x < p + count then value (x - p) else mem x

/-- The `count` bytes from `p` on. -/
def bytesAt (mem : Nat → UInt8) (p count : Nat) : Bytes :=
  (List.range count).map fun i => mem (p + i)

/-- `get_page_size`, from what `sysconf(_SC_PAGESIZE)` returns. -/
def getPageSize (sysconf : Int) : Nat :=
  if sysconf ≤ 0 then 0 else sysconf.toNat

/-- `page_align`. -/
def pageAlign (size pageSize : Nat) : ArenaM Nat := do
  if pageSize = 0 then pure 0
  else
    let mask ← sub pageSize 1
    if pageSize &&& mask ≠ 0 then pure 0
    else
      let mask ← sub pageSize 1
      let limit ← sub sizeMax mask
      if size > limit then pure 0
      else
        -- C adds the page size first and takes one away from the sum.
        let sum ← add size pageSize
        let sum ← sub sum 1
        let mask ← sub pageSize 1
        pure (sum &&& complement mask)

/-- The part of `arena_is_valid` about the sizes of the mapping. -/
def arenaSizesValid (a : SecureArena) : ArenaM Bool := do
  if a.usableSize = 0 ∨ a.usableSize ≥ a.totalSize then pure false
  else if a.pageSize > sizeMax / 2 then pure false
  else
    let guardTotal ← mul 2 a.pageSize
    if a.totalSize < guardTotal then pure false
    else
      let limit ← sub sizeMax noxCanaryLen
      if a.usableSize > limit then pure false
      else
        let usable ← add a.usableSize noxCanaryLen
        if usable % a.pageSize ≠ 0 then pure false
        else
          let limit ← sub sizeMax guardTotal
          if usable > limit then pure false
          else
            let total ← add usable guardTotal
            if a.totalSize ≠ total then pure false
            else if a.offset > a.usableSize then pure false
            else if a.offset &&& 15 ≠ 0 then pure false
            else if a.forkSafe ≠ false ∧ a.forkSafe ≠ true then pure false
            else if a.dumpSafe ≠ false ∧ a.dumpSafe ≠ true then pure false
            else pure true

/-- `arena_is_valid`. -/
def arenaIsValid (a : SecureArena) : ArenaM Bool := do
  if a.base = 0 ∨ a.pageSize = 0 then pure false
  else
    let mask ← sub a.pageSize 1
    if a.pageSize &&& mask ≠ 0 then pure false
    else if a.base % a.pageSize ≠ 0 then pure false
    else arenaSizesValid a

/-- What libsodium and the kernel answer while an arena is set up. -/
structure ArenaOs where
  sodiumInit : Int
  sysconf : Int
  /-- The address of a mapping of that many bytes, if there is one. -/
  mmap : Nat → Option Nat
  mlock : Nat → Nat → Bool
  dontfork : Bool
  dontdump : Bool
  lowerGuard : Bool
  upperGuard : Bool
  random : Block 16

/-- The size computation: the usable area with its canary, and the whole mapping.  `none` is
`NOX_ERR_ALLOC`. -/
def arenaSizes (size pageSize : Nat) : ArenaM (Option (Nat × Nat)) := do
  let limit ← sub sizeMax noxCanaryLen
  if size > limit then pure none
  else
    let raw ← add size noxCanaryLen
    let usable ← pageAlign raw pageSize
    if usable = 0 then pure none
    else
      let guards ← mul 2 pageSize
      let limit ← sub sizeMax guards
      if usable > limit then pure none
      else
        let total ← add pageSize usable
        let total ← add total pageSize
        pure (some (usable, total))

/-- A failure after `mmap`: the mapping is given back and the struct is zeroed. -/
def arenaFail : ArenaM (Except NoxErr Unit) := do
  update fun h => { h with arena := SecureArena.zero }
  pure (.error .alloc)

/-- The struct is filled in, and the canary goes behind the usable area. -/
def arenaFill (os : ArenaOs) (base pageSize usable total : Nat) : ArenaM (Except NoxErr Unit) := do
  let usableSize ← sub usable noxCanaryLen
  update fun h =>
    { h with
      arena :=
        { h.arena with
          base := base, totalSize := total, usableSize := usableSize, offset := 0
          pageSize := pageSize, locked := true } }
  update fun h => { h with arena := { h.arena with canary := os.random } }
  let start ← add base pageSize
  let canaryPos ← add start usableSize
  update fun h =>
    { h with mem := fillAt h.mem canaryPos noxCanaryLen fun i => os.random.toList.getD i 0 }
  pure (.ok ())

/-- What follows a successful `mmap`, under `NOX_ARENA_STRICT_LOCK`. -/
def arenaMap (os : ArenaOs) (base pageSize usable total : Nat) : ArenaM (Except NoxErr Unit) := do
  update fun h => { h with mem := fillAt h.mem base total fun _ => 0 }
  let usableStart ← add base pageSize
  if ¬ os.mlock usableStart usable then arenaFail
  else
    update fun h =>
      { h with arena := { h.arena with forkSafe := os.dontfork, dumpSafe := os.dontdump } }
    if ¬ os.lowerGuard then arenaFail
    else
      let upper ← add base pageSize
      let _ ← add upper usable
      if ¬ os.upperGuard then arenaFail
      else arenaFill os base pageSize usable total

/-- `arena_init`. -/
def arenaInit (os : ArenaOs) (size : Nat) : ArenaM (Except NoxErr Unit) := do
  if size = 0 then pure (.error .alloc)
  else if os.sodiumInit < 0 then pure (.error .alloc)
  else
    let pageSize := getPageSize os.sysconf
    if pageSize = 0 then pure (.error .alloc)
    else
      match ← arenaSizes size pageSize with
      | none => pure (.error .alloc)
      | some (usable, total) =>
          match os.mmap total with
          | none => pure (.error .alloc)
          | some base => arenaMap os base pageSize usable total

/-- `arena_check_canary`. -/
def arenaCheckCanary : ArenaM Unit := do
  let a ← read Heap.arena
  if a.base = 0 then pure ()
  else
    let valid ← arenaIsValid a
    if ¬ valid then abort
    else
      let start ← add a.base a.pageSize
      let canaryPos ← add start a.usableSize
      if canaryPos < start then abort
      else
        let canaryEnd ← add canaryPos noxCanaryLen
        let upper ← add a.base a.totalSize
        let upper ← sub upper a.pageSize
        if canaryEnd > upper then abort
        else
          let found ← read fun h => bytesAt h.mem canaryPos noxCanaryLen
          if found ≠ a.canary.toList then abort else pure ()

/-- The part of `arena_alloc` behind the check of the canary. -/
def arenaBump (size : Nat) : ArenaM (Option Nat) := do
  let a ← read Heap.arena
  -- `assert(a->offset <= a->usable_size)`
  if ¬ a.offset ≤ a.usableSize then abort
  else
    let limit ← sub sizeMax 15
    if size > limit then pure none
    else
      let sum ← add size 15
      let alignedSize := sum &&& complement 15
      let limit ← sub sizeMax a.offset
      if alignedSize > limit then pure none
      else
        let newOffset ← add a.offset alignedSize
        if newOffset > a.usableSize then
          -- The remaining size of the message.
          if a.usableSize > a.offset then
            let _ ← sub a.usableSize a.offset
            pure none
          else pure none
        else
          let start ← add a.base a.pageSize
          let ptr ← add start a.offset
          let newOffset ← add a.offset alignedSize
          update fun h => { h with arena := { h.arena with offset := newOffset } }
          let _ ← sub a.usableSize newOffset
          pure (some ptr)

/-- `arena_alloc`; `none` is `NULL`. -/
def arenaAlloc (size : Nat) : ArenaM (Option Nat) := do
  let a ← read Heap.arena
  if a.base = 0 ∨ size = 0 then pure none
  else
    arenaCheckCanary
    arenaBump size

/-- `arena_alloc_canary`, with the bytes that `randombytes_buf` gives. -/
def arenaAllocCanary (size : Nat) (random : Nat → UInt8) : ArenaM (Option Nat) := do
  match ← arenaAlloc size with
  | none => pure none
  | some ptr =>
      update fun h => { h with mem := fillAt h.mem ptr size random }
      pure (some ptr)

/-- `arena_save`. -/
def arenaSave : ArenaM Nat :=
  read fun h => h.arena.offset

/-- The part of `arena_restore` behind the check of the canary. -/
def arenaUnwind (savedOffset : Nat) : ArenaM Unit := do
  let a ← read Heap.arena
  if a.offset > a.usableSize then abort
  else if savedOffset > a.usableSize then pure ()
  else if savedOffset % 16 ≠ 0 then pure ()
  else if savedOffset > a.offset then pure ()
  else if savedOffset = a.offset then pure ()
  else
    let usable ← add a.base a.pageSize
    let wipeLen ← sub a.offset savedOffset
    let start ← add usable savedOffset
    update fun h => { h with mem := fillAt h.mem start wipeLen fun _ => 0 }
    update fun h => { h with arena := { h.arena with offset := savedOffset } }

/-- `arena_restore`. -/
def arenaRestore (savedOffset : Nat) : ArenaM Unit := do
  let a ← read Heap.arena
  if a.base = 0 then pure ()
  else
    arenaCheckCanary
    arenaUnwind savedOffset

/-- The area that blocks are taken from. -/
def SecureArena.start (a : SecureArena) : Nat := a.base + a.pageSize

/-- What `arena_is_valid` tests, and that the mapping lies inside the address space. -/
structure SecureArena.Mapped (a : SecureArena) : Prop where
  base_ne : a.base ≠ 0
  page_pow : ∃ k, a.pageSize = 2 ^ k
  page_dvd : 16 ∣ a.pageSize
  base_dvd : a.pageSize ∣ a.base
  usable_pos : 0 < a.usableSize
  usable_dvd : a.pageSize ∣ a.usableSize + noxCanaryLen
  total_eq : a.totalSize = a.usableSize + noxCanaryLen + 2 * a.pageSize
  fits : a.base + a.totalSize < 2 ^ 64
  offset_le : a.offset ≤ a.usableSize
  offset_dvd : 16 ∣ a.offset

namespace SecureArena.Mapped

variable {a : SecureArena}

theorem page_pos (h : a.Mapped) : 0 < a.pageSize := by
  obtain ⟨k, hk⟩ := h.page_pow
  rw [hk]
  exact Nat.two_pow_pos k

/-- The sizes of the mapping as one chain of inequalities. -/
theorem bounds (h : a.Mapped) :
    a.start + a.usableSize + 16 + a.pageSize < 2 ^ 64 ∧ a.offset ≤ a.usableSize := by
  have hfits := h.fits
  rw [h.total_eq] at hfits
  unfold noxCanaryLen at hfits
  unfold start
  exact ⟨by omega, h.offset_le⟩

theorem page_and (h : a.Mapped) : a.pageSize &&& (a.pageSize - 1) = 0 :=
  (and_pred_eq_zero_iff h.page_pos.ne').2 h.page_pow

end SecureArena.Mapped

theorem arenaSizesValid_eq {a : SecureArena} (h : a.Mapped) : arenaSizesValid a = pure true := by
  have hmax := sizeMax_eq
  have hfits := h.fits
  have htotal := h.total_eq
  have hpos := h.page_pos
  have husable := h.usable_pos
  have hcanary : noxCanaryLen = 16 := rfl
  have hmod : (a.usableSize + noxCanaryLen) % a.pageSize = 0 := Nat.mod_eq_zero_of_dvd h.usable_dvd
  have hand : a.offset &&& 15 = 0 := by
    rw [show 15 = 2 ^ 4 - 1 from rfl, Nat.and_two_pow_sub_one_eq_mod]
    exact Nat.mod_eq_zero_of_dvd h.offset_dvd
  unfold arenaSizesValid
  rw [if_neg (by omega), if_neg (by omega), mul_eq_pure (by omega), pure_bind,
    if_neg (by omega), sub_eq_pure (by omega) (by omega), pure_bind,
    if_neg (by omega), add_eq_pure (by omega), pure_bind, if_neg (by simp [hmod]),
    sub_eq_pure (by omega) (by omega), pure_bind,
    if_neg (by omega), add_eq_pure (by omega), pure_bind, if_neg (by simp [htotal]),
    if_neg (Nat.not_lt.2 h.offset_le), if_neg (by simp [hand]), if_neg (by simp), if_neg (by simp)]

theorem arenaIsValid_eq {a : SecureArena} (h : a.Mapped) : arenaIsValid a = pure true := by
  have hbounds := h.bounds
  have hpos := h.page_pos
  have hne : ¬ (a.base = 0 ∨ a.pageSize = 0) := by
    rintro (hbase | hpage)
    · exact h.base_ne hbase
    · omega
  have hmod : a.base % a.pageSize = 0 := Nat.mod_eq_zero_of_dvd h.base_dvd
  unfold arenaIsValid
  rw [if_neg hne, sub_eq_pure (by omega) (by omega), pure_bind, if_neg (by simp [h.page_and]),
    if_neg (by simp [hmod]), arenaSizesValid_eq h]

/-- The bytes behind the usable area are the canary of the struct. -/
def Heap.CanaryIntact (h : Heap) : Prop :=
  bytesAt h.mem (h.arena.start + h.arena.usableSize) noxCanaryLen = h.arena.canary.toList

/-- With a sound mapping and an intact canary the check passes, and nothing wraps. -/
theorem arenaCheckCanary_run {r : Run Heap} (h : r.st.arena.Mapped) (hc : r.st.CanaryIntact) :
    arenaCheckCanary r = some ((), r) := by
  have hbounds := h.bounds
  have hfits := h.fits
  have htotal := h.total_eq
  unfold SecureArena.start at hbounds
  have hcanary : noxCanaryLen = 16 := rfl
  unfold Heap.CanaryIntact SecureArena.start at hc
  unfold arenaCheckCanary
  rw [run_read_bind, if_neg h.base_ne, arenaIsValid_eq h, pure_bind, if_neg (by simp),
    add_eq_pure (by omega), pure_bind, add_eq_pure (by omega), pure_bind, if_neg (by omega),
    add_eq_pure (by omega), pure_bind, add_eq_pure (by omega), pure_bind,
    sub_eq_pure (by omega) (by omega), pure_bind, if_neg (by omega), run_read_bind,
    if_neg (not_not.2 hc), run_pure]

/-- What an allocation of `size` bytes takes of the area. -/
def alignedSize (size : Nat) : Nat := roundUp 16 size

theorem and_complement_fifteen {size : Nat} (h : size + 15 < 2 ^ 64) :
    (size + 15) &&& complement 15 = alignedSize size := by
  have hround := and_complement_pred (k := 4) h (by omega)
  exact hround

/-- The offset after an allocation. -/
def Heap.bump (h : Heap) (size : Nat) : Heap :=
  { h with arena := { h.arena with offset := h.arena.offset + alignedSize size } }

/-- There is room for `size` bytes more. -/
def SecureArena.Room (a : SecureArena) (size : Nat) : Prop :=
  a.offset + alignedSize size ≤ a.usableSize

instance (a : SecureArena) (size : Nat) : Decidable (a.Room size) :=
  inferInstanceAs (Decidable (_ ≤ _))

theorem arenaBump_run {r : Run Heap} {size : Nat} (h : r.st.arena.Mapped) (hsize : size < 2 ^ 64) :
    arenaBump size r =
      if r.st.arena.Room size then
        some (some (r.st.arena.start + r.st.arena.offset), { r with st := r.st.bump size })
      else some (none, r) := by
  have hmax := sizeMax_eq
  obtain ⟨hbounds, hoffset⟩ := h.bounds
  unfold SecureArena.start at hbounds
  have hround : size ≤ alignedSize size := le_roundUp (by decide) size
  unfold arenaBump
  rw [run_read_bind, if_neg (not_not.2 hoffset),
    sub_eq_pure (by omega) (by omega), pure_bind]
  by_cases hlimit : size > sizeMax - 15
  · have hroom : ¬ r.st.arena.Room size := by
      unfold SecureArena.Room
      omega
    rw [if_pos hlimit, if_neg hroom, run_pure]
  · have hsum : size + 15 < 2 ^ 64 := by
      omega
    rw [if_neg hlimit, add_eq_pure hsum, pure_bind]
    simp only [and_complement_fifteen hsum]
    rw [sub_eq_pure (by omega) (by omega), pure_bind]
    by_cases hwrap : alignedSize size > sizeMax - r.st.arena.offset
    · have hroom : ¬ r.st.arena.Room size := by
        unfold SecureArena.Room
        omega
      rw [if_pos hwrap, if_neg hroom, run_pure]
    · have hnew : r.st.arena.offset + alignedSize size < 2 ^ 64 := by
        omega
      rw [if_neg hwrap, add_eq_pure hnew, pure_bind]
      by_cases hroom : r.st.arena.Room size
      · have hle : r.st.arena.offset + alignedSize size ≤ r.st.arena.usableSize := hroom
        rw [if_neg (by omega), if_pos hroom, add_eq_pure (by omega), pure_bind,
          add_eq_pure (by omega), pure_bind, pure_bind, run_update_bind,
          sub_eq_pure (by omega) hle, pure_bind, run_pure]
        rfl
      · have hgt : r.st.arena.offset + alignedSize size > r.st.arena.usableSize :=
          Nat.not_le.1 hroom
        rw [if_pos hgt, if_neg hroom]
        by_cases hrest : r.st.arena.usableSize > r.st.arena.offset
        · rw [if_pos hrest, sub_eq_pure (by omega) (by omega), pure_bind, run_pure]
        · rw [if_neg hrest, run_pure]

theorem arenaAlloc_run {r : Run Heap} {size : Nat} (h : r.st.arena.Mapped)
    (hc : r.st.CanaryIntact) (hsize : size < 2 ^ 64) :
    arenaAlloc size r =
      if 0 < size ∧ r.st.arena.Room size then
        some (some (r.st.arena.start + r.st.arena.offset), { r with st := r.st.bump size })
      else some (none, r) := by
  unfold arenaAlloc
  rw [run_read_bind]
  by_cases hzero : size = 0
  · rw [if_pos (Or.inr hzero), if_neg (by omega), run_pure]
  · have hpos : 0 < size := by omega
    have hne : ¬ (r.st.arena.base = 0 ∨ size = 0) := by
      rintro (hbase | hsize)
      · exact h.base_ne hbase
      · exact hzero hsize
    rw [if_neg hne, run_bind_of_run (arenaCheckCanary_run h hc), arenaBump_run h hsize]
    simp only [hpos, true_and]

/-- The heap after a restore that is not refused. -/
def Heap.unwind (h : Heap) (saved : Nat) : Heap :=
  { arena := { h.arena with offset := saved }
    mem := fillAt h.mem (h.arena.start + saved) (h.arena.offset - saved) fun _ => 0 }

theorem fillAt_zero (mem : Nat → UInt8) (p : Nat) (value : Nat → UInt8) :
    fillAt mem p 0 value = mem := by
  funext x
  unfold fillAt
  rw [if_neg (by omega)]

theorem Heap.unwind_self (h : Heap) : h.unwind h.arena.offset = h := by
  unfold Heap.unwind
  rw [Nat.sub_self, fillAt_zero]

theorem arenaRestore_run {r : Run Heap} (saved : Nat) (h : r.st.arena.Mapped)
    (hc : r.st.CanaryIntact) :
    arenaRestore saved r =
      some ((), if 16 ∣ saved ∧ saved ≤ r.st.arena.offset then { r with st := r.st.unwind saved }
        else r) := by
  obtain ⟨hbounds, hoffset⟩ := h.bounds
  unfold SecureArena.start at hbounds
  unfold arenaRestore
  rw [run_read_bind, if_neg h.base_ne, run_bind_of_run (arenaCheckCanary_run h hc)]
  unfold arenaUnwind
  rw [run_read_bind, if_neg (by omega)]
  by_cases husable : saved > r.st.arena.usableSize
  · rw [if_pos husable, if_neg (by omega), run_pure]
  · rw [if_neg husable]
    by_cases hmod : saved % 16 ≠ 0
    · have hdvd : ¬ 16 ∣ saved := fun hdvd => hmod (Nat.mod_eq_zero_of_dvd hdvd)
      rw [if_pos hmod, if_neg (fun hboth => hdvd hboth.1), run_pure]
    · have hdvd : 16 ∣ saved := Nat.dvd_of_mod_eq_zero (not_not.1 hmod)
      rw [if_neg hmod]
      by_cases hgt : saved > r.st.arena.offset
      · rw [if_pos hgt, if_neg (by omega), run_pure]
      · have hle : saved ≤ r.st.arena.offset := by omega
        have hok : 16 ∣ saved ∧ saved ≤ r.st.arena.offset := ⟨hdvd, hle⟩
        rw [if_neg hgt]
        by_cases heq : saved = r.st.arena.offset
        · rw [if_pos heq, run_pure, if_pos hok, heq, Heap.unwind_self]
        · rw [if_neg heq, if_pos hok, add_eq_pure (by omega), pure_bind, sub_eq_pure (by omega) hle,
            pure_bind, add_eq_pure (by omega), pure_bind, run_update_bind]
          rfl

theorem pageAlign_eq_zero {size pageSize : Nat} (hpos : 0 < pageSize) (hp : pageSize < 2 ^ 63)
    (hpow : ¬ ∃ k, pageSize = 2 ^ k) : pageAlign size pageSize = pure 0 := by
  have hand : pageSize &&& (pageSize - 1) ≠ 0 := fun hand =>
    hpow ((and_pred_eq_zero_iff hpos.ne').1 hand)
  unfold pageAlign
  rw [if_neg hpos.ne', sub_eq_pure (by omega) hpos, pure_bind, if_pos hand]

/-- The tests of `page_align` in front of its sum, for a power of two. -/
theorem pageAlign_eq {size k : Nat} (hk : 2 ^ k < 2 ^ 63) :
    pageAlign size (2 ^ k) =
      if size > sizeMax - (2 ^ k - 1) then pure 0
      else
        add size (2 ^ k) >>= fun sum =>
          sub sum 1 >>= fun sum => pure (sum &&& complement (2 ^ k - 1)) := by
  have hmax := sizeMax_eq
  have hpos : 0 < 2 ^ k := Nat.two_pow_pos k
  have hand : 2 ^ k &&& (2 ^ k - 1) = 0 := (and_pred_eq_zero_iff hpos.ne').2 ⟨k, rfl⟩
  unfold pageAlign
  simp only [sub_eq_pure (σ := Heap) (show 2 ^ k < 2 ^ 64 by omega) hpos, pure_bind]
  rw [if_neg hpos.ne', if_neg (not_not.2 hand),
    sub_eq_pure (by omega) (by omega), pure_bind]

theorem exponent_le {k : Nat} (hk : 2 ^ k < 2 ^ 63) : k ≤ 64 := by
  have hlt : k < 63 := (Nat.pow_lt_pow_iff_right (by decide)).1 hk
  omega

theorem pageAlign_eq_pure {size k : Nat} (hk : 2 ^ k < 2 ^ 63) (hsum : size + 2 ^ k < 2 ^ 64) :
    pageAlign size (2 ^ k) = pure (roundUp (2 ^ k) size) := by
  have hmax := sizeMax_eq
  have hpos : 0 < 2 ^ k := Nat.two_pow_pos k
  have hround := and_complement_pred (x := size + 2 ^ k - 1) (by omega) (exponent_le hk)
  rw [pageAlign_eq hk, if_neg (by omega), add_eq_pure hsum, pure_bind,
    sub_eq_pure hsum (by omega), pure_bind, hround]
  rfl

/-- The largest size that passes the test makes the sum wrap and the difference wrap back: the
result is the last page of the address space. -/
theorem pageAlign_run_top {size k : Nat} (hk : 2 ^ k < 2 ^ 63) (hsum : size + 2 ^ k = 2 ^ 64)
    (r : Run Heap) :
    pageAlign size (2 ^ k) r = some (2 ^ 64 - 2 ^ k, { r with wrapped := true }) := by
  have hmax := sizeMax_eq
  have hpos : 0 < 2 ^ k := Nat.two_pow_pos k
  have hlast : complement (2 ^ k - 1) = 2 ^ 64 - 2 ^ k := by
    unfold complement
    omega
  have hand : (2 ^ 64 - 1) &&& (2 ^ 64 - 2 ^ k) = 2 ^ 64 - 2 ^ k := by
    rw [Nat.and_comm, Nat.and_two_pow_sub_one_eq_mod, Nat.mod_eq_of_lt (by omega)]
  rw [pageAlign_eq hk, if_neg (by omega), hlast, run_add_bind, hsum,
    run_sub_bind, run_pure]
  have hvalue : (2 ^ 64 % 2 ^ 64 + 2 ^ 64 - 1) % 2 ^ 64 = 2 ^ 64 - 1 := by decide
  rw [hvalue, hand]
  simp

/-- Sizes that `arena_init` goes on with have been computed without a wrap. -/
theorem arenaSizes_some {size pageSize : Nat} {r r' : Run Heap} {usable total : Nat}
    (hpos : 0 < pageSize) (hp : pageSize < 2 ^ 63) (hsize : size < 2 ^ 64)
    (h : arenaSizes size pageSize r = some (some (usable, total), r')) :
    r' = r ∧ (∃ k, pageSize = 2 ^ k) ∧ usable = roundUp pageSize (size + noxCanaryLen) ∧
      total = usable + 2 * pageSize ∧ total < 2 ^ 64 := by
  have hmax := sizeMax_eq
  have hcanary : noxCanaryLen = 16 := rfl
  unfold arenaSizes at h
  rw [sub_eq_pure (by omega) (by omega), pure_bind] at h
  by_cases hlimit : size > sizeMax - noxCanaryLen
  · rw [if_pos hlimit, run_pure] at h
    cases h
  · have hraw : size + noxCanaryLen < 2 ^ 64 := by
      omega
    rw [if_neg hlimit, add_eq_pure hraw, pure_bind] at h
    by_cases hpow : ∃ k, pageSize = 2 ^ k
    · obtain ⟨k, rfl⟩ := hpow
      rcases Nat.lt_trichotomy (size + noxCanaryLen + 2 ^ k) (2 ^ 64) with hlt | htop | hgt
      · rw [pageAlign_eq_pure hp hlt, pure_bind] at h
        have hround := le_roundUp hpos (size + noxCanaryLen)
        rw [if_neg (by omega), mul_eq_pure (by omega), pure_bind,
          sub_eq_pure (by omega) (by omega), pure_bind] at h
        by_cases hguard : roundUp (2 ^ k) (size + noxCanaryLen) > sizeMax - 2 * 2 ^ k
        · rw [if_pos hguard, run_pure] at h
          cases h
        · have hfit : roundUp (2 ^ k) (size + noxCanaryLen) + 2 * 2 ^ k < 2 ^ 64 := by
            omega
          rw [if_neg hguard, add_eq_pure (by omega), pure_bind, add_eq_pure (by omega),
            pure_bind, run_pure] at h
          cases h
          exact ⟨rfl, ⟨k, rfl⟩, rfl, by omega, by omega⟩
      · -- The wrapped sum is caught by the test for the guard pages.
        rw [run_bind_of_run (pageAlign_run_top hp htop r), if_neg (by omega),
          mul_eq_pure (by omega), pure_bind,
          sub_eq_pure (by omega) (by omega), pure_bind,
          if_pos (by omega), run_pure] at h
        cases h
      · rw [pageAlign_eq hp, if_pos (by omega), pure_bind, if_pos rfl,
          run_pure] at h
        cases h
    · rw [pageAlign_eq_zero hpos hp hpow, pure_bind, if_pos rfl, run_pure] at h
      cases h

theorem fillAt_of_lt {mem : Nat → UInt8} {p count x : Nat} {value : Nat → UInt8} (h : x < p) :
    fillAt mem p count value x = mem x := by
  unfold fillAt
  rw [if_neg (by omega)]

theorem fillAt_of_ge {mem : Nat → UInt8} {p count x : Nat} {value : Nat → UInt8}
    (h : p + count ≤ x) : fillAt mem p count value x = mem x := by
  unfold fillAt
  rw [if_neg (by omega)]

theorem fillAt_of_mem {mem : Nat → UInt8} {p count x : Nat} {value : Nat → UInt8} (hp : p ≤ x)
    (hx : x < p + count) : fillAt mem p count value x = value (x - p) := by
  unfold fillAt
  rw [if_pos ⟨hp, hx⟩]

theorem bytesAt_fillAt_self (mem : Nat → UInt8) (p : Nat) (data : Bytes) :
    bytesAt (fillAt mem p data.length fun i => data.getD i 0) p data.length = data := by
  unfold bytesAt
  apply List.ext_getElem
  · simp
  · intro i hi hdata
    rw [List.getElem_map, List.getElem_range, fillAt_of_mem (by omega) (by omega),
      Nat.add_sub_cancel_left, List.getD_eq_getElem data 0 hdata]

/-- A write in front of some bytes leaves them. -/
theorem bytesAt_fillAt_of_le {mem : Nat → UInt8} {p count q n : Nat} {value : Nat → UInt8}
    (h : p + count ≤ q) : bytesAt (fillAt mem p count value) q n = bytesAt mem q n := by
  unfold bytesAt
  apply List.map_congr_left
  intro i _
  exact fillAt_of_ge (by omega)

/-- The part of the area that is not handed out is zero. -/
def Heap.Clean (h : Heap) : Prop :=
  ∀ x, h.arena.start + h.arena.offset ≤ x → x < h.arena.start + h.arena.usableSize → h.mem x = 0

/-- What is documented of the calls: `sysconf` returns a `long`, and a page size is a multiple
of 16; a mapping starts at the boundary of a page, not at `NULL`, and the address behind it
exists. -/
structure ArenaOs.Lawful (os : ArenaOs) : Prop where
  sysconf_lt : os.sysconf < 2 ^ 63
  page_dvd : 16 ∣ getPageSize os.sysconf
  mmap_base : ∀ {total base : Nat}, os.mmap total = some base →
    base ≠ 0 ∧ getPageSize os.sysconf ∣ base ∧ base + total < 2 ^ 64

theorem getPageSize_lt {os : ArenaOs} (hos : os.Lawful) : getPageSize os.sysconf < 2 ^ 63 := by
  have hlt := hos.sysconf_lt
  unfold getPageSize
  split <;> omega

/-- What `arena_init` leaves in the struct and in the memory. -/
structure Heap.Fresh (h : Heap) : Prop where
  mapped : h.arena.Mapped
  canary : h.CanaryIntact
  clean : h.Clean

theorem arenaFail_ne {r r' : Run Heap} : arenaFail r ≠ some (.ok (), r') := by
  intro h
  cases h

/-- The struct that `arena_init` fills in. -/
def filledArena (os : ArenaOs) (base pageSize usable total : Nat) : SecureArena :=
  { base := base, totalSize := total, usableSize := usable - noxCanaryLen, offset := 0
    pageSize := pageSize, forkSafe := os.dontfork, dumpSafe := os.dontdump, locked := true
    canary := os.random }

/-- The memory that `arena_init` leaves: the mapping is zero, apart from the canary. -/
def filledMem (os : ArenaOs) (mem : Nat → UInt8) (base pageSize usable total : Nat) :
    Nat → UInt8 :=
  fillAt (fillAt mem base total fun _ => 0) (base + pageSize + (usable - noxCanaryLen))
    noxCanaryLen fun i => os.random.toList.getD i 0

theorem arenaMap_ok {os : ArenaOs} {base pageSize usable total : Nat} {r r' : Run Heap}
    (husable : noxCanaryLen ≤ usable) (hfits : base + pageSize + usable < 2 ^ 64)
    (h : arenaMap os base pageSize usable total r = some (.ok (), r')) :
    r' =
      { r with
        st :=
          { arena := filledArena os base pageSize usable total
            mem := filledMem os r.st.mem base pageSize usable total } } := by
  unfold arenaMap at h
  rw [run_update_bind, add_eq_pure (by omega), pure_bind] at h
  by_cases hlock : os.mlock (base + pageSize) usable
  · rw [if_neg (by simp [hlock]), run_update_bind] at h
    by_cases hlower : os.lowerGuard
    · rw [if_neg (by simp [hlower]), pure_bind, add_eq_pure hfits, pure_bind] at h
      by_cases hupper : os.upperGuard
      · rw [if_neg (by simp [hupper])] at h
        unfold arenaFill at h
        rw [sub_eq_pure (by omega) husable, pure_bind, run_update_bind, run_update_bind,
          add_eq_pure (by omega), pure_bind, add_eq_pure (by omega), pure_bind,
          run_update_bind, run_pure] at h
        cases h
        rfl
      · rw [if_pos (by simp [hupper])] at h
        exact absurd h arenaFail_ne
    · rw [if_pos (by simp [hlower])] at h
      exact absurd h arenaFail_ne
  · rw [if_pos (by simp [hlock])] at h
    exact absurd h arenaFail_ne

/-- A mapping of the sizes that have been computed, filled in, is sound. -/
theorem filled_fresh {os : ArenaOs} {mem : Nat → UInt8} {size base pageSize usable total : Nat}
    (hpos : 0 < size) (hpow : ∃ k, pageSize = 2 ^ k) (hpage : 16 ∣ pageSize)
    (husable : usable = roundUp pageSize (size + noxCanaryLen))
    (htotal : total = usable + 2 * pageSize) (hbase : base ≠ 0) (hdvd : pageSize ∣ base)
    (hfits : base + total < 2 ^ 64) :
    Heap.Fresh
      { arena := filledArena os base pageSize usable total
        mem := filledMem os mem base pageSize usable total } := by
  have hcanary : noxCanaryLen = 16 := rfl
  have hpagepos : 0 < pageSize := by
    obtain ⟨k, rfl⟩ := hpow
    exact Nat.two_pow_pos k
  have hround := le_roundUp hpagepos (size + noxCanaryLen)
  rw [← husable] at hround
  have hsum : usable - noxCanaryLen + noxCanaryLen = usable := by omega
  have hlength : os.random.toList.length = noxCanaryLen := os.random.toList_length
  constructor
  · exact
      { base_ne := hbase
        page_pow := hpow
        page_dvd := hpage
        base_dvd := hdvd
        usable_pos := by
          show 0 < usable - noxCanaryLen
          omega
        usable_dvd := by
          show pageSize ∣ usable - noxCanaryLen + noxCanaryLen
          rw [hsum, husable]
          exact dvd_roundUp _ _
        total_eq := by
          show total = usable - noxCanaryLen + noxCanaryLen + 2 * pageSize
          rw [hsum, htotal]
        fits := hfits
        offset_le := Nat.zero_le _
        offset_dvd := Nat.dvd_zero 16 }
  · have hself := bytesAt_fillAt_self (fillAt mem base total fun _ => 0)
      (base + pageSize + (usable - noxCanaryLen)) os.random.toList
    rw [hlength] at hself
    exact hself
  · intro x hlow hhigh
    have hlow' : base + pageSize + 0 ≤ x := hlow
    have hhigh' : x < base + pageSize + (usable - noxCanaryLen) := hhigh
    show filledMem os mem base pageSize usable total x = 0
    unfold filledMem
    rw [fillAt_of_lt hhigh', fillAt_of_mem (by omega) (by omega)]

/-- An `arena_init` that succeeds has not wrapped, and leaves a sound arena. -/
theorem arenaInit_ok {os : ArenaOs} (hos : os.Lawful) {size : Nat} (hsize : size < 2 ^ 64)
    {r r' : Run Heap} (h : arenaInit os size r = some (.ok (), r')) :
    r'.wrapped = r.wrapped ∧ r'.st.Fresh := by
  have hp := getPageSize_lt hos
  unfold arenaInit at h
  by_cases hzero : size = 0
  · rw [if_pos hzero, run_pure] at h
    cases h
  rw [if_neg hzero] at h
  by_cases hsodium : os.sodiumInit < 0
  · rw [if_pos hsodium, run_pure] at h
    cases h
  rw [if_neg hsodium] at h
  by_cases hpage : getPageSize os.sysconf = 0
  · simp only [hpage, if_pos, run_pure] at h
    cases h
  simp only [if_neg hpage] at h
  rcases hsizes : arenaSizes size (getPageSize os.sysconf) r with _ | ⟨_ | ⟨usable, total⟩, r₁⟩
  · rw [run_bind_of_abort hsizes] at h
    cases h
  · rw [run_bind_of_run hsizes] at h
    cases h
  · rw [run_bind_of_run hsizes] at h
    obtain ⟨rfl, hpow, husable, htotal, -⟩ :=
      arenaSizes_some (Nat.pos_of_ne_zero hpage) hp hsize hsizes
    rcases hmap : os.mmap total with _ | base
    · simp only [hmap, run_pure] at h
      cases h
    · simp only [hmap] at h
      obtain ⟨hbase, hdvd, hfits⟩ := hos.mmap_base hmap
      have hround := le_roundUp (Nat.pos_of_ne_zero hpage) (size + noxCanaryLen)
      rw [← husable] at hround
      have hr' := arenaMap_ok (by omega) (by omega) h
      rw [hr']
      exact ⟨rfl, filled_fresh (Nat.pos_of_ne_zero hzero) hpow hos.page_dvd husable htotal hbase
        hdvd hfits⟩

/-- A write in front of the canary. -/
theorem Heap.CanaryIntact.fill {h : Heap} (hc : h.CanaryIntact) {p count : Nat}
    {value : Nat → UInt8} (hend : p + count ≤ h.arena.start + h.arena.usableSize) :
    CanaryIntact { h with mem := fillAt h.mem p count value } := by
  have hsame :
      bytesAt (fillAt h.mem p count value) (h.arena.start + h.arena.usableSize) noxCanaryLen =
        bytesAt h.mem (h.arena.start + h.arena.usableSize) noxCanaryLen :=
    bytesAt_fillAt_of_le hend
  exact hsame.trans hc

namespace Heap.Fresh

variable {h : Heap}

/-- A write below the offset. -/
theorem fill (hf : h.Fresh) {p count : Nat} {value : Nat → UInt8}
    (hend : p + count ≤ h.arena.start + h.arena.offset) :
    Fresh { h with mem := fillAt h.mem p count value } := by
  have hoffset := hf.mapped.offset_le
  constructor
  · exact hf.mapped
  · exact hf.canary.fill (by omega)
  · intro x hlow hhigh
    have hge : p + count ≤ x := hend.trans hlow
    show fillAt h.mem p count value x = 0
    rw [fillAt_of_ge hge]
    exact hf.clean x hlow hhigh

theorem bump (hf : h.Fresh) {size : Nat} (hroom : h.arena.Room size) : (h.bump size).Fresh := by
  constructor
  · exact
      { hf.mapped with
        offset_le := hroom
        offset_dvd := Nat.dvd_add hf.mapped.offset_dvd (dvd_roundUp 16 size) }
  · exact hf.canary
  · intro x hlow hhigh
    have hlow' : h.arena.start + (h.arena.offset + alignedSize size) ≤ x := hlow
    exact hf.clean x (by omega) hhigh

theorem unwind (hf : h.Fresh) {saved : Nat} (hdvd : 16 ∣ saved) (hle : saved ≤ h.arena.offset) :
    (h.unwind saved).Fresh := by
  have hoffset := hf.mapped.offset_le
  constructor
  · exact
      { hf.mapped with
        offset_le := hle.trans hoffset
        offset_dvd := hdvd }
  · exact hf.canary.fill
      (show h.arena.start + saved + (h.arena.offset - saved) ≤ h.arena.start + h.arena.usableSize by
        omega)
  · intro x hlow hhigh
    have hlow' : h.arena.start + saved ≤ x := hlow
    show fillAt h.mem (h.arena.start + saved) (h.arena.offset - saved) (fun _ => 0) x = 0
    by_cases hx : x < h.arena.start + h.arena.offset
    · exact fillAt_of_mem hlow' (by omega)
    · rw [fillAt_of_ge (by omega)]
      exact hf.clean x (by omega) hhigh

end Heap.Fresh

end Boot
end Noxtor
