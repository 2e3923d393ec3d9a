import Noxtor.Lib.Utf8

/-!
# Removing terminal controls from a text

`ui_strip_ansi` works in place on a NUL-terminated string: one index reads, one writes, and every
escape sequence is skipped by a loop of its own.  The model keeps the memory and both indices; a
read or a write outside the string's memory and a loop that does not end give `none`.

`strip` says on lists what the scanner leaves, and `uiStripAnsi_eq` that the scanner computes it.
-/

namespace Noxtor
namespace Ui

open ByteString

section Scanner

/-- The bytes between `ESC [` and the final byte of a CSI sequence. -/
def csiByte (c : UInt8) : Bool :=
  (0x30 ≤ c && c ≤ 0x3f) || (0x20 ≤ c && c ≤ 0x2f)

/-- C0 controls except TAB, LF and CR. -/
def c0Control (c : UInt8) : Bool :=
  c < 32 && c != 0x09 && c != 0x0a && c != 0x0d

/-- `src[0] == 0x1b && src[1] == '\\'`; the second byte is read only behind an ESC. -/
def atTerminator (buf : Bytes) (src : Nat) : Option Bool := do
  let c ← buf[src]?
  if c = 0x1b then
    let d ← buf[src + 1]?
    return d = 0x5c
  else
    return false

/-- The loop over the parameters of a CSI sequence. -/
def skipCsi (buf : Bytes) : Nat → Nat → Option Nat
  | 0, _ => none
  | fuel + 1, src => do
      let c ← buf[src]?
      if c ≠ 0 ∧ csiByte c = true then
        skipCsi buf fuel (src + 1)
      else
        return src

/-- The loop over the text of an OSC (which a BEL ends as well) or a DCS sequence. -/
def skipText (bel : Bool) (buf : Bytes) : Nat → Nat → Option Nat
  | 0, src => do
      let _ ← buf[src]?
      return src
  | limit + 1, src => do
      let c ← buf[src]?
      if c = 0 then
        return src
      else if bel = true ∧ c = 0x07 then
        return src
      else
        let ended ← atTerminator buf src
        if ended then
          return src
        else
          skipText bel buf limit (src + 1)

/-- What follows either loop: the terminator itself is skipped. -/
def skipTerminator (bel : Bool) (buf : Bytes) (src : Nat) : Option Nat := do
  let c ← buf[src]?
  if bel = true ∧ c = 0x07 then
    return src + 1
  else
    let ended ← atTerminator buf src
    return if ended then src + 2 else src

/-- The branch for an ESC at `src`. -/
def skipEscape (buf : Bytes) (src : Nat) : Option Nat := do
  let d ← buf[src + 1]?
  if d = 0x5b then
    let src ← skipCsi buf buf.length (src + 2)
    let c ← buf[src]?
    return if c ≠ 0 then src + 1 else src
  else if d = 0x5d then
    let src ← skipText true buf 256 (src + 2)
    skipTerminator true buf src
  else if d = 0x50 then
    let src ← skipText false buf 256 (src + 2)
    skipTerminator false buf src
  else
    return if d ≠ 0 then src + 2 else src + 1

/-- `*dst = c`. -/
def store (buf : Bytes) (dst : Nat) (c : UInt8) : Option Bytes :=
  if dst < buf.length then some (buf.set dst c) else none

def stripLoop : Nat → Bytes → Nat → Nat → Option Bytes
  | 0, _, _, _ => none
  | fuel + 1, buf, dst, src => do
      let c ← buf[src]?
      if c = 0 then
        store buf dst 0
      else if c = 0x1b then
        let src ← skipEscape buf src
        stripLoop fuel buf dst src
      else if c0Control c = true then
        stripLoop fuel buf dst (src + 1)
      else if c = 0x7f then
        stripLoop fuel buf dst (src + 1)
      else
        let buf ← store buf dst c
        stripLoop fuel buf (dst + 1) (src + 1)

/-- The memory of the string after `ui_strip_ansi`. -/
def uiStripAnsi (buf : Bytes) : Option Bytes :=
  stripLoop buf.length buf 0 0

end Scanner

section Strip

/-- `ESC \`. -/
def terminator (s : Bytes) : Bool :=
  s.head? = some 0x1b && s.tail.head? = some 0x5c

/-- What follows the text of an OSC or a DCS sequence, of which at most `limit` bytes are read. -/
def afterText (bel : Bool) : Nat → Bytes → Bytes
  | 0, s => s
  | _ + 1, [] => []
  | limit + 1, c :: s =>
      if bel = true ∧ c = 0x07 then c :: s
      else if terminator (c :: s) = true then c :: s
      else afterText bel limit s

def afterTerminator (bel : Bool) (s : Bytes) : Bytes :=
  if bel = true ∧ s.head? = some 0x07 then s.tail
  else if terminator s = true then s.tail.tail
  else s

/-- What follows an escape sequence, from the byte behind its ESC on. -/
def afterEscape : Bytes → Bytes
  | [] => []
  | d :: s =>
      if d = 0x5b then (s.dropWhile csiByte).tail
      else if d = 0x5d then afterTerminator true (afterText true 256 s)
      else if d = 0x50 then afterTerminator false (afterText false 256 s)
      else s

theorem afterText_suffix
    (bel : Bool) (limit : Nat) (s : Bytes) :
    afterText bel limit s <:+ s := by
  induction limit generalizing s with
  | zero =>
      exact List.suffix_rfl
  | succ limit ih =>
      cases s with
      | nil =>
          exact List.suffix_rfl
      | cons c s =>
          unfold afterText
          split
          · exact List.suffix_rfl
          · split
            · exact List.suffix_rfl
            · exact (ih s).trans (List.suffix_cons c s)

theorem afterTerminator_suffix
    (bel : Bool) (s : Bytes) :
    afterTerminator bel s <:+ s := by
  unfold afterTerminator
  split
  · exact List.tail_suffix s
  · split
    · exact (List.tail_suffix s.tail).trans (List.tail_suffix s)
    · exact List.suffix_rfl

theorem afterEscape_suffix
    (s : Bytes) :
    afterEscape s <:+ s := by
  cases s with
  | nil =>
      exact List.suffix_rfl
  | cons d s =>
      refine List.IsSuffix.trans ?_ (List.suffix_cons d s)
      dsimp only [afterEscape]
      split
      · exact (List.tail_suffix _).trans (List.dropWhile_suffix csiByte)
      · split
        · exact (afterTerminator_suffix true _).trans (afterText_suffix true 256 s)
        · split
          · exact (afterTerminator_suffix false _).trans (afterText_suffix false 256 s)
          · exact List.suffix_rfl

/-- The bytes that are left of a text. -/
def strip : Bytes → Bytes
  | [] => []
  | c :: s =>
      if c = 0x1b then strip (afterEscape s)
      else if c0Control c = true ∨ c = 0x7f then strip s
      else c :: strip s
termination_by s => s.length
decreasing_by
  all_goals
    have hle := (afterEscape_suffix s).length_le
    simp only [List.length_cons]
    omega

/-- An ESC, a DEL or a C0 byte other than TAB, LF and CR. -/
def forbidden (c : UInt8) : Bool :=
  c = 0x1b || c0Control c || c = 0x7f

@[simp]
theorem strip_nil : strip [] = [] := by
  rw [strip]

theorem strip_esc
    (s : Bytes) :
    strip (0x1b :: s) = strip (afterEscape s) := by
  rw [strip, if_pos rfl]

theorem strip_dropped
    {c : UInt8} (s : Bytes) (hesc : c ≠ 0x1b) (h : c0Control c = true ∨ c = 0x7f) :
    strip (c :: s) = strip s := by
  rw [strip, if_neg hesc, if_pos h]

theorem strip_kept
    {c : UInt8} (s : Bytes) (h : forbidden c = false) :
    strip (c :: s) = c :: strip s := by
  simp only [forbidden, Bool.or_eq_false_iff, decide_eq_false_iff_not] at h
  obtain ⟨⟨hesc, hc0⟩, hdel⟩ := h
  have hkeep : ¬ (c0Control c = true ∨ c = 0x7f) := by
    rintro (hc | hc)
    · rw [hc0] at hc
      cases hc
    · exact hdel hc
  rw [strip, if_neg hesc, if_neg hkeep]

theorem forbidden_iff
    {c : UInt8} (hesc : c ≠ 0x1b) :
    forbidden c = true ↔ c0Control c = true ∨ c = 0x7f := by
  simp only [forbidden, Bool.or_eq_true, decide_eq_true_eq]
  tauto

/-- Induction along the scan. -/
theorem strip_induction
    {motive : Bytes → Prop} (nil : motive [])
    (esc : ∀ s, motive (afterEscape s) → motive (0x1b :: s))
    (dropped : ∀ c s, c ≠ 0x1b → (c0Control c = true ∨ c = 0x7f) → motive s → motive (c :: s))
    (kept : ∀ c s, forbidden c = false → motive s → motive (c :: s)) (s : Bytes) :
    motive s := by
  induction s using strip.induct with
  | case1 =>
      exact nil
  | case2 s ih =>
      exact esc s ih
  | case3 c s hesc hdrop ih =>
      exact dropped c s hesc hdrop ih
  | case4 c s hesc hdrop ih =>
      refine kept c s ?_ ih
      rw [← Bool.not_eq_true, forbidden_iff hesc]
      exact hdrop

theorem strip_sublist
    (s : Bytes) :
    (strip s).Sublist s := by
  induction s using strip_induction with
  | nil =>
      rw [strip_nil]
  | esc s ih =>
      rw [strip_esc]
      exact (ih.trans (afterEscape_suffix s).sublist).cons 0x1b
  | dropped c s hesc hdrop ih =>
      rw [strip_dropped s hesc hdrop]
      exact ih.cons c
  | kept c s hkeep ih =>
      rw [strip_kept s hkeep]
      exact ih.cons_cons c

theorem strip_clean
    (s : Bytes) :
    ∀ c ∈ strip s, forbidden c = false := by
  induction s using strip_induction with
  | nil =>
      simp
  | esc s ih =>
      rw [strip_esc]
      exact ih
  | dropped c s hesc hdrop ih =>
      rw [strip_dropped s hesc hdrop]
      exact ih
  | kept c s hkeep ih =>
      rw [strip_kept s hkeep]
      exact List.forall_mem_cons.mpr ⟨hkeep, ih⟩

theorem strip_of_clean
    {s : Bytes} (h : ∀ c ∈ s, forbidden c = false) :
    strip s = s := by
  induction s with
  | nil =>
      exact strip_nil
  | cons c s ih =>
      obtain ⟨hc, hs⟩ := List.forall_mem_cons.mp h
      rw [strip_kept s hc, ih hs]

end Strip

section Correct

/-- From `src` on the memory holds `s`, its NUL and `tail`. -/
def Holds (buf : Bytes) (src : Nat) (s tail : Bytes) : Prop :=
  buf.drop src = s ++ 0 :: tail ∧ 0 ∉ s

variable {buf s tail : Bytes} {src : Nat} {c : UInt8}

theorem Holds.read_nil
    (h : Holds buf src [] tail) :
    buf[src]? = some 0 := by
  rw [← List.head?_drop, h.1]
  rfl

theorem Holds.read_cons
    (h : Holds buf src (c :: s) tail) :
    buf[src]? = some c := by
  rw [← List.head?_drop, h.1]
  rfl

theorem Holds.ne_zero
    (h : Holds buf src (c :: s) tail) :
    c ≠ 0 :=
  fun heq => h.2 (heq ▸ List.mem_cons_self)

theorem Holds.next
    (h : Holds buf src (c :: s) tail) :
    Holds buf (src + 1) s tail := by
  refine ⟨?_, fun hmem => h.2 (List.mem_cons_of_mem c hmem)⟩
  rw [← List.drop_drop, h.1]
  rfl

theorem Holds.length_eq
    (h : Holds buf src s tail) :
    src + s.length + 1 + tail.length = buf.length := by
  have hlen := congrArg List.length h.1
  simp only [List.length_drop, List.length_append, List.length_cons] at hlen
  omega

theorem Holds.lt_length
    (h : Holds buf src s tail) :
    src + s.length < buf.length := by
  have hlen := h.length_eq
  omega

theorem atTerminator_eq
    (h : Holds buf src s tail) :
    atTerminator buf src = some (terminator s) := by
  unfold atTerminator
  cases s with
  | nil =>
      rw [h.read_nil]
      rfl
  | cons c s =>
      rw [h.read_cons]
      by_cases hc : c = 0x1b
      · cases s with
        | nil =>
            simp [hc, h.next.read_nil, terminator]
        | cons d s =>
            simp [hc, h.next.read_cons, terminator]
      · simp [hc, terminator]

theorem skipCsi_eq
    (h : Holds buf src s tail) {fuel : Nat} (hfuel : s.length < fuel) :
    ∃ src', skipCsi buf fuel src = some src' ∧ Holds buf src' (s.dropWhile csiByte) tail := by
  induction s generalizing src fuel with
  | nil =>
      cases fuel with
      | zero =>
          exact absurd hfuel (Nat.not_lt_zero _)
      | succ fuel =>
          refine ⟨src, ?_, h⟩
          simp [skipCsi, h.read_nil]
  | cons c s ih =>
      cases fuel with
      | zero =>
          exact absurd hfuel (Nat.not_lt_zero _)
      | succ fuel =>
          have hzero := h.ne_zero
          cases hbyte : csiByte c with
          | true =>
              obtain ⟨src', hskip, hrest⟩ := ih h.next (Nat.lt_of_succ_lt_succ hfuel)
              refine ⟨src', ?_, ?_⟩
              · simpa [skipCsi, h.read_cons, hzero, hbyte] using hskip
              · rwa [List.dropWhile_cons_of_pos hbyte]
          | false =>
              refine ⟨src, ?_, ?_⟩
              · simp [skipCsi, h.read_cons, hbyte]
              · rwa [List.dropWhile_cons_of_neg (by simp [hbyte])]

theorem skipText_eq
    (h : Holds buf src s tail) (bel : Bool) (limit : Nat) :
    ∃ src', skipText bel buf limit src = some src' ∧
      Holds buf src' (afterText bel limit s) tail := by
  induction limit generalizing src s with
  | zero =>
      refine ⟨src, ?_, h⟩
      cases s with
      | nil =>
          simp [skipText, h.read_nil]
      | cons c s =>
          simp [skipText, h.read_cons]
  | succ limit ih =>
      cases s with
      | nil =>
          refine ⟨src, ?_, h⟩
          simp [skipText, h.read_nil]
      | cons c s =>
          have hzero := h.ne_zero
          have hterm := atTerminator_eq h
          by_cases hbel : bel = true ∧ c = 0x07
          · refine ⟨src, ?_, ?_⟩
            · simp [skipText, h.read_cons, hbel]
            · rw [afterText, if_pos hbel]
              exact h
          · cases hend : terminator (c :: s) with
            | true =>
                refine ⟨src, ?_, ?_⟩
                · simp [skipText, h.read_cons, hterm, hend]
                · rw [afterText, if_neg hbel, if_pos hend]
                  exact h
            | false =>
                obtain ⟨src', hskip, hrest⟩ := ih h.next
                refine ⟨src', ?_, ?_⟩
                · simpa [skipText, h.read_cons, hzero, hbel, hterm, hend] using hskip
                · rw [afterText, if_neg hbel, if_neg (by simp [hend])]
                  exact hrest

theorem skipTerminator_eq
    (h : Holds buf src s tail) (bel : Bool) :
    ∃ src', skipTerminator bel buf src = some src' ∧
      Holds buf src' (afterTerminator bel s) tail := by
  have hterm := atTerminator_eq h
  unfold skipTerminator afterTerminator
  cases s with
  | nil =>
      refine ⟨src, ?_, by simpa [terminator] using h⟩
      simp [h.read_nil, hterm, terminator]
  | cons c s =>
      rw [h.read_cons]
      by_cases hbel : bel = true ∧ c = 0x07
      · exact ⟨src + 1, by simp [hbel], by simpa [hbel] using h.next⟩
      · have hbel' : ¬ (bel = true ∧ (c :: s).head? = some 0x07) := by
          simpa using hbel
        rw [if_neg hbel']
        cases hend : terminator (c :: s) with
        | true =>
            obtain ⟨d, s, rfl⟩ : ∃ d t, s = d :: t := by
              cases s with
              | nil => simp [terminator] at hend
              | cons d t => exact ⟨d, t, rfl⟩
            exact ⟨src + 2, by simp [hbel, hterm, hend], by simpa using h.next.next⟩
        | false =>
            exact ⟨src, by simp [hbel, hterm, hend], by simpa using h⟩

theorem skipEscape_eq
    (h : Holds buf src (0x1b :: s) tail) :
    ∃ src', skipEscape buf src = some src' ∧ Holds buf src' (afterEscape s) tail := by
  unfold skipEscape
  cases s with
  | nil =>
      exact ⟨src + 1, by simp [h.next.read_nil], h.next⟩
  | cons d s =>
      have hzero := h.next.ne_zero
      have hlen := h.next.next.lt_length
      rw [h.next.read_cons]
      dsimp only [Option.bind_eq_bind, Option.bind_some, afterEscape]
      by_cases hcsi : d = 0x5b
      · have hfuel : s.length < buf.length := by omega
        obtain ⟨src', hskip, hrest⟩ := skipCsi_eq h.next.next hfuel
        rw [if_pos hcsi, if_pos hcsi, hskip]
        cases hs : s.dropWhile csiByte with
        | nil =>
            rw [hs] at hrest
            exact ⟨src', by simp [hrest.read_nil], hrest⟩
        | cons c t =>
            rw [hs] at hrest
            exact ⟨src' + 1, by simp [hrest.read_cons, hrest.ne_zero], hrest.next⟩
      · rw [if_neg hcsi, if_neg hcsi]
        by_cases hosc : d = 0x5d
        · obtain ⟨src', hskip, hrest⟩ := skipText_eq h.next.next true 256
          rw [if_pos hosc, if_pos hosc, hskip]
          exact skipTerminator_eq hrest true
        · rw [if_neg hosc, if_neg hosc]
          by_cases hdcs : d = 0x50
          · obtain ⟨src', hskip, hrest⟩ := skipText_eq h.next.next false 256
            rw [if_pos hdcs, if_pos hdcs, hskip]
            exact skipTerminator_eq hrest false
          · rw [if_neg hdcs, if_neg hdcs]
            exact ⟨src + 2, by simp [hzero], h.next.next⟩

/-- A write in front of the reading index. -/
theorem Holds.store
    {dst : Nat} (h : Holds buf src (c :: s) tail) (hle : dst ≤ src) (b : UInt8) :
    ∃ buf', store buf dst b = some buf' ∧ buf'.take (dst + 1) = buf.take dst ++ [b] ∧
      Holds buf' (src + 1) s tail := by
  have hlt := h.lt_length
  have hdst : dst < buf.length := by omega
  refine ⟨buf.set dst b, if_pos hdst, ?_, ?_, h.next.2⟩
  · rw [List.take_add_one, List.take_set_of_le (Nat.le_refl dst), List.getElem?_set_self hdst]
    rfl
  · rw [List.drop_set_of_lt (Nat.lt_succ_of_le hle)]
    exact h.next.1

/-- The loop keeps what is written and puts what is left of the unread text behind it. -/
theorem stripLoop_eq
    (s : Bytes) {fuel : Nat} {buf : Bytes} {dst src : Nat} (h : Holds buf src s tail)
    (hle : dst ≤ src) (hfuel : s.length < fuel) :
    ∃ more, stripLoop fuel buf dst src = some (buf.take dst ++ strip s ++ 0 :: more) := by
  induction s using strip_induction generalizing fuel buf dst src with
  | nil =>
      obtain ⟨fuel, rfl⟩ := Nat.exists_eq_succ_of_ne_zero (Nat.ne_zero_of_lt hfuel)
      have hlen := h.lt_length
      have hdst : dst < buf.length := Nat.lt_of_le_of_lt (Nat.le_add_right_of_le hle) hlen
      refine ⟨buf.drop (dst + 1), ?_⟩
      simp only [stripLoop, h.read_nil, Option.bind_eq_bind, Option.bind_some, if_pos, store]
      rw [if_pos hdst, List.set_eq_take_append_cons_drop, if_pos hdst, strip_nil, List.append_nil]
  | esc s ih =>
      obtain ⟨fuel, rfl⟩ := Nat.exists_eq_succ_of_ne_zero (Nat.ne_zero_of_lt hfuel)
      obtain ⟨src', hskip, hrest⟩ := skipEscape_eq h
      have hsuf := (afterEscape_suffix s).length_le
      have hlater : src ≤ src' := by
        have hbefore := h.length_eq
        have hbehind := hrest.length_eq
        rw [List.length_cons] at hbefore
        omega
      obtain ⟨more, hloop⟩ := ih hrest (hle.trans hlater)
        (Nat.lt_of_le_of_lt hsuf (Nat.lt_of_succ_lt_succ hfuel))
      refine ⟨more, ?_⟩
      rw [strip_esc, ← hloop]
      simp [stripLoop, h.read_cons, hskip]
  | dropped c s hesc hdrop ih =>
      obtain ⟨fuel, rfl⟩ := Nat.exists_eq_succ_of_ne_zero (Nat.ne_zero_of_lt hfuel)
      have hzero := h.ne_zero
      obtain ⟨more, hloop⟩ := ih h.next (Nat.le_succ_of_le hle) (Nat.lt_of_succ_lt_succ hfuel)
      refine ⟨more, ?_⟩
      rw [strip_dropped s hesc hdrop, ← hloop]
      by_cases hc0 : c0Control c = true
      · simp [stripLoop, h.read_cons, hzero, hesc, hc0]
      · obtain rfl := hdrop.resolve_left hc0
        simp [stripLoop, h.read_cons, hc0]
  | kept c s hkeep ih =>
      obtain ⟨fuel, rfl⟩ := Nat.exists_eq_succ_of_ne_zero (Nat.ne_zero_of_lt hfuel)
      have hzero := h.ne_zero
      obtain ⟨buf', hstore, htake, hrest⟩ := h.store hle c
      obtain ⟨more, hloop⟩ := ih hrest (Nat.succ_le_succ hle) (Nat.lt_of_succ_lt_succ hfuel)
      refine ⟨more, ?_⟩
      simp only [forbidden, Bool.or_eq_false_iff, decide_eq_false_iff_not] at hkeep
      obtain ⟨⟨hesc, hc0⟩, hdel⟩ := hkeep
      rw [htake] at hloop
      rw [strip_kept s (by simp [forbidden, hesc, hc0, hdel])]
      simpa [stripLoop, h.read_cons, hzero, hesc, hc0, hdel, hstore] using hloop

theorem store_self
    (h : buf[src]? = some c) :
    Ui.store buf src c = some buf := by
  obtain ⟨hlt, hget⟩ := List.getElem?_eq_some_iff.mp h
  unfold Ui.store
  rw [if_pos hlt, ← hget, List.set_getElem_self]

/-- On a text without forbidden bytes nothing moves. -/
theorem stripLoop_clean
    {fuel : Nat} (h : Holds buf src s tail) (hclean : ∀ c ∈ s, forbidden c = false)
    (hfuel : s.length < fuel) :
    stripLoop fuel buf src src = some buf := by
  induction s generalizing fuel src with
  | nil =>
      obtain ⟨fuel, rfl⟩ := Nat.exists_eq_succ_of_ne_zero (Nat.ne_zero_of_lt hfuel)
      simp [stripLoop, h.read_nil, store_self h.read_nil]
  | cons c s ih =>
      obtain ⟨fuel, rfl⟩ := Nat.exists_eq_succ_of_ne_zero (Nat.ne_zero_of_lt hfuel)
      obtain ⟨hc, hs⟩ := List.forall_mem_cons.mp hclean
      have hzero := h.ne_zero
      simp only [forbidden, Bool.or_eq_false_iff, decide_eq_false_iff_not] at hc
      obtain ⟨⟨hesc, hc0⟩, hdel⟩ := hc
      have hloop := ih h.next hs (Nat.lt_of_succ_lt_succ hfuel)
      simpa [stripLoop, h.read_cons, hzero, hesc, hc0, hdel, store_self h.read_cons] using hloop

/-- `ui_strip_ansi` leaves the C string `strip s`. -/
theorem uiStripAnsi_eq
    (h : 0 ∉ s) (tail : Bytes) :
    ∃ more, uiStripAnsi (s ++ 0 :: tail) = some (strip s ++ 0 :: more) := by
  have hlen : s.length < (s ++ 0 :: tail).length := by
    rw [List.length_append, List.length_cons]
    omega
  obtain ⟨more, hloop⟩ := stripLoop_eq s ⟨List.drop_zero, h⟩ (Nat.le_refl 0) hlen
  exact ⟨more, hloop⟩

theorem uiStripAnsi_clean
    (h : 0 ∉ s) (hclean : ∀ c ∈ s, forbidden c = false) (tail : Bytes) :
    uiStripAnsi (s ++ 0 :: tail) = some (s ++ 0 :: tail) := by
  have hlen : s.length < (s ++ 0 :: tail).length := by
    rw [List.length_append, List.length_cons]
    omega
  exact stripLoop_clean ⟨List.drop_zero, h⟩ hclean hlen

/--
For every NUL-terminated string, with nothing readable behind its NUL, `ui_strip_ansi` ends
without a bad access.  What it leaves has no forbidden byte, is a subsequence of the string, is the
string itself if that has no forbidden byte, and a second run does not change a byte of the memory.
-/
theorem ui_strip_ansi_removes_controls
    (s : Bytes) (h : 0 ∉ s) :
    ∃ t more, uiStripAnsi (s ++ [0]) = some (t ++ 0 :: more) ∧
      0 ∉ t ∧
      (∀ c ∈ t, forbidden c = false) ∧
      t.Sublist s ∧
      ((∀ c ∈ s, forbidden c = false) → t = s) ∧
      uiStripAnsi (t ++ 0 :: more) = some (t ++ 0 :: more) := by
  obtain ⟨more, hrun⟩ := uiStripAnsi_eq h []
  have hzero : 0 ∉ strip s := fun hmem => h ((strip_sublist s).subset hmem)
  exact ⟨strip s, more, hrun, hzero, strip_clean s, strip_sublist s, strip_of_clean,
    uiStripAnsi_clean hzero (strip_clean s) more⟩

/-- A colour sequence, a BEL and an ESC at the end. -/
def colouredText : Bytes :=
  [0x61, 0x1b, 0x5b, 0x33, 0x31, 0x6d, 0x62, 0x07, 0x0a, 0x1b]

theorem ui_strip_ansi_removes_controls_coloured :
    strip colouredText = [0x61, 0x62, 0x0a] ∧
      ∃ t more, uiStripAnsi (colouredText ++ [0]) = some (t ++ 0 :: more) ∧
        ∀ c ∈ t, forbidden c = false := by
  refine ⟨by decide +kernel, ?_⟩
  obtain ⟨t, more, hrun, -, hclean, -⟩ :=
    ui_strip_ansi_removes_controls colouredText (by decide +kernel)
  exact ⟨t, more, hrun, hclean⟩

end Correct

end Ui
end Noxtor
