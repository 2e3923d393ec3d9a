import Noxtor.Ui.StripAnsi

/-!
# Removing terminal controls from UTF-8

The scanner reads bytes, and the bytes of a multi-byte character are copied one by one.  A skipped
escape sequence may end inside a character all the same: its last byte may be the character's
leading byte, or the limit on the text of an OSC or DCS sequence may fall inside it.  These are the
only ways to get from valid UTF-8 to a text that is not.
-/

namespace Noxtor
namespace Ui

open ByteString
open Utf8

/-- The text of an OSC or DCS sequence has no end within its limit, and the limit lies inside a
character. -/
def limitSplits (bel : Bool) : Nat → Bytes → Bool
  | 0, s => s.head?.any continuation
  | _ + 1, [] => false
  | limit + 1, c :: s =>
      if bel = true ∧ c = 0x07 then false
      else if terminator (c :: s) = true then false
      else limitSplits bel limit s

/-- An escape sequence ends inside a character, seen from the byte behind its ESC. -/
def splits : Bytes → Bool
  | [] => false
  | d :: s =>
      if d = 0x5b then (s.dropWhile csiByte).head?.any (0x80 ≤ ·)
      else if d = 0x5d then limitSplits true 256 s
      else if d = 0x50 then limitSplits false 256 s
      else 0x80 ≤ d

/-- No escape sequence of the text ends inside a character. -/
def keepsCharacters : Bytes → Bool
  | [] => true
  | c :: s =>
      if c = 0x1b then !splits s && keepsCharacters (afterEscape s)
      else keepsCharacters s
termination_by s => s.length
decreasing_by
  all_goals
    have hle := (afterEscape_suffix s).length_le
    simp only [List.length_cons]
    omega

section Escapes

variable {bel : Bool} {s w : Bytes}

/-- The first byte is a continuation byte. -/
def InsideCharacter (s : Bytes) : Prop :=
  ∃ b t, s = b :: t ∧ continuation b = true

theorem afterTerminator_valid
    (h : Valid s) :
    Valid (afterTerminator bel s) := by
  unfold afterTerminator
  split
  · rename_i hbel
    cases s with
    | nil =>
        exact valid_nil
    | cons c s =>
        obtain rfl : c = 0x07 := by simpa using hbel.2
        exact (valid_ascii_cons_iff (by decide)).mp h
  · split
    · rename_i hterm
      obtain _ | ⟨c, _ | ⟨d, s⟩⟩ := s
      · simp [terminator] at hterm
      · simp [terminator] at hterm
      · simp only [terminator, List.head?_cons, List.tail_cons, Option.some.injEq,
          Bool.and_eq_true, decide_eq_true_eq] at hterm
        obtain ⟨rfl, rfl⟩ := hterm
        exact (valid_ascii_cons_iff (by decide)).mp ((valid_ascii_cons_iff (by decide)).mp h)
    · exact h

theorem afterTerminator_inside
    (h : InsideCharacter s) :
    afterTerminator bel s = s := by
  obtain ⟨b, t, rfl, hb⟩ := h
  have hhigh := high_of_continuation hb
  have hbel : b ≠ 0x07 := by
    rintro rfl
    exact absurd hhigh (by decide)
  have hesc : b ≠ 0x1b := by
    rintro rfl
    exact absurd hhigh (by decide)
  simp [afterTerminator, terminator, hbel, hesc]

/-- The end of an OSC or DCS sequence in a valid string. -/
theorem afterText_end
    (hw : Valid w) (limit : Nat) (hs : s <:+ w) :
    (limitSplits bel limit s = true →
        InsideCharacter (afterTerminator bel (afterText bel limit s))) ∧
      (limitSplits bel limit s = false →
        Valid (afterTerminator bel (afterText bel limit s))) := by
  have hstart : (∀ b ∈ s.head?, continuation b = false) → Valid (afterTerminator bel s) :=
    fun hb => afterTerminator_valid (hw.of_suffix hs hb)
  induction limit generalizing s with
  | zero =>
      cases s with
      | nil =>
          exact ⟨fun h => by simp [limitSplits] at h, fun _ => hstart (by simp)⟩
      | cons b t =>
          constructor
          · intro h
            have hin : InsideCharacter (b :: t) := ⟨b, t, rfl, by simpa [limitSplits] using h⟩
            rw [afterText, afterTerminator_inside hin]
            exact hin
          · intro h
            exact hstart (by simpa [limitSplits] using h)
  | succ limit ih =>
      cases s with
      | nil =>
          exact ⟨fun h => by simp [limitSplits] at h, fun _ => hstart (by simp)⟩
      | cons c s =>
          rw [limitSplits, afterText]
          by_cases hbel : bel = true ∧ c = 0x07
          · rw [if_pos hbel, if_pos hbel]
            refine ⟨fun h => by simp at h, fun _ => hstart ?_⟩
            intro b hb
            obtain rfl : c = b := by simpa using hb
            rw [hbel.2]
            decide
          · rw [if_neg hbel, if_neg hbel]
            by_cases hterm : terminator (c :: s) = true
            · rw [if_pos hterm, if_pos hterm]
              refine ⟨fun h => by simp at h, fun _ => hstart ?_⟩
              intro b hb
              obtain rfl : c = b := by simpa using hb
              have hesc : c = 0x1b := by
                simp only [terminator, List.head?_cons, Option.some.injEq, Bool.and_eq_true,
                  decide_eq_true_eq] at hterm
                exact hterm.1
              rw [hesc]
              decide
            · rw [if_neg hterm, if_neg hterm]
              have hs' : s <:+ w := (List.suffix_cons c s).trans hs
              exact ih hs' fun hb => afterTerminator_valid (hw.of_suffix hs' hb)

/-- A byte from 0x80 on at the head of a valid string has a continuation byte behind it. -/
theorem tail_inside
    {b : UInt8} (h : Valid (b :: s)) (hb : 0x80 ≤ b) :
    InsideCharacter s := by
  obtain hnil | ⟨c, t, hc, -, heq⟩ := h.eq_nil_or_cons
  · cases hnil
  · obtain ⟨a, rfl, ha⟩ | ⟨lead, next, rest, rfl, hnext, -⟩ := codePoint_ascii_or_high hc
    · obtain ⟨rfl, -⟩ := List.cons.inj heq
      exact absurd hb (UInt8.not_le.mpr ha)
    · obtain ⟨-, rfl⟩ := List.cons.inj heq
      exact ⟨next, rest ++ t, rfl, hnext⟩

theorem csiByte_ascii
    {c : UInt8} (h : csiByte c = true) :
    c < 0x80 := by
  simp only [csiByte, Bool.or_eq_true, Bool.and_eq_true, decide_eq_true_eq] at h
  obtain ⟨-, hle⟩ | ⟨-, hle⟩ := h
  · exact UInt8.lt_of_le_of_lt hle (by decide)
  · exact UInt8.lt_of_le_of_lt hle (by decide)

theorem dropWhile_csiByte_valid
    (h : Valid s) :
    Valid (s.dropWhile csiByte) := by
  induction s with
  | nil =>
      exact h
  | cons c s ih =>
      by_cases hc : csiByte c = true
      · rw [List.dropWhile_cons_of_pos hc]
        exact ih ((valid_ascii_cons_iff (csiByte_ascii hc)).mp h)
      · rwa [List.dropWhile_cons_of_neg hc]

/-- In a valid string, an escape sequence that splits a character ends in front of a continuation
byte and any other one ends in front of a character. -/
theorem afterEscape_end
    (h : Valid s) :
    (splits s = true → InsideCharacter (afterEscape s)) ∧
      (splits s = false → Valid (afterEscape s)) := by
  cases s with
  | nil =>
      exact ⟨fun hs => by simp [splits] at hs, fun _ => valid_nil⟩
  | cons d s =>
      dsimp only [splits, afterEscape]
      by_cases hcsi : d = 0x5b
      · rw [if_pos hcsi, if_pos hcsi]
        have hs : Valid s := (valid_ascii_cons_iff (by rw [hcsi]; decide)).mp h
        have hrest := dropWhile_csiByte_valid hs
        cases hd : s.dropWhile csiByte with
        | nil =>
            exact ⟨fun hs => by simp at hs, fun _ => valid_nil⟩
        | cons b t =>
            rw [hd] at hrest
            refine ⟨fun hb => tail_inside hrest (by simpa using hb), fun hb => ?_⟩
            have hlt : b < 0x80 := by simpa using hb
            exact (valid_ascii_cons_iff hlt).mp hrest
      · rw [if_neg hcsi, if_neg hcsi]
        by_cases hosc : d = 0x5d
        · rw [if_pos hosc, if_pos hosc]
          exact afterText_end h 256 (List.suffix_cons d s)
        · rw [if_neg hosc, if_neg hosc]
          by_cases hdcs : d = 0x50
          · rw [if_pos hdcs, if_pos hdcs]
            exact afterText_end h 256 (List.suffix_cons d s)
          · rw [if_neg hdcs, if_neg hdcs]
            refine ⟨fun hd => tail_inside h (by simpa using hd), fun hd => ?_⟩
            have hlt : d < 0x80 := by simpa using hd
            exact (valid_ascii_cons_iff hlt).mp h

end Escapes

section Left

variable {s : Bytes}

theorem high_not_forbidden
    {b : UInt8} (h : 0x80 ≤ b) :
    forbidden b = false := by
  have hall : ∀ n < 256, 0x80 ≤ UInt8.ofNat n → forbidden (UInt8.ofNat n) = false := by
    decide +kernel
  have hb := hall b.toNat b.toNat_lt
  rw [UInt8.ofNat_toNat] at hb
  exact hb h

/-- The bytes of a multi-byte character are copied. -/
theorem strip_high_append
    {c : Bytes} (h : ∀ b ∈ c, 0x80 ≤ b) (s : Bytes) :
    strip (c ++ s) = c ++ strip s ∧ keepsCharacters (c ++ s) = keepsCharacters s := by
  induction c with
  | nil =>
      exact ⟨rfl, rfl⟩
  | cons b c ih =>
      obtain ⟨hb, hc⟩ := List.forall_mem_cons.mp h
      obtain ⟨hstrip, hkeep⟩ := ih hc
      have hesc : b ≠ 0x1b := by
        rintro rfl
        exact absurd hb (by decide)
      rw [List.cons_append, strip_kept _ (high_not_forbidden hb), hstrip, keepsCharacters,
        if_neg hesc, hkeep]
      exact ⟨rfl, rfl⟩

/-- A text that starts inside a character keeps its first byte. -/
theorem strip_inside_not_valid
    (h : InsideCharacter s) :
    ¬ Valid (strip s) := by
  obtain ⟨b, t, rfl, hb⟩ := h
  rw [strip_kept t (high_not_forbidden (high_of_continuation hb))]
  intro hvalid
  rw [hvalid.head] at hb
  cases hb

/-- What is left of a valid text is valid exactly if no escape sequence splits a character. -/
theorem strip_valid_iff
    (h : Valid s) :
    Valid (strip s) ↔ keepsCharacters s = true := by
  -- on the length: behind an escape sequence the text goes on anywhere further to the right
  induction hn : s.length using Nat.strong_induction_on generalizing s with
  | _ n ih =>
      obtain rfl | ⟨c, t, hc, ht, rfl⟩ := h.eq_nil_or_cons
      · rw [strip_nil, keepsCharacters]
        exact ⟨fun _ => rfl, fun _ => valid_nil⟩
      · obtain ⟨a, rfl, ha⟩ | ⟨lead, next, rest, rfl, -, hhigh⟩ := codePoint_ascii_or_high hc
        · rw [List.singleton_append] at hn ⊢
          rw [List.length_cons] at hn
          by_cases hesc : a = 0x1b
          · subst hesc
            rw [strip_esc, keepsCharacters, if_pos rfl]
            obtain ⟨hinside, hstart⟩ := afterEscape_end ht
            cases hsplit : splits t with
            | true =>
                have hno := strip_inside_not_valid (hinside hsplit)
                simp [hno]
            | false =>
                have hlen := (afterEscape_suffix t).length_le
                have hrest := ih _ (by omega) (hstart hsplit) rfl
                simpa using hrest
          · rw [keepsCharacters, if_neg hesc]
            have hrest := ih t.length (by omega) ht rfl
            cases hforb : forbidden a with
            | true =>
                rw [strip_dropped t hesc ((forbidden_iff hesc).mp hforb)]
                exact hrest
            | false =>
                rw [strip_kept t hforb, valid_ascii_cons_iff ha]
                exact hrest
        · obtain ⟨hstrip, hkeep⟩ := strip_high_append hhigh t
          rw [hstrip, hkeep, valid_codePoint_append_iff hc]
          refine ih t.length ?_ ht rfl
          rw [List.length_append, List.length_cons] at hn
          omega

/--
On a valid UTF-8 string `ui_strip_ansi` leaves valid UTF-8 if and only if no escape sequence that
it skips ends inside a multi-byte character.
-/
theorem ui_strip_ansi_utf8_iff
    (s : Bytes) (hzero : 0 ∉ s) (h : Valid s) :
    ∃ t more, uiStripAnsi (s ++ [0]) = some (t ++ 0 :: more) ∧ 0 ∉ t ∧
      (Valid t ↔ keepsCharacters s = true) := by
  obtain ⟨more, hrun⟩ := uiStripAnsi_eq hzero []
  refine ⟨strip s, more, hrun, ?_, strip_valid_iff h⟩
  exact fun hmem => hzero ((strip_sublist s).subset hmem)

/-- "é" and a colour sequence. -/
def accentedText : Bytes :=
  [0xc3, 0xa9, 0x1b, 0x5b, 0x33, 0x31, 0x6d, 0x62]

theorem ui_strip_ansi_utf8_accented :
    ∃ t more, uiStripAnsi (accentedText ++ [0]) = some (t ++ 0 :: more) ∧ Valid t := by
  obtain ⟨t, more, hrun, -, hiff⟩ := ui_strip_ansi_utf8_iff accentedText (by decide +kernel)
    ⟨[[0xc3, 0xa9], [0x1b], [0x5b], [0x33], [0x31], [0x6d], [0x62]], by decide +kernel, rfl⟩
  exact ⟨t, more, hrun, hiff.mpr (by decide +kernel)⟩

/-- An ESC in front of "ś" (U+015B), whose second byte is the 8-bit CSI in a terminal that
knows it. -/
def escapedCharacter : Bytes :=
  [0x1b, 0xc5, 0x9b]

theorem ui_strip_ansi_splits_character :
    Valid escapedCharacter ∧
      uiStripAnsi (escapedCharacter ++ [0]) = some ([0x9b] ++ 0 :: [0x9b, 0]) ∧
      ¬ Valid [0x9b] := by
  refine ⟨⟨[[0x1b], [0xc5, 0x9b]], by decide +kernel, rfl⟩, by decide +kernel, ?_⟩
  intro h
  exact absurd h.head (by decide)

end Left

end Ui
end Noxtor
