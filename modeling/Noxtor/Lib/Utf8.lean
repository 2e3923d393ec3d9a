import Mathlib.Data.List.GetD
import Noxtor.Lib.ByteString

/-!
# UTF-8

A byte string is valid UTF-8 if it is a sequence of encoded code points.  The first byte of a
code point is never a continuation byte and all the others are, so a valid string may be cut in
front of every byte that is not a continuation byte, and there is one among any four in a row.
-/

namespace Utf8

open ByteString

/-- A continuation byte, `10xxxxxx`. -/
def continuation (b : UInt8) : Bool :=
  b &&& 0xC0 = 0x80

/-- The encoding of one code point: shortest form, no surrogates, nothing above U+10FFFF. -/
def codePoint : Bytes → Bool
  | [a] => a < 0x80
  | [a, b] => 0xC2 ≤ a ∧ a ≤ 0xDF ∧ continuation b
  | [a, b, c] => 0xE0 ≤ a ∧ a ≤ 0xEF ∧ continuation b ∧ continuation c ∧
      (a = 0xE0 → 0xA0 ≤ b) ∧ (a = 0xED → b < 0xA0)
  | [a, b, c, d] => 0xF0 ≤ a ∧ a ≤ 0xF4 ∧ continuation b ∧ continuation c ∧ continuation d ∧
      (a = 0xF0 → 0x90 ≤ b) ∧ (a = 0xF4 → b < 0x90)
  | _ => false

/-- A sequence of code points. -/
def Valid (s : Bytes) : Prop :=
  ∃ cs : List Bytes, (∀ c ∈ cs, codePoint c = true) ∧ cs.flatten = s

/-- The bytes of these ranges are not continuation bytes. -/
theorem continuation_eq_false
    {a : UInt8} (h : a < 0x80 ∨ 0xC0 ≤ a) :
    continuation a = false := by
  have hall : ∀ n < 256, UInt8.ofNat n < 0x80 ∨ 0xC0 ≤ UInt8.ofNat n →
      continuation (UInt8.ofNat n) = false := by
    decide +kernel
  have ha := hall a.toNat a.toNat_lt
  rw [UInt8.ofNat_toNat] at ha
  exact ha h

/-- A leading byte and at most three continuation bytes. -/
theorem codePoint_cases
    {c : Bytes} (h : codePoint c = true) :
    ∃ lead rest, c = lead :: rest ∧ continuation lead = false ∧ rest.length ≤ 3 ∧
      ∀ b ∈ rest, continuation b = true := by
  unfold codePoint at h
  split at h
  · rename_i a
    refine ⟨a, [], rfl, continuation_eq_false (Or.inl (by simpa using h)), by simp, by simp⟩
  · rename_i a b
    simp only [decide_eq_true_eq] at h
    obtain ⟨ha, -, hb⟩ := h
    refine ⟨a, [b], rfl, continuation_eq_false (Or.inr ?_), by simp, by simpa using hb⟩
    exact UInt8.le_trans (by decide) ha
  · rename_i a b c
    simp only [decide_eq_true_eq] at h
    obtain ⟨ha, -, hb, hc, -⟩ := h
    refine ⟨a, [b, c], rfl, continuation_eq_false (Or.inr ?_), by simp, by simp [hb, hc]⟩
    exact UInt8.le_trans (by decide) ha
  · rename_i a b c d
    simp only [decide_eq_true_eq] at h
    obtain ⟨ha, -, hb, hc, hd, -⟩ := h
    refine ⟨a, [b, c, d], rfl, continuation_eq_false (Or.inr ?_), by simp, by simp [hb, hc, hd]⟩
    exact UInt8.le_trans (by decide) ha
  · cases h

theorem valid_nil : Valid [] :=
  ⟨[], by simp, rfl⟩

theorem Valid.cons
    {c s : Bytes} (hc : codePoint c = true) (h : Valid s) :
    Valid (c ++ s) := by
  obtain ⟨cs, hcs, rfl⟩ := h
  refine ⟨c :: cs, fun d hd => ?_, rfl⟩
  obtain rfl | hd := List.mem_cons.mp hd
  · exact hc
  · exact hcs d hd

/-- Induction over the code points. -/
theorem Valid.induct
    {motive : Bytes → Prop} {s : Bytes} (h : Valid s) (nil : motive [])
    (cons : ∀ c s, codePoint c = true → Valid s → motive s → motive (c ++ s)) :
    motive s := by
  obtain ⟨cs, hcs, rfl⟩ := h
  induction cs with
  | nil =>
      exact nil
  | cons c cs ih =>
      have htail : ∀ d ∈ cs, codePoint d = true := fun d hd => hcs d (List.mem_cons_of_mem c hd)
      exact cons c cs.flatten (hcs c List.mem_cons_self) ⟨cs, htail, rfl⟩ (ih htail)

/-- A valid string may be cut in front of a byte that is not a continuation byte. -/
theorem Valid.cut
    {s : Bytes} (h : Valid s) {n : Nat} (hn : n < s.length)
    (hb : continuation (s.getD n 0) = false) :
    Valid (s.take n) ∧ Valid (s.drop n) := by
  refine Valid.induct (motive := fun s => ∀ n, n < s.length → continuation (s.getD n 0) = false →
    Valid (s.take n) ∧ Valid (s.drop n)) h ?_ ?_ n hn hb
  · intro n hn
    exact absurd hn (Nat.not_lt_zero n)
  · intro c s hc hs ih n hn hb
    obtain ⟨lead, rest, rfl, -, -, hrest⟩ := codePoint_cases hc
    by_cases hle : (lead :: rest).length ≤ n
    · -- the cut lies behind the first code point
      obtain ⟨m, rfl⟩ := Nat.exists_eq_add_of_le hle
      rw [List.length_append] at hn
      rw [List.getD_append_right _ _ _ _ hle, Nat.add_sub_cancel_left] at hb
      obtain ⟨htake, hdrop⟩ := ih m (by omega) hb
      rw [List.take_length_add_append, List.drop_length_add_append]
      exact ⟨htake.cons hc, hdrop⟩
    · cases n with
      | zero =>
          exact ⟨valid_nil, hs.cons hc⟩
      | succ n =>
          have hlt : n < rest.length := by
            simp only [List.length_cons, not_le] at hle
            omega
          have hmem : continuation (rest.getD n 0) = true := by
            rw [List.getD_eq_getElem _ _ hlt]
            exact hrest _ (List.getElem_mem hlt)
          rw [List.cons_append, List.getD_cons_succ, List.getD_append _ _ _ _ hlt, hmem] at hb
          cases hb

/-- Among any four bytes in a row there is one that is not a continuation byte, and it is found
no later than at the beginning of the string. -/
theorem Valid.near
    {s : Bytes} (h : Valid s) {n : Nat} (hn : n < s.length) :
    ∃ m ≤ n, n ≤ m + 3 ∧ continuation (s.getD m 0) = false := by
  refine Valid.induct (motive := fun s => ∀ n, n < s.length →
    ∃ m ≤ n, n ≤ m + 3 ∧ continuation (s.getD m 0) = false) h ?_ ?_ n hn
  · intro n hn
    exact absurd hn (Nat.not_lt_zero n)
  · intro c s hc hs ih n hn
    obtain ⟨lead, rest, rfl, hlead, hlen, -⟩ := codePoint_cases hc
    by_cases hle : (lead :: rest).length ≤ n
    · obtain ⟨k, rfl⟩ := Nat.exists_eq_add_of_le hle
      rw [List.length_append] at hn
      obtain ⟨m, hm, hm3, hb⟩ := ih k (by omega)
      refine ⟨(lead :: rest).length + m, by omega, by omega, ?_⟩
      rw [List.getD_append_right _ _ _ _ (Nat.le_add_right _ _), Nat.add_sub_cancel_left]
      exact hb
    · refine ⟨0, Nat.zero_le n, ?_, hlead⟩
      simp only [List.length_cons, not_le] at hle
      omega

/-- The number of bytes of a code point, by its leading byte. -/
def width (lead : UInt8) : Nat :=
  if lead < 0x80 then 1
  else if lead < 0xE0 then 2
  else if lead < 0xF0 then 3
  else 4

theorem codePoint_length
    {lead : UInt8} {rest : Bytes} (h : codePoint (lead :: rest) = true) :
    (lead :: rest).length = width lead := by
  have hlt : ∀ {a b : UInt8}, a < b ↔ a.toNat < b.toNat := UInt8.lt_iff_toNat_lt
  have hle : ∀ {a b : UInt8}, a ≤ b ↔ a.toNat ≤ b.toNat := UInt8.le_iff_toNat_le
  match rest with
  | [] =>
      simp only [codePoint, decide_eq_true_eq] at h
      simp [width, h]
  | [b] =>
      simp only [codePoint, decide_eq_true_eq] at h
      obtain ⟨hlo, hhi, -⟩ := h
      rw [hle] at hlo hhi
      simp only [width, hlt, List.length_cons, List.length_nil]
      simp only [UInt8.toNat_ofNat] at *
      rw [if_neg (by omega), if_pos (by omega)]
  | [b, c] =>
      simp only [codePoint, decide_eq_true_eq] at h
      obtain ⟨hlo, hhi, -⟩ := h
      rw [hle] at hlo hhi
      simp only [width, hlt, List.length_cons, List.length_nil]
      simp only [UInt8.toNat_ofNat] at *
      rw [if_neg (by omega), if_neg (by omega), if_pos (by omega)]
  | [b, c, d] =>
      simp only [codePoint, decide_eq_true_eq] at h
      obtain ⟨hlo, hhi, -⟩ := h
      rw [hle] at hlo hhi
      simp only [width, hlt, List.length_cons, List.length_nil]
      simp only [UInt8.toNat_ofNat] at *
      rw [if_neg (by omega), if_neg (by omega), if_neg (by omega)]
  | _ :: _ :: _ :: _ :: _ =>
      simp [codePoint] at h

/-- Bytes from 0x80 on. -/
theorem high_of_continuation
    {b : UInt8} (h : continuation b = true) :
    0x80 ≤ b := by
  rcases UInt8.lt_or_le b 0x80 with hlt | hge
  · rw [continuation_eq_false (Or.inl hlt)] at h
    cases h
  · exact hge

/-- A code point is one ASCII byte or several bytes that are none. -/
theorem codePoint_ascii_or_high
    {c : Bytes} (h : codePoint c = true) :
    (∃ a, c = [a] ∧ a < 0x80) ∨
      ∃ lead next rest, c = lead :: next :: rest ∧ continuation next = true ∧
        ∀ b ∈ c, 0x80 ≤ b := by
  obtain ⟨lead, rest, rfl, hlead, -, hrest⟩ := codePoint_cases h
  cases rest with
  | nil =>
      refine Or.inl ⟨lead, rfl, ?_⟩
      simpa [codePoint] using h
  | cons next rest =>
      refine Or.inr ⟨lead, next, rest, rfl, hrest next List.mem_cons_self, ?_⟩
      intro b hb
      obtain rfl | hb := List.mem_cons.mp hb
      · have hlen := codePoint_length h
        rcases UInt8.lt_or_le b 0x80 with hlt | hge
        · rw [width, if_pos hlt] at hlen
          simp at hlen
        · exact hge
      · exact high_of_continuation (hrest b hb)

theorem Valid.eq_nil_or_cons
    {s : Bytes} (h : Valid s) :
    s = [] ∨ ∃ c t, codePoint c = true ∧ Valid t ∧ s = c ++ t := by
  refine Valid.induct (motive := fun s => s = [] ∨ ∃ c t, codePoint c = true ∧ Valid t ∧
    s = c ++ t) h (Or.inl rfl) ?_
  intro c s hc hs _
  exact Or.inr ⟨c, s, hc, hs, rfl⟩

/-- No valid string starts with a continuation byte. -/
theorem Valid.head
    {b : UInt8} {s : Bytes} (h : Valid (b :: s)) :
    continuation b = false := by
  obtain hnil | ⟨c, t, hc, -, heq⟩ := h.eq_nil_or_cons
  · cases hnil
  · obtain ⟨lead, rest, rfl, hlead, -⟩ := codePoint_cases hc
    rw [List.cons_append] at heq
    obtain ⟨rfl, -⟩ := List.cons.inj heq
    exact hlead

/-- A valid string starts with a code point, as long as its leading byte says. -/
theorem Valid.take_width
    {b : UInt8} {s : Bytes} (h : Valid (b :: s)) :
    codePoint ((b :: s).take (width b)) = true := by
  obtain hnil | ⟨c, t, hc, -, heq⟩ := h.eq_nil_or_cons
  · cases hnil
  · obtain ⟨lead, rest, rfl, -⟩ := codePoint_cases hc
    have hlead : b = lead := (List.cons.inj heq).1
    rw [heq, hlead, ← codePoint_length hc, List.take_left]
    exact hc

/-- The code point at the head of a string is unique. -/
theorem codePoint_append_inj
    {c d s t : Bytes} (hc : codePoint c = true) (hd : codePoint d = true)
    (h : c ++ s = d ++ t) :
    c = d ∧ s = t := by
  obtain ⟨lead, rest, rfl, -⟩ := codePoint_cases hc
  obtain ⟨lead', rest', rfl, -⟩ := codePoint_cases hd
  have hlead : lead = lead' := (List.cons.inj h).1
  refine List.append_inj h ?_
  rw [codePoint_length hc, codePoint_length hd, hlead]

theorem valid_codePoint_append_iff
    {c s : Bytes} (hc : codePoint c = true) :
    Valid (c ++ s) ↔ Valid s := by
  refine ⟨fun h => ?_, fun h => h.cons hc⟩
  obtain hnil | ⟨d, t, hd, ht, heq⟩ := h.eq_nil_or_cons
  · obtain ⟨lead, rest, rfl, -⟩ := codePoint_cases hc
    cases hnil
  · obtain ⟨-, rfl⟩ := codePoint_append_inj hc hd heq
    exact ht

theorem valid_ascii_cons_iff
    {a : UInt8} {s : Bytes} (ha : a < 0x80) :
    Valid (a :: s) ↔ Valid s :=
  valid_codePoint_append_iff (c := [a]) (by simpa [codePoint] using ha)

/-- A suffix of a valid string is valid if it starts at a code point. -/
theorem Valid.of_suffix
    {s w : Bytes} (h : Valid w) (hs : s <:+ w) (hb : ∀ b ∈ s.head?, continuation b = false) :
    Valid s := by
  obtain ⟨p, rfl⟩ := hs
  cases s with
  | nil =>
      exact valid_nil
  | cons b s =>
      have hcut : continuation ((p ++ b :: s).getD p.length 0) = false := by
        rw [List.getD_append_right _ _ _ _ (Nat.le_refl _), Nat.sub_self]
        exact hb b rfl
      have hdrop := (h.cut (by simp) hcut).2
      rwa [List.drop_left] at hdrop

end Utf8
